import PrimeAgent.Lib.Feed
import PrimeAgent.Roster.Indexes

/-! # Publishing the roster

A writer changes the roster under its lock and pushes the change under the lock of the last published rows afterwards,
so that pushes may come in another order than their writes.
-/
namespace PrimeAgent.Roster

abbrev RosterUpdate := Feed.Update String AgentRosterEntry

abbrev Rows := KeyMap String AgentRosterEntry

def AgentRoster.rows (r : AgentRoster) : Rows :=
  HashMap.view r.entries

structure Section where
  roster : AgentRoster
  update : RosterUpdate

namespace Section

def start (r : AgentRoster) : Section :=
  ⟨r, [], []⟩

def write (paths : PathAnswers) (summary : Json) (workerId : Option String) (s : Section) : Section :=
  let (entry, r) := s.roster.writeSummary paths summary workerId none
  ⟨r, s.update.changed ++ [(entry.agentId, entry)], s.update.removed⟩

def remove (canonicalize : Canonicalize) (agentId : String) (s : Section) : Section :=
  if (s.roster.get agentId).isSome then
    ⟨s.roster.delete canonicalize agentId, s.update.changed, s.update.removed ++ [agentId]⟩
  else s

def removeEach (paths : Nat → PathAnswers) : Nat → List String → Section → Section
  | _, [], s => s
  | i, agentId :: removed, s => removeEach paths (i + 1) removed (s.remove (paths i).dropped agentId)

end Section

/-! ## The writers -/

def applyWorkerRosterDelta (paths : Nat → PathAnswers) (r : AgentRoster) (workerId instanceId : String) (sequence : Nat)
    (summary : Json) (removed : List String) : AgentRoster × Option RosterUpdate :=
  match r.acceptDeltaSequence workerId instanceId sequence with
  | (false, r) => (r, none)
  | (true, r) =>
    let s := ((Section.start r).write (paths 0) summary (some workerId)).removeEach paths 1 removed
    (s.roster, some s.update)

def writeRosterSummaryForResident (paths : PathAnswers) (r : AgentRoster) (workerId : String)
    (descriptorInstance : Option String) (summary : Json) : AgentRoster × Option RosterUpdate :=
  let instanceId := (textMember "workerInstanceId" summary).getD (descriptorInstance.getD "")
  let counter := (summary.get "rosterDeltaSequence").bind Json.asU64
  match r.acceptRosterPull workerId instanceId counter with
  | (false, r) => (r, none)
  | (true, r) =>
    let s := (Section.start r).write paths summary (some workerId)
    (s.roster, some s.update)

def normalizeModelToDurablePair (members : JsonMap) : JsonMap :=
  match members.lookup "model" with
  | none => members
  | some model =>
    match strMember "provider" model, strMember "modelId" model, strMember "id" model with
    | some provider, none, some modelId =>
      JsonMap.set "model" (.object [("provider", .string provider), ("modelId", .string modelId)]) members
    | _, _, _ => members

def runtimeMembers : List String :=
  ["activeSessionId", "directAttachedClients", "hasActiveHeartbeat", "hasRegisteredHeartbeat", "hasRegisteredCronJob",
    "hasRunningRlmChildren", "isBashRunning", "isRunningTools", "workerState", "workerPid"]

def keepMark (key : String) (before members : JsonMap) : JsonMap :=
  if (before.lookup key).bind Json.asBool = some true then JsonMap.set key (.bool true) members else members

def nameBySession (members : JsonMap) : JsonMap :=
  match (members.lookup "sessionId").bind Json.asStr with
  | some sessionId => JsonMap.set "id" (.string sessionId) members
  | none => members

def passivatedMembers (members : JsonMap) : JsonMap :=
  let idle := JsonMap.set "attachedClients" (.number (.posInt 0)) <| JsonMap.set "isCompacting" (.bool false) <|
    JsonMap.set "isStreaming" (.bool false) <| JsonMap.set "isSessionActive" (.bool false) <|
    JsonMap.set "activity" (.string "idle") <| runtimeMembers.foldl (fun members key => JsonMap.remove key members) members
  let marked := keepMark "hasRegisteredCronJob" members (keepMark "hasRegisteredHeartbeat" members idle)
  normalizeModelToDurablePair (nameBySession marked)

def passivatedSummary : Json → Json
  | .object members => .object (passivatedMembers members)
  | summary => summary

structure FamilyView where
  ledgerRead : Bool
  anchoredFile : String → Bool

def isSubagent (entry : AgentRosterEntry) : Bool :=
  (strMember "rlmChildId" entry.summary).isSome

def FamilyView.anchored (family : FamilyView) (entry : AgentRosterEntry) : Bool :=
  !isSubagent entry || (strMember "sessionFile" entry.summary).any family.anchoredFile

structure Passivation where
  workerId : String
  ephemeral : Bool
  owned : List AgentRosterEntry
  unownedAtStart : List AgentRosterEntry

def beginPassivation (order : IterationOrder) (r : AgentRoster) (workerId : String) (ephemeral : Bool) :
    AgentRoster × Passivation :=
  (r.forgetWorkerSequences workerId,
    ⟨workerId, ephemeral, r.entriesForWorker order workerId, (r.allEntries order).filter (·.workerId = none)⟩)

namespace Section

def passivates (p : Passivation) (family : FamilyView) (entry : AgentRosterEntry) : Bool :=
  !p.ephemeral && entry.queuedChild != some true && family.anchored entry

def settleRow (p : Passivation) (family : FamilyView) (paths : PathAnswers) (entry : AgentRosterEntry) (s : Section) :
    Section :=
  if ((s.roster.get entry.agentId).bind (·.workerId)) = some p.workerId then
    if passivates p family entry then s.write paths (passivatedSummary entry.summary) none
    else s.remove paths.dropped entry.agentId
  else s

def settleEach (p : Passivation) (family : FamilyView) (paths : Nat → PathAnswers) :
    Nat → List AgentRosterEntry → Section → Section
  | _, [], s => s
  | i, entry :: entries, s => settleEach p family paths (i + 1) entries (s.settleRow p family (paths i) entry)

def sweepRow (family : FamilyView) (canonicalize : Canonicalize) (entry : AgentRosterEntry) (s : Section) : Section :=
  match s.roster.get entry.agentId with
  | none => s
  | some current =>
    if current.workerId.isSome || !isSubagent entry || family.anchored entry then s
    else s.remove canonicalize entry.agentId

def sweepEach (family : FamilyView) (paths : Nat → PathAnswers) : Nat → List AgentRosterEntry → Section → Section
  | _, [], s => s
  | i, entry :: entries, s => sweepEach family paths (i + 1) entries (s.sweepRow family (paths i).dropped entry)

end Section

def settledRows (order : IterationOrder) (r : AgentRoster) (p : Passivation) : List AgentRosterEntry :=
  p.owned ++ (r.entriesForWorker order p.workerId).filter fun late => p.owned.all (·.agentId ≠ late.agentId)

def settle (order : IterationOrder) (family : FamilyView) (paths : Nat → PathAnswers) (r : AgentRoster)
    (p : Passivation) : Section :=
  let rows := settledRows order r p
  let s := (Section.start r).settleEach p family paths 0 rows
  if family.ledgerRead then s.sweepEach family paths rows.length p.unownedAtStart else s

/-! ## The supervisor -/

structure Supervisor where
  roster : AgentRoster
  feed : Feed String AgentRosterEntry
  passivations : List Passivation

inductive Turn where
  | delta (paths : Nat → PathAnswers) (workerId instanceId : String) (sequence : Nat) (summary : Json)
      (removed : List String)
  | pull (paths : PathAnswers) (workerId : String) (descriptorInstance : Option String) (summary : Json)
  | passivate (workerId : String) (ephemeral : Bool)
  | settle (i : Nat) (replacementLive : Bool) (family : FamilyView) (paths : Nat → PathAnswers)
  | note (workerId instanceId : String)
  | publish (i : Nat)
  | subscribe

namespace Supervisor

def new : Supervisor :=
  ⟨AgentRoster.new, Feed.start, []⟩

def wrote (s : Supervisor) : AgentRoster × Option RosterUpdate → Supervisor
  | (r, some update) => { s with roster := r, feed := s.feed.note update }
  | (r, none) => { s with roster := r }

def turn (order : IterationOrder) (s : Supervisor) : Turn → Supervisor
  | .delta paths workerId instanceId sequence summary removed =>
    s.wrote (applyWorkerRosterDelta paths s.roster workerId instanceId sequence summary removed)
  | .pull paths workerId descriptorInstance summary =>
    s.wrote (writeRosterSummaryForResident paths s.roster workerId descriptorInstance summary)
  | .passivate workerId ephemeral =>
    let (r, p) := beginPassivation order s.roster workerId ephemeral
    { s with roster := r, passivations := s.passivations ++ [p] }
  | .settle i replacementLive family paths =>
    match s.passivations[i]? with
    | none => s
    | some p =>
      let s := { s with passivations := s.passivations.eraseIdx i }
      if replacementLive then s
      else
        let settled := Roster.settle order family paths s.roster p
        s.wrote (settled.roster, some settled.update)
  | .note workerId instanceId => { s with roster := s.roster.noteWorkerGeneration workerId instanceId }
  | .publish i => { s with feed := s.feed.publish i }
  | .subscribe =>
    let answer := (s.roster.allEntries order).map fun entry => (entry.agentId, entry)
    { s with feed := s.feed.subscribe (KeyMap.ofPairs answer) }

def run (order : IterationOrder) (s : Supervisor) (turns : List Turn) : Supervisor :=
  turns.foldl (turn order) s

end Supervisor

end PrimeAgent.Roster
