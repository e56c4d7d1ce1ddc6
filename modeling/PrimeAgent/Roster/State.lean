import PrimeAgent.Lib.HashMap
import PrimeAgent.Types.Json

/-! # The agent roster

The entries by agent id, the two indexes over them, and for each worker the slot that names its process generation and
the newest sequence applied from it.
-/
namespace PrimeAgent.Roster

inductive AgentRosterStatus where
  | running | idle | inactive
deriving DecidableEq, Repr

structure AgentStatusInput where
  resident : Bool
  queuedChild : Bool
  busy : Bool

def classifyAgentStatus (input : AgentStatusInput) : AgentRosterStatus :=
  if input.queuedChild then .running
  else if !input.resident then .inactive
  else if input.busy then .running
  else .idle

def classifySessionRosterStatus (resident : Bool) (activity : String) (sessionActive queuedChild : Bool) :
    AgentRosterStatus :=
  classifyAgentStatus ⟨resident, queuedChild, activity == "working" || sessionActive⟩

def strMember (key : String) (summary : Json) : Option String :=
  (summary.get key).bind Json.asStr

def textMember (key : String) (summary : Json) : Option String :=
  (strMember key summary).filter (· != "")

def classifySummaryValue (summary : Json) (queuedChild : Bool) : AgentRosterStatus :=
  let resident := (summary.get "activeSessionId").any fun id => id != .null && id.asStr != some ""
  let activity := (strMember "activity" summary).getD "idle"
  let sessionActive := ((summary.get "isSessionActive").bind Json.asBool).getD false
  classifySessionRosterStatus resident activity sessionActive queuedChild

def rosterAgentId (sessionId runtimeKind : String) (rlmChildId parentKey : Option String) : String :=
  if runtimeKind = "subagent" then
    match rlmChildId with
    | some childId =>
      match parentKey with
      | some key => if key = "" then childId else key ++ "#" ++ childId
      | none => childId
    | none => sessionId
  else sessionId

def rosterAgentIdForSummary (summary : Json) : String :=
  rosterAgentId ((strMember "sessionId" summary).getD "") ((strMember "runtimeKind" summary).getD "top-level")
    (strMember "rlmChildId" summary)
    ((textMember "parentSessionPath" summary).orElse fun _ => textMember "parentActiveSessionId" summary)

def slimRosterSummary : Json → Json
  | .object members =>
    .object (JsonMap.remove "diagnostics" (JsonMap.remove "sessionActions" (JsonMap.remove "streamingMessage" members)))
  | summary => summary

structure AgentRosterEntry where
  agentId : String
  queuedChild : Option Bool
  seededCwd : Option Bool
  summary : Json
  status : AgentRosterStatus
  statusLabel : Option String
  lastHeardFromAt : Option String
  workerId : Option String
deriving DecidableEq

namespace AgentRosterEntry

def activeSessionId (entry : AgentRosterEntry) : Option String :=
  textMember "activeSessionId" entry.summary

def sessionFile (entry : AgentRosterEntry) : Option String :=
  textMember "sessionFile" entry.summary

end AgentRosterEntry

/-- `instanceId` is the worker's current process generation. -/
structure DeltaWatermark where
  instanceId : String
  watermark : Nat
deriving DecidableEq

structure AgentRoster where
  entries : HashMap String AgentRosterEntry
  agentIdByActiveSessionId : KeyMap String String
  agentIdBySessionFile : KeyMap String String
  deltaWatermarks : KeyMap String DeltaWatermark

/-- What `Path::canonicalize` answers at one call. -/
abbrev Canonicalize := String → Option String

def canonicalRosterPath (canonicalize : Canonicalize) (path : String) : String :=
  (canonicalize path).getD path

/-- The answers at the calls of one write or delete: for the file of the entry that is dropped, for the file that is
written, and for the file of the evicted owner. -/
structure PathAnswers where
  dropped : Canonicalize
  written : Canonicalize
  evicted : Canonicalize

namespace AgentRoster

def new : AgentRoster :=
  ⟨∅, KeyMap.empty, KeyMap.empty, KeyMap.empty⟩

def get (r : AgentRoster) (agentId : String) : Option AgentRosterEntry :=
  r.entries.lookup agentId

def byActiveSessionId (r : AgentRoster) (activeSessionId : String) : Option AgentRosterEntry :=
  (r.agentIdByActiveSessionId.get activeSessionId).bind r.get

def allEntries (order : IterationOrder) (r : AgentRoster) : List AgentRosterEntry :=
  HashMap.values order r.entries

def entriesForWorker (order : IterationOrder) (r : AgentRoster) (workerId : String) : List AgentRosterEntry :=
  (HashMap.values order r.entries).filter (·.workerId = some workerId)

/-! ## The writes -/

def dropOwned (index : KeyMap String String) (agentId key : String) : KeyMap String String :=
  if index.get key = some agentId then index.remove key else index

def dropActiveSessionId (r : AgentRoster) (entry : AgentRosterEntry) : AgentRoster :=
  match entry.activeSessionId with
  | some active =>
    { r with agentIdByActiveSessionId := dropOwned r.agentIdByActiveSessionId entry.agentId active }
  | none => r

def dropSessionFile (canonicalize : Canonicalize) (r : AgentRoster) (entry : AgentRosterEntry) : AgentRoster :=
  match entry.sessionFile with
  | some file =>
    { r with agentIdBySessionFile :=
        dropOwned r.agentIdBySessionFile entry.agentId (canonicalRosterPath canonicalize file) }
  | none => r

def dropIndexes (canonicalize : Canonicalize) (r : AgentRoster) (entry : AgentRosterEntry) : AgentRoster :=
  (r.dropActiveSessionId entry).dropSessionFile canonicalize entry

def dropPrevious (canonicalize : Canonicalize) (r : AgentRoster) (agentId : String) : AgentRoster :=
  match r.get agentId with
  | some previous => r.dropIndexes canonicalize previous
  | none => r

def delete (canonicalize : Canonicalize) (r : AgentRoster) (agentId : String) : AgentRoster :=
  match r.get agentId with
  | none => r
  | some entry => { r with entries := r.entries.erase agentId }.dropIndexes canonicalize entry

def stored (summary : Json) (queuedChild : Option Bool) (workerId statusLabel : Option String)
    (seededCwd : Option Bool) : AgentRosterEntry :=
  let queued := queuedChild.getD false
  { agentId := rosterAgentIdForSummary summary
    queuedChild := queuedChild
    seededCwd := seededCwd
    summary := slimRosterSummary summary
    status := classifySummaryValue summary queued
    statusLabel := if queued then some "queued" else statusLabel
    lastHeardFromAt := none
    workerId := workerId }

def claimSessionFile (paths : PathAnswers) (r : AgentRoster) (entry : AgentRosterEntry) : AgentRoster :=
  match entry.sessionFile with
  | none => r
  | some file =>
    let key := canonicalRosterPath paths.written file
    let r := match r.agentIdBySessionFile.get key with
      | some existing => if existing ≠ entry.agentId then r.delete paths.evicted existing else r
      | none => r
    { r with agentIdBySessionFile := r.agentIdBySessionFile.insert key entry.agentId }

def claimActiveSessionId (r : AgentRoster) (entry : AgentRosterEntry) : AgentRoster :=
  match entry.activeSessionId with
  | none => r
  | some active =>
    { r with agentIdByActiveSessionId := r.agentIdByActiveSessionId.insert active entry.agentId }

def store (paths : PathAnswers) (r : AgentRoster) (entry : AgentRosterEntry) : AgentRoster :=
  let r := ((r.dropPrevious paths.dropped entry.agentId).claimSessionFile paths entry).claimActiveSessionId entry
  { r with entries := r.entries.insert entry.agentId entry }

def summaryEntry (summary : Json) (workerId statusLabel : Option String) : AgentRosterEntry :=
  let queuedChild := ((summary.get "queuedChild").bind Json.asBool).getD false
  stored summary (if queuedChild then some true else none) workerId statusLabel none

def writeSummary (paths : PathAnswers) (r : AgentRoster) (summary : Json) (workerId statusLabel : Option String) :
    AgentRosterEntry × AgentRoster :=
  (summaryEntry summary workerId statusLabel, r.store paths (summaryEntry summary workerId statusLabel))

def seededEntry (summary : Json) (seededCwd : Bool) : AgentRosterEntry :=
  stored summary none none none (if seededCwd then some true else none)

def writeSeeded (paths : PathAnswers) (r : AgentRoster) (summary : Json) (seededCwd : Bool) :
    AgentRosterEntry × AgentRoster :=
  (seededEntry summary seededCwd, r.store paths (seededEntry summary seededCwd))

/-! ## The gates -/

/-- A delta is stale unless it is newer than what the slot of its generation has; zero means that it has no sequence. -/
def acceptDeltaSequence (r : AgentRoster) (workerId instanceId : String) (sequence : Nat) : Bool × AgentRoster :=
  if sequence = 0 then
    ((r.deltaWatermarks.get workerId).all (·.instanceId = instanceId), r)
  else
    match r.deltaWatermarks.get workerId with
    | some slot =>
      if slot.instanceId = instanceId then
        if sequence ≤ slot.watermark then (false, r)
        else
          (true, { r with deltaWatermarks := r.deltaWatermarks.insert workerId { slot with watermark := sequence } })
      else (false, r)
    | none => (true, { r with deltaWatermarks := r.deltaWatermarks.insert workerId ⟨instanceId, sequence⟩ })

def acceptRosterPull (r : AgentRoster) (workerId instanceId : String) (counter : Option Nat) : Bool × AgentRoster :=
  match counter with
  | none => (true, r)
  | some counter =>
    match r.deltaWatermarks.get workerId with
    | some slot =>
      if slot.instanceId = instanceId then
        if counter < slot.watermark then (false, r)
        else
          (true, { r with deltaWatermarks := r.deltaWatermarks.insert workerId { slot with watermark := counter } })
      else (false, r)
    | none => (true, { r with deltaWatermarks := r.deltaWatermarks.insert workerId ⟨instanceId, counter⟩ })

def noteWorkerGeneration (r : AgentRoster) (workerId instanceId : String) : AgentRoster :=
  let generationFlipped := match r.deltaWatermarks.get workerId with
    | some slot => slot.instanceId != instanceId
    | none => true
  if generationFlipped then
    { r with deltaWatermarks := r.deltaWatermarks.insert workerId ⟨instanceId, 0⟩ }
  else r

def forgetWorkerSequences (r : AgentRoster) (workerId : String) : AgentRoster :=
  { r with deltaWatermarks := r.deltaWatermarks.remove workerId }

end AgentRoster

end PrimeAgent.Roster
