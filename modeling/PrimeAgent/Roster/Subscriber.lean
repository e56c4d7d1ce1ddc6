import PrimeAgent.Roster.Publish

/-! # What a subscriber ends with

A subscriber has the rows of the roster once nothing is pending, if no write evicts another agent and pushes of one agent
come in the order of their writes.
-/
namespace PrimeAgent.Roster

open AgentRoster

variable {r r₀ : AgentRoster} {keys : WrittenKeys} {entry : AgentRosterEntry} {paths : PathAnswers}
  {canonicalize : Canonicalize} {order : IterationOrder} {s : Section} {summary : Json} {members : JsonMap}
  {key : String} {removed : List String}

/-! ## The id of a summary -/

def idMembers : List String :=
  ["sessionId", "runtimeKind", "rlmChildId", "parentSessionPath", "parentActiveSessionId"]

theorem rosterAgentId_congr {a b : Json} (h : ∀ key ∈ idMembers, a.get key = b.get key) :
    rosterAgentIdForSummary a = rosterAgentIdForSummary b := by
  have hStr : ∀ key ∈ idMembers, strMember key a = strMember key b := by
    intro key hMem
    rw [strMember, strMember, h key hMem]
  have hText : ∀ key ∈ idMembers, textMember key a = textMember key b := by
    intro key hMem
    rw [textMember, textMember, hStr key hMem]
  unfold rosterAgentIdForSummary
  rw [hStr "sessionId" (by decide), hStr "runtimeKind" (by decide), hStr "rlmChildId" (by decide),
    hText "parentSessionPath" (by decide), hText "parentActiveSessionId" (by decide)]

@[simp] theorem rosterAgentId_slim (summary : Json) :
    rosterAgentIdForSummary (slimRosterSummary summary) = rosterAgentIdForSummary summary := by
  cases summary with
  | object members =>
    have hNone : ∀ key ∈ idMembers, key ≠ "streamingMessage" ∧ key ≠ "sessionActions" ∧ key ≠ "diagnostics" := by decide
    refine rosterAgentId_congr fun key hMem => ?_
    obtain ⟨hMessage, hActions, hDiagnostics⟩ := hNone key hMem
    show List.lookup _ _ = List.lookup _ _
    rw [JsonMap.lookup_remove_of_ne hDiagnostics, JsonMap.lookup_remove_of_ne hActions,
      JsonMap.lookup_remove_of_ne hMessage]
  | _ => rfl

theorem lookup_removeEach (hOther : key ∉ removed) (members : JsonMap) :
    (removed.foldl (fun members key => JsonMap.remove key members) members).lookup key = members.lookup key := by
  induction removed generalizing members with
  | nil => rfl
  | cons first removed ih =>
    obtain ⟨hHead, hTail⟩ := not_or.mp (mt List.mem_cons.mpr hOther)
    rw [List.foldl_cons, ih hTail, JsonMap.lookup_remove_of_ne hHead]

theorem lookup_keepMark {key mark : String} (hOther : key ≠ mark) (before members : JsonMap) :
    (keepMark mark before members).lookup key = members.lookup key := by
  unfold keepMark
  split
  next => exact JsonMap.lookup_set_of_ne hOther _ _
  next => rfl

theorem lookup_normalizeModel (hOther : key ≠ "model") (members : JsonMap) :
    (normalizeModelToDurablePair members).lookup key = members.lookup key := by
  unfold normalizeModelToDurablePair
  split
  next => rfl
  next =>
    split
    next => exact JsonMap.lookup_set_of_ne hOther _ _
    next => rfl

theorem lookup_nameBySession (hOther : key ≠ "id") (members : JsonMap) :
    (nameBySession members).lookup key = members.lookup key := by
  unfold nameBySession
  split
  next => exact JsonMap.lookup_set_of_ne hOther _ _
  next => rfl

def passivatedKeys : List String :=
  ["activity", "isSessionActive", "isStreaming", "isCompacting", "attachedClients", "hasRegisteredHeartbeat",
    "hasRegisteredCronJob", "id", "model"]

theorem lookup_passivated (hRuntime : key ∉ runtimeMembers) (hKey : key ∉ passivatedKeys) (members : JsonMap) :
    (passivatedMembers members).lookup key = members.lookup key := by
  simp only [passivatedKeys, List.mem_cons, List.not_mem_nil, or_false, not_or] at hKey
  obtain ⟨hActivity, hActive, hStreaming, hCompacting, hClients, hHeartbeat, hCron, hId, hModel⟩ := hKey
  unfold passivatedMembers
  rw [lookup_normalizeModel hModel, lookup_nameBySession hId, lookup_keepMark hCron, lookup_keepMark hHeartbeat,
    JsonMap.lookup_set_of_ne hClients, JsonMap.lookup_set_of_ne hCompacting, JsonMap.lookup_set_of_ne hStreaming,
    JsonMap.lookup_set_of_ne hActive, JsonMap.lookup_set_of_ne hActivity, lookup_removeEach hRuntime]

theorem rosterAgentId_passivated (summary : Json) :
    rosterAgentIdForSummary (passivatedSummary summary) = rosterAgentIdForSummary summary := by
  cases summary with
  | object members =>
    have hNone : ∀ key ∈ idMembers, key ∉ runtimeMembers ∧ key ∉ passivatedKeys := by decide
    exact rosterAgentId_congr fun key hMem => lookup_passivated (hNone key hMem).1 (hNone key hMem).2 members
  | _ => rfl

/-! ## What a writer reports -/

def EvictsNone (paths : PathAnswers) (r : AgentRoster) (entry : AgentRosterEntry) : Prop :=
  ∀ other, evictee paths r entry = some other → r.get other = none

structure Named (r : AgentRoster) : Prop where
  based : ∃ keys, Based r keys
  named : ∀ a e, r.get a = some e → rosterAgentIdForSummary e.summary = a

theorem Named.agentId {a : String} {e : AgentRosterEntry} (h : Named r) (hGet : r.get a = some e) : e.agentId = a := by
  obtain ⟨keys, hBased⟩ := h.based
  exact hBased.ids a e hGet

theorem named_store (h : Named r) (hName : rosterAgentIdForSummary entry.summary = entry.agentId) :
    Named (r.store paths entry) := by
  obtain ⟨keys, hBased⟩ := h.based
  constructor
  · exact ⟨writeKeys paths keys entry, based_store hBased⟩
  · intro a e hGet
    rw [get_store hBased] at hGet
    split at hGet
    next hSame =>
      obtain rfl := Option.some.inj hGet
      exact hName.trans hSame.symm
    next =>
      split at hGet
      next => cases hGet
      next => exact h.named a e hGet

theorem named_delete {agentId : String} (h : Named r) : Named (r.delete canonicalize agentId) := by
  obtain ⟨keys, hBased⟩ := h.based
  constructor
  · exact ⟨keys, based_delete hBased⟩
  · intro a e hGet
    rw [get_delete] at hGet
    split at hGet
    next => cases hGet
    next => exact h.named a e hGet

structure Reports (r₀ : AgentRoster) (s : Section) : Prop where
  rows : s.roster.rows = s.update.apply r₀.rows
  named : Named s.roster

theorem reports_start (h : Named r) : Reports r (Section.start r) :=
  ⟨rfl, h⟩

theorem rows_store (h : Named r) (hAlone : EvictsNone paths r entry) :
    (r.store paths entry).rows = r.rows.insert entry.agentId entry := by
  obtain ⟨keys, hBased⟩ := h.based
  ext1 a
  show (r.store paths entry).get a = _
  rw [get_store hBased, KeyMap.get_insert]
  split
  next => rfl
  next =>
    split
    next hEvicted => exact (hAlone a hEvicted).symm
    next => rfl

theorem reports_write {workerId : Option String} (h : Reports r₀ s)
    (hAlone : EvictsNone paths s.roster (summaryEntry summary workerId none))
    (hKept : rosterAgentIdForSummary summary ∉ s.update.removed) : Reports r₀ (s.write paths summary workerId) := by
  constructor
  · show (s.roster.store paths (summaryEntry summary workerId none)).rows = _
    rw [rows_store h.named hAlone, h.rows]
    ext1 a
    rw [KeyMap.get_insert, Feed.Update.apply, Feed.get_removeAll, Feed.Update.apply, Feed.get_removeAll]
    simp only [Section.write, AgentRoster.writeSummary, Feed.insertAll, List.foldl_append, List.foldl_cons,
      List.foldl_nil, KeyMap.get_insert]
    by_cases hSame : a = rosterAgentIdForSummary summary
    · subst hSame
      have hOwn : rosterAgentIdForSummary summary = (summaryEntry summary workerId none).agentId := rfl
      rw [if_pos hOwn, if_neg hKept, if_pos hOwn]
    · have hOther : a ≠ (summaryEntry summary workerId none).agentId := hSame
      rw [if_neg hOther, if_neg hOther]
  · exact named_store h.named (rosterAgentId_slim summary)

theorem reports_remove {agentId : String} (h : Reports r₀ s) : Reports r₀ (s.remove canonicalize agentId) := by
  unfold Section.remove
  split
  next =>
    constructor
    · ext1 a
      show (s.roster.delete canonicalize agentId).get a = _
      have hRows : s.roster.get a = (s.update.apply r₀.rows).get a := congrArg (KeyMap.get · a) h.rows
      rw [get_delete, hRows, Feed.Update.apply, Feed.get_removeAll, Feed.Update.apply, Feed.get_removeAll]
      by_cases hSame : a = agentId
      · simp [hSame]
      · simp [hSame]
    · exact named_delete h.named
  next => exact h

theorem reports_removeEach {paths : Nat → PathAnswers} {removed : List String} (i : Nat) (h : Reports r₀ s) :
    Reports r₀ (s.removeEach paths i removed) := by
  induction removed generalizing i s with
  | nil => exact h
  | cons agentId removed ih => exact ih (i + 1) (reports_remove h)

theorem Reports.not_removed {a : String} (h : Reports r₀ s) (hLive : (s.roster.get a).isSome = true) :
    a ∉ s.update.removed := by
  intro hMem
  have hRows : s.roster.get a = (s.update.apply r₀.rows).get a := congrArg (KeyMap.get · a) h.rows
  rw [hRows, Feed.Update.apply, Feed.get_removeAll, if_pos hMem] at hLive
  cases hLive

section Settle

variable {p : Passivation} {family : FamilyView} {pathsAt : Nat → PathAnswers} {entries : List AgentRosterEntry}

def SettlesAlone (p : Passivation) (family : FamilyView) (paths : Nat → PathAnswers) :
    Nat → List AgentRosterEntry → Section → Prop
  | _, [], _ => True
  | i, entry :: entries, s =>
    (((s.roster.get entry.agentId).bind (·.workerId)) = some p.workerId → Section.passivates p family entry →
      EvictsNone (paths i) s.roster (summaryEntry (passivatedSummary entry.summary) none none)) ∧
      SettlesAlone p family paths (i + 1) entries (s.settleRow p family (paths i) entry)

theorem reports_settleEach (h : Reports r₀ s) (i : Nat)
    (hNamed : ∀ e ∈ entries, rosterAgentIdForSummary e.summary = e.agentId)
    (hAlone : SettlesAlone p family pathsAt i entries s) : Reports r₀ (s.settleEach p family pathsAt i entries) := by
  induction entries generalizing i s with
  | nil => exact h
  | cons entry entries ih =>
    obtain ⟨hName, hNames⟩ := List.forall_mem_cons.mp hNamed
    obtain ⟨hFirst, hRest⟩ := hAlone
    refine ih ?_ (i + 1) hNames hRest
    unfold Section.settleRow
    split
    next hOwned =>
      split
      next hStays =>
        refine reports_write h (hFirst hOwned hStays) (h.not_removed ?_)
        rw [rosterAgentId_passivated, hName]
        obtain ⟨current, hGet, -⟩ := Option.bind_eq_some_iff.mp hOwned
        rw [hGet]
        rfl
      next => exact reports_remove h
    next => exact h

theorem reports_sweepEach (h : Reports r₀ s) (i : Nat) : Reports r₀ (s.sweepEach family pathsAt i entries) := by
  induction entries generalizing i s with
  | nil => exact h
  | cons entry entries ih =>
    refine ih ?_ (i + 1)
    unfold Section.sweepRow
    split
    next => exact h
    next =>
      split
      next => exact h
      next => exact reports_remove h

theorem entriesForWorker_named {workerId : String} (h : Named r) :
    ∀ e ∈ r.entriesForWorker order workerId, rosterAgentIdForSummary e.summary = e.agentId := by
  intro e hMem
  obtain ⟨a, hGet⟩ := (HashMap.mem_values order).mp (List.mem_of_mem_filter hMem)
  rw [h.named a e hGet, h.agentId hGet]

theorem reports_settle (h : Named r) (hOwned : ∀ e ∈ p.owned, rosterAgentIdForSummary e.summary = e.agentId)
    (hAlone : SettlesAlone p family pathsAt 0 (settledRows order r p) (Section.start r)) :
    Reports r (settle order family pathsAt r p) := by
  have hRows : ∀ e ∈ settledRows order r p, rosterAgentIdForSummary e.summary = e.agentId := by
    intro e hMem
    obtain hMem | hMem := List.mem_append.mp hMem
    · exact hOwned e hMem
    · exact entriesForWorker_named h e (List.mem_of_mem_filter hMem)
  have hSettled := reports_settleEach (reports_start h) 0 hRows hAlone
  unfold settle
  simp only
  split
  next => exact reports_sweepEach hSettled _
  next => exact hSettled

end Settle

/-! ## A turn -/

theorem named_watermarks (h : Named r) (watermarks : KeyMap String DeltaWatermark) :
    Named { r with deltaWatermarks := watermarks } := by
  obtain ⟨keys, hBased⟩ := h.based
  exact ⟨⟨keys, hBased.ids, hBased.keyed, hBased.carried⟩, h.named⟩

theorem acceptDelta_watermarks (r : AgentRoster) (workerId instanceId : String) (sequence : Nat) :
    ∃ watermarks, (r.acceptDeltaSequence workerId instanceId sequence).2 = { r with deltaWatermarks := watermarks } := by
  unfold acceptDeltaSequence
  split
  next => exact ⟨_, rfl⟩
  next =>
    split
    next =>
      split
      next =>
        split
        next => exact ⟨_, rfl⟩
        next => exact ⟨_, rfl⟩
      next => exact ⟨_, rfl⟩
    next => exact ⟨_, rfl⟩

theorem acceptPull_watermarks (r : AgentRoster) (workerId instanceId : String) (counter : Option Nat) :
    ∃ watermarks, (r.acceptRosterPull workerId instanceId counter).2 = { r with deltaWatermarks := watermarks } := by
  unfold acceptRosterPull
  split
  next => exact ⟨_, rfl⟩
  next =>
    split
    next =>
      split
      next =>
        split
        next => exact ⟨_, rfl⟩
        next => exact ⟨_, rfl⟩
      next => exact ⟨_, rfl⟩
    next => exact ⟨_, rfl⟩

theorem note_watermarks (r : AgentRoster) (workerId instanceId : String) :
    ∃ watermarks, r.noteWorkerGeneration workerId instanceId = { r with deltaWatermarks := watermarks } := by
  unfold noteWorkerGeneration
  extract_lets generationFlipped
  by_cases hFlipped : generationFlipped = true
  · rw [if_pos hFlipped]
    exact ⟨_, rfl⟩
  · rw [if_neg hFlipped]
    exact ⟨_, rfl⟩

def Wrote (r : AgentRoster) (out : AgentRoster × Option RosterUpdate) : Prop :=
  Named out.1 ∧ match out.2 with
    | some update => out.1.rows = update.apply r.rows
    | none => out.1.rows = r.rows

theorem wrote_delta {pathsAt : Nat → PathAnswers} {workerId instanceId : String} {sequence : Nat} (h : Named r)
    (hAlone : EvictsNone (pathsAt 0) r (summaryEntry summary (some workerId) none)) :
    Wrote r (applyWorkerRosterDelta pathsAt r workerId instanceId sequence summary removed) := by
  obtain ⟨watermarks, hGate⟩ := acceptDelta_watermarks r workerId instanceId sequence
  unfold applyWorkerRosterDelta
  split
  next refused hOut =>
    obtain rfl : refused = { r with deltaWatermarks := watermarks } := by rw [← hGate, hOut]
    exact ⟨named_watermarks h watermarks, rfl⟩
  next accepted hOut =>
    obtain rfl : accepted = { r with deltaWatermarks := watermarks } := by rw [← hGate, hOut]
    have hWritten := reports_write (reports_start (named_watermarks h watermarks)) hAlone (List.not_mem_nil)
    have hReports := @reports_removeEach _ _ pathsAt removed 1 hWritten
    exact ⟨hReports.named, hReports.rows⟩

theorem wrote_pull {workerId : String} {descriptorInstance : Option String} (h : Named r)
    (hAlone : EvictsNone paths r (summaryEntry summary (some workerId) none)) :
    Wrote r (writeRosterSummaryForResident paths r workerId descriptorInstance summary) := by
  obtain ⟨watermarks, hGate⟩ := acceptPull_watermarks r workerId
    ((textMember "workerInstanceId" summary).getD (descriptorInstance.getD ""))
    ((summary.get "rosterDeltaSequence").bind Json.asU64)
  unfold writeRosterSummaryForResident
  simp only
  split
  next refused hOut =>
    obtain rfl : refused = { r with deltaWatermarks := watermarks } := by rw [← hGate, hOut]
    exact ⟨named_watermarks h watermarks, rfl⟩
  next accepted hOut =>
    obtain rfl : accepted = { r with deltaWatermarks := watermarks } := by rw [← hGate, hOut]
    have hReports := reports_write (reports_start (named_watermarks h watermarks)) hAlone (List.not_mem_nil)
    exact ⟨hReports.named, hReports.rows⟩

theorem answer_rows (h : Named r) :
    KeyMap.ofPairs ((r.allEntries order).map fun entry => (entry.agentId, entry)) = r.rows := by
  have hKeys : (((r.allEntries order).map fun entry => (entry.agentId, entry)).map Prod.fst).Nodup := by
    rw [List.map_map]
    exact HashMap.nodup_map_values order fun a e hGet => h.agentId hGet
  ext1 a
  refine Option.ext fun e => ?_
  rw [KeyMap.get_ofPairs_of_nodup hKeys, List.mem_map]
  constructor
  · rintro ⟨e', hMem, hPair⟩
    obtain ⟨rfl, rfl⟩ := Prod.mk.inj hPair
    obtain ⟨a, hGet⟩ := (HashMap.mem_values order).mp hMem
    rw [h.agentId hGet]
    exact hGet
  · intro hGet
    exact ⟨e, (HashMap.mem_values order).mpr ⟨a, hGet⟩, by rw [h.agentId hGet]⟩

def Orderly (order : IterationOrder) (s : Supervisor) : Turn → Prop
  | .delta paths workerId _ _ summary _ => EvictsNone (paths 0) s.roster (summaryEntry summary (some workerId) none)
  | .pull paths workerId _ summary => EvictsNone paths s.roster (summaryEntry summary (some workerId) none)
  | .settle i _ family paths => ∀ p, s.passivations[i]? = some p →
      SettlesAlone p family paths 0 (settledRows order s.roster p) (Section.start s.roster)
  | .publish i => s.feed.InTurn i
  | .passivate .. | .note .. | .subscribe => True

def OrderlyAlong (order : IterationOrder) : Supervisor → List Turn → Prop
  | _, [] => True
  | s, turn :: turns => Orderly order s turn ∧ OrderlyAlong order (s.turn order turn) turns

structure Invariant (s : Supervisor) : Prop where
  named : Named s.roster
  tracks : Feed.Tracks s.roster.rows s.feed
  owned : ∀ p ∈ s.passivations, ∀ e ∈ p.owned, rosterAgentIdForSummary e.summary = e.agentId

theorem invariant_new : Invariant Supervisor.new := by
  constructor
  · refine ⟨⟨noKeys, based_new⟩, ?_⟩
    intro a e hGet
    cases hGet
  · exact Feed.tracks_start
  · intro p hMem
    cases hMem

theorem invariant_wrote {s : Supervisor} {out : AgentRoster × Option RosterUpdate} (h : Invariant s)
    (hWrote : Wrote s.roster out) : Invariant (s.wrote out) := by
  obtain ⟨r, update⟩ := out
  obtain ⟨hNamed, hRows⟩ := hWrote
  cases update with
  | none =>
    refine ⟨hNamed, ?_, h.owned⟩
    show Feed.Tracks r.rows s.feed
    rw [show r.rows = s.roster.rows from hRows]
    exact h.tracks
  | some update =>
    refine ⟨hNamed, ?_, h.owned⟩
    show Feed.Tracks r.rows (s.feed.note update)
    rw [show r.rows = update.apply s.roster.rows from hRows]
    exact Feed.tracks_note h.tracks update

theorem invariant_turn {s : Supervisor} (h : Invariant s) {turn : Turn} (hOrderly : Orderly order s turn) :
    Invariant (s.turn order turn) := by
  cases turn with
  | delta paths workerId instanceId sequence summary removed => exact invariant_wrote h (wrote_delta h.named hOrderly)
  | pull paths workerId descriptorInstance summary => exact invariant_wrote h (wrote_pull h.named hOrderly)
  | passivate workerId ephemeral =>
    refine ⟨named_watermarks h.named _, h.tracks, ?_⟩
    intro p hMem
    obtain hMem | hMem := List.mem_append.mp hMem
    · exact h.owned p hMem
    · obtain rfl := List.mem_singleton.mp hMem
      exact entriesForWorker_named h.named
  | settle i replacementLive family paths =>
    simp only [Supervisor.turn]
    cases hAt : s.passivations[i]? with
    | none => exact h
    | some p =>
      have hErased : Invariant { s with passivations := s.passivations.eraseIdx i } :=
        ⟨h.named, h.tracks, fun q hMem => h.owned q (List.mem_of_mem_eraseIdx hMem)⟩
      cases replacementLive with
      | true => exact hErased
      | false =>
        have hReports := reports_settle h.named (h.owned p (List.mem_of_getElem? hAt)) (hOrderly p hAt)
        have hWrote : Wrote s.roster ((settle order family paths s.roster p).roster,
            some (settle order family paths s.roster p).update) := ⟨hReports.named, hReports.rows⟩
        exact invariant_wrote hErased hWrote
  | note workerId instanceId =>
    obtain ⟨watermarks, hNote⟩ := note_watermarks s.roster workerId instanceId
    simp only [Supervisor.turn, hNote]
    exact ⟨named_watermarks h.named watermarks, h.tracks, h.owned⟩
  | publish i => exact ⟨h.named, Feed.tracks_publish h.tracks hOrderly, h.owned⟩
  | subscribe =>
    refine ⟨h.named, ?_, h.owned⟩
    show Feed.Tracks s.roster.rows (s.feed.subscribe _)
    rw [answer_rows h.named]
    exact Feed.tracks_subscribe h.tracks

theorem invariant_run {s : Supervisor} (h : Invariant s) {turns : List Turn} (hOrderly : OrderlyAlong order s turns) :
    Invariant (s.run order turns) := by
  induction turns generalizing s with
  | nil => exact h
  | cons turn turns ih =>
    obtain ⟨hFirst, hRest⟩ := hOrderly
    exact ih (invariant_turn h hFirst) hRest

def activitySummary (activity : String) : Json :=
  .object [("sessionId", .string "s1"), ("activeSessionId", .string "a1"), ("activity", .string activity)]

def activityDelta (sequence : Nat) (activity : String) : Turn :=
  .delta (fun _ => rawPaths) "w1" "i1" sequence (activitySummary activity) []

def orderlyTurns : List Turn :=
  [.subscribe, activityDelta 1 "working", activityDelta 2 "idle", .publish 0, .publish 0]

def overtakenTurns : List Turn :=
  [.subscribe, activityDelta 1 "working", activityDelta 2 "idle", .publish 1, .publish 0]

def evictingTurns : List Turn :=
  [.subscribe, .pull rawPaths "w1" none (agentSummary "s1" "sessionFile" "/tmp/s.jsonl"), .publish 0,
    .pull rawPaths "w2" none (agentSummary "s2" "sessionFile" "/tmp/s.jsonl"), .publish 0]

end PrimeAgent.Roster
