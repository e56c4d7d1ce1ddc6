import PrimeAgent.Journal.Worker

/-! # The last calls of the worker journal

What a worker journal is for: the verdict and the queue lanes each session was last called with, which the
live maps hold and every later open finds in the file.
-/
namespace PrimeAgent

structure Verdict where
  sessionId : String
  sessionFile : Option String
  busy : Bool
  operation : String
deriving DecidableEq

abbrev Lanes := List WorkerQueueItemRecord × List WorkerQueueItemRecord

@[ext] structure LastCalls where
  verdicts : KeyMap String Verdict
  lanes : KeyMap String Lanes

inductive WorkerOp where
  | record (activeSessionId : String) (verdict : Verdict)
  | recordQueueSnapshot (activeSessionId : String) (lanes : Lanes)
  | recordQueueCheckpoint (activeSessionId : String) (verdict : Verdict) (lanes : Lanes)
  | settleBusyRecords (operation : String)

def Verdict.settled (operation : String) (verdict : Verdict) : Verdict :=
  if verdict.busy then { verdict with busy := false, operation := operation } else verdict

def LastCalls.after (calls : LastCalls) : WorkerOp → LastCalls
  | .record activeSessionId verdict => { calls with verdicts := calls.verdicts.insert activeSessionId verdict }
  | .recordQueueSnapshot activeSessionId lanes => { calls with lanes := calls.lanes.insert activeSessionId lanes }
  | .recordQueueCheckpoint activeSessionId verdict lanes =>
    ⟨calls.verdicts.insert activeSessionId verdict, calls.lanes.insert activeSessionId lanes⟩
  | .settleBusyRecords operation =>
    { calls with verdicts := fun key => (calls.verdicts.get key).map (Verdict.settled operation) }

def WorkerRecoveryRecord.verdict (record : WorkerRecoveryRecord) : Verdict :=
  ⟨record.sessionId, record.sessionFile, record.busy, record.operation⟩

def WorkerQueueSnapshotRecord.lanes (record : WorkerQueueSnapshotRecord) : Lanes :=
  (record.steering, record.followUp)

def WorkerRecoveryJournal.calls (j : WorkerRecoveryJournal) : LastCalls where
  verdicts := HashMap.mapView WorkerRecoveryRecord.verdict j.latest
  lanes := HashMap.mapView WorkerQueueSnapshotRecord.lanes j.queueSnapshots

/-- The operation on a live journal and its file. Settling opens a journal of its own, the worker being gone. -/
def WorkerOp.run (text : JournalText) (envs : Nat → JournalEnv) (w : Journaled WorkerRecoveryJournal) :
    WorkerOp → Option (Outcome WorkerRecoveryJournal)
  | .record activeSessionId v =>
    some (w.journal.record (envs 0) activeSessionId v.sessionId v.sessionFile v.busy v.operation)
  | .recordQueueSnapshot activeSessionId lanes =>
    some (w.journal.recordQueueSnapshot (envs 0) activeSessionId lanes.1 lanes.2)
  | .recordQueueCheckpoint activeSessionId v lanes =>
    some (w.journal.recordQueueCheckpoint (envs 0).now (envs 1) activeSessionId v.sessionId v.sessionFile v.busy
      v.operation lanes.1 lanes.2)
  | .settleBusyRecords operation =>
    WorkerRecoveryJournal.settleBusyRecords text (envs 0).order envs w.file operation

def Verdict.Told (j : WorkerRecoveryJournal) (activeSessionId : String) (verdict : Verdict) : Prop :=
  ∀ previous, j.latest.lookup activeSessionId = some previous →
    j.verdictUnchanged activeSessionId verdict.sessionFile verdict.busy verdict.operation = true →
    previous.sessionId = verdict.sessionId

def Lanes.NoNullRow (lanes : Lanes) : Prop :=
  ∀ item ∈ lanes.1 ++ lanes.2, item.customMessage ≠ some .null

def WorkerOp.Faithful (j : WorkerRecoveryJournal) : WorkerOp → Prop
  | .record activeSessionId verdict => verdict.Told j activeSessionId
  | .recordQueueSnapshot _ lanes => Lanes.NoNullRow lanes
  | .recordQueueCheckpoint activeSessionId verdict lanes => verdict.Told j activeSessionId ∧ Lanes.NoNullRow lanes
  | .settleBusyRecords _ => True

def Outcome.Keeps {J : Type} (text : JournalText) (outcome : Outcome J) : Prop :=
  ∀ write ∈ outcome.writes, ∀ record ∈ write.records, text.Keeps record

def Outcome.world {J : Type} (text : JournalText) (outcome : Outcome J) (file : JournalFile) : Journaled J :=
  ⟨outcome.journal, runWrites text file outcome.writes⟩

namespace WorkerRecoveryJournal

variable {text : JournalText} {env : JournalEnv} {w : Journaled WorkerRecoveryJournal} {j : WorkerRecoveryJournal}
  {activeSessionId sessionId operation : String} {sessionFile : Option String} {busy : Bool}
  {steering followUp : List WorkerQueueItemRecord} {snapshotNow : String}

theorem verdictUnchanged_iff : j.verdictUnchanged activeSessionId sessionFile busy operation = true ↔
    ∃ previous, j.latest.lookup activeSessionId = some previous ∧ previous.busy = busy ∧
      previous.operation = operation ∧ previous.sessionFile = sessionFile := by
  rw [verdictUnchanged]
  cases j.latest.lookup activeSessionId with
  | none => simp
  | some previous => simp [and_assoc]

theorem verdictUnchanged_lanes (lanes : HashMap String WorkerQueueSnapshotRecord) :
    verdictUnchanged ⟨j.latest, lanes⟩ activeSessionId sessionFile busy operation
      = j.verdictUnchanged activeSessionId sessionFile busy operation := rfl

theorem record_sound (hSound : Sound text w)
    (hKeeps : (w.journal.record env activeSessionId sessionId sessionFile busy operation).Keeps text) :
    Sound text ((w.journal.record env activeSessionId sessionId sessionFile busy operation).world text w.file) := by
  unfold record at hKeeps ⊢
  by_cases hSame : w.journal.verdictUnchanged activeSessionId sessionFile busy operation = true
  · rw [if_pos hSame]
    exact hSound
  · simp only [if_neg hSame] at hKeeps ⊢
    generalize hRecord : (⟨activeSessionId, sessionId, sessionFile, busy, operation, env.now⟩ : WorkerRecoveryRecord)
      = record at hKeeps ⊢
    obtain rfl : record.activeSessionId = activeSessionId := hRecord ▸ rfl
    have hFormed : WellFormed { w.journal with
        latest := w.journal.latest.insert record.activeSessionId record } :=
      ⟨latest_insert hSound.wellFormed.latest record, hSound.wellFormed.snapshots⟩
    split_ifs at hKeeps ⊢ with hIdle
    · exact @compact_sound text w.file env _ hFormed (hKeeps _ (List.mem_cons_of_mem _ List.mem_cons_self))
    · exact hSound.append (hKeeps _ List.mem_cons_self) hFormed (latestRecord_toValue w.journal.latest record).symm
        (snapshotRecord_workerRecord w.journal.queueSnapshots record).symm

theorem current_lossless {steering followUp : List WorkerQueueItemRecord} (h : Lanes.NoNullRow (steering, followUp))
    (now : String) : (WorkerQueueSnapshotRecord.current activeSessionId steering followUp now).Lossless :=
  ⟨rfl, h⟩

theorem snapshotRecord_lossless (latest : HashMap String WorkerQueueSnapshotRecord)
    {record : WorkerQueueSnapshotRecord} (h : record.Lossless) :
    snapshotRecord latest record.toValue = latest.insert record.activeSessionId record := by
  rw [snapshotRecord, h.ofValue]

theorem recordQueueSnapshot_sound (hSound : Sound text w) (hRows : Lanes.NoNullRow (steering, followUp))
    (hKeeps : (w.journal.recordQueueSnapshot env activeSessionId steering followUp).Keeps text) :
    Sound text ((w.journal.recordQueueSnapshot env activeSessionId steering followUp).world text w.file) := by
  have hLossless := @current_lossless activeSessionId _ _ hRows env.now
  exact hSound.append (hKeeps _ List.mem_cons_self)
    ⟨hSound.wellFormed.latest, snapshots_insert hSound.wellFormed.snapshots hLossless⟩
    (latestRecord_snapshot w.journal.latest (.current activeSessionId steering followUp env.now)).symm
    (snapshotRecord_lossless w.journal.queueSnapshots hLossless).symm

theorem append_append (first second : Json) (file : JournalFile) :
    (Write.append [second]).run text ((Write.append [first]).run text file)
      = (Write.append [first, second]).run text file := by
  simp only [Write.run, recordLines, List.map_cons, List.map_nil, LineLog.block_cons, LineLog.block_nil,
    Option.getD_some, List.append_assoc, utf8, ← Utf8.encode_append, List.cons_append, List.nil_append]

theorem recordQueueCheckpoint_eq (snapshotNow : String) (env : JournalEnv) (j : WorkerRecoveryJournal)
    (activeSessionId sessionId : String) (sessionFile : Option String) (busy : Bool) (operation : String)
    (steering followUp : List WorkerQueueItemRecord) (text : JournalText) (file : JournalFile) :
    let snapshot := j.recordQueueSnapshot ⟨snapshotNow, env.order⟩ activeSessionId steering followUp
    let verdict := snapshot.journal.record env activeSessionId sessionId sessionFile busy operation
    (j.recordQueueCheckpoint snapshotNow env activeSessionId sessionId sessionFile busy operation steering followUp).world
        text file
      = verdict.world text (snapshot.world text file).file := by
  dsimp only [recordQueueCheckpoint, record, recordQueueSnapshot]
  rw [verdictUnchanged_lanes (j.queueSnapshots.insert activeSessionId _)]
  by_cases hUnchanged : j.verdictUnchanged activeSessionId sessionFile busy operation = true
  · rw [if_pos hUnchanged, if_pos hUnchanged]
    rfl
  · rw [if_neg hUnchanged, if_neg hUnchanged]
    split_ifs with hIdle
    · rfl
    · simp only [Outcome.world, runWrites, List.foldl_cons, List.foldl_nil, append_append]

theorem recordQueueCheckpoint_keeps
    (hKeeps : (j.recordQueueCheckpoint snapshotNow env activeSessionId sessionId sessionFile busy operation steering
      followUp).Keeps text) :
    (j.recordQueueSnapshot ⟨snapshotNow, env.order⟩ activeSessionId steering followUp).Keeps text ∧
      ((j.recordQueueSnapshot ⟨snapshotNow, env.order⟩ activeSessionId steering followUp).journal.record env
        activeSessionId sessionId sessionFile busy operation).Keeps text := by
  dsimp only [recordQueueCheckpoint, record, recordQueueSnapshot] at hKeeps ⊢
  rw [verdictUnchanged_lanes (j.queueSnapshots.insert activeSessionId _)]
  by_cases hUnchanged : j.verdictUnchanged activeSessionId sessionFile busy operation = true
  · rw [if_pos hUnchanged] at hKeeps ⊢
    exact ⟨hKeeps, by rintro write ⟨⟩⟩
  · rw [if_neg hUnchanged] at hKeeps ⊢
    split_ifs at hKeeps ⊢ with hIdle
    · simp only [Outcome.Keeps, Write.records, List.forall_mem_cons, List.not_mem_nil, false_imp_iff, implies_true,
        and_true] at hKeeps ⊢
      obtain ⟨⟨hSnapshot, hRecord⟩, hCompact⟩ := hKeeps
      exact ⟨hSnapshot, hRecord, hCompact⟩
    · simpa only [Outcome.Keeps, Write.records, List.forall_mem_cons, List.not_mem_nil, false_imp_iff, implies_true,
        and_true] using hKeeps

theorem recordQueueCheckpoint_sound (hSound : Sound text w) (hRows : Lanes.NoNullRow (steering, followUp))
    (hKeeps : (w.journal.recordQueueCheckpoint snapshotNow env activeSessionId sessionId sessionFile busy operation
      steering followUp).Keeps text) :
    Sound text ((w.journal.recordQueueCheckpoint snapshotNow env activeSessionId sessionId sessionFile busy operation
      steering followUp).world text w.file) := by
  obtain ⟨hSnapshot, hVerdict⟩ := recordQueueCheckpoint_keeps hKeeps
  have hEq := recordQueueCheckpoint_eq snapshotNow env w.journal activeSessionId sessionId sessionFile busy operation
    steering followUp text w.file
  dsimp only at hEq
  rw [hEq]
  exact record_sound (recordQueueSnapshot_sound hSound hRows hSnapshot) hVerdict

section Calls

theorem calls_latest_insert (j : WorkerRecoveryJournal) (record : WorkerRecoveryRecord) :
    calls ⟨j.latest.insert record.activeSessionId record, j.queueSnapshots⟩
      = j.calls.after (.record record.activeSessionId record.verdict) :=
  LastCalls.ext (HashMap.mapView_insert WorkerRecoveryRecord.verdict j.latest record.activeSessionId record) rfl

theorem record_calls (h : Verdict.Told j activeSessionId ⟨sessionId, sessionFile, busy, operation⟩) :
    (j.record env activeSessionId sessionId sessionFile busy operation).journal.calls
      = j.calls.after (.record activeSessionId ⟨sessionId, sessionFile, busy, operation⟩) := by
  unfold record
  by_cases hSame : j.verdictUnchanged activeSessionId sessionFile busy operation = true
  · rw [if_pos hSame]
    obtain ⟨previous, hPrevious, rfl, rfl, rfl⟩ := verdictUnchanged_iff.mp hSame
    obtain rfl := h previous hPrevious hSame
    refine LastCalls.ext ?_ rfl
    ext1 key
    rw [LastCalls.after, KeyMap.get_insert]
    by_cases hKey : key = activeSessionId
    · rw [if_pos hKey, hKey]
      exact congrArg (Option.map WorkerRecoveryRecord.verdict) hPrevious
    · rw [if_neg hKey]
  · rw [if_neg hSame]
    have hCalls := calls_latest_insert j ⟨activeSessionId, sessionId, sessionFile, busy, operation, env.now⟩
    dsimp only
    split_ifs <;> exact hCalls

theorem recordQueueSnapshot_calls (env : JournalEnv) (j : WorkerRecoveryJournal) (activeSessionId : String)
    (lanes : Lanes) : (j.recordQueueSnapshot env activeSessionId lanes.1 lanes.2).journal.calls
      = j.calls.after (.recordQueueSnapshot activeSessionId lanes) :=
  LastCalls.ext rfl (HashMap.mapView_insert WorkerQueueSnapshotRecord.lanes j.queueSnapshots activeSessionId
    (.current activeSessionId lanes.1 lanes.2 env.now))

theorem recordQueueCheckpoint_calls (snapshotNow : String) {lanes : Lanes}
    (h : Verdict.Told j activeSessionId ⟨sessionId, sessionFile, busy, operation⟩) :
    (j.recordQueueCheckpoint snapshotNow env activeSessionId sessionId sessionFile busy operation lanes.1
      lanes.2).journal.calls
      = j.calls.after (.recordQueueCheckpoint activeSessionId ⟨sessionId, sessionFile, busy, operation⟩ lanes) := by
  have hEq := congrArg Journaled.journal (recordQueueCheckpoint_eq snapshotNow env j activeSessionId sessionId
    sessionFile busy operation lanes.1 lanes.2 ⟨fun _ => [], fun _ => none, fun _ => none⟩ none)
  have hVerdict : Verdict.Told (j.recordQueueSnapshot ⟨snapshotNow, env.order⟩ activeSessionId lanes.1 lanes.2).journal
      activeSessionId ⟨sessionId, sessionFile, busy, operation⟩ := h
  refine (congrArg calls hEq).trans ?_
  refine (record_calls hVerdict).trans ?_
  rw [recordQueueSnapshot_calls]
  rfl

theorem record_latest_ne {key : String} (hKey : key ≠ activeSessionId) :
    (j.record env activeSessionId sessionId sessionFile busy operation).journal.latest.lookup key
      = j.latest.lookup key := by
  unfold record
  by_cases hSame : j.verdictUnchanged activeSessionId sessionFile busy operation = true
  · rw [if_pos hSame]
  · rw [if_neg hSame]
    dsimp only
    split_ifs <;> exact AList.lookup_insert_ne hKey

end Calls

section Settle

theorem settled_told {record : WorkerRecoveryRecord} (hBusy : record.busy = true)
    (hLookup : j.latest.lookup record.activeSessionId = some record) (operation : String) :
    Verdict.Told j record.activeSessionId ⟨record.sessionId, record.sessionFile, false, operation⟩ := by
  rintro previous hPrevious hSame
  obtain ⟨previous', hPrevious', hIdle, -⟩ := verdictUnchanged_iff.mp hSame
  rw [hLookup] at hPrevious'
  rw [← Option.some.inj hPrevious', hBusy] at hIdle
  cases hIdle

theorem settle_sound {records : List WorkerRecoveryRecord} {envs : Nat → JournalEnv} (hSound : Sound text w)
    (hKeeps : (settle operation envs w.journal records).Keeps text) :
    Sound text ((settle operation envs w.journal records).world text w.file) := by
  induction records generalizing envs w with
  | nil => exact hSound
  | cons record records ih =>
    have hFirst := record_sound hSound fun write hWrite => hKeeps write (List.mem_append_left _ hWrite)
    have hRest := ih hFirst fun write hWrite => hKeeps write (List.mem_append_right _ hWrite)
    simp only [Outcome.world, runWrites] at hRest
    simp only [Outcome.world, settle, runWrites, List.foldl_append]
    exact hRest

theorem settle_calls {records : List WorkerRecoveryRecord} (envs : Nat → JournalEnv)
    (hRecords : ∀ record ∈ records, j.latest.lookup record.activeSessionId = some record ∧ record.busy = true)
    (hNodup : (records.map (·.activeSessionId)).Nodup) :
    (settle operation envs j records).journal.calls.lanes = j.calls.lanes ∧
      ∀ key, (settle operation envs j records).journal.calls.verdicts.get key
        = if key ∈ records.map (·.activeSessionId) then (j.calls.verdicts.get key).map (Verdict.settled operation)
          else j.calls.verdicts.get key := by
  induction records generalizing envs j with
  | nil => exact ⟨rfl, fun _ => rfl⟩
  | cons record records ih =>
    obtain ⟨hLookup, hBusy⟩ := hRecords record List.mem_cons_self
    obtain ⟨hNew, hNodup'⟩ := List.nodup_cons.mp hNodup
    have hFirst := @record_calls (envs 0) j _ _ _ _ _ (settled_told hBusy hLookup operation)
    have hRest : ∀ next ∈ records, (j.record (envs 0) record.activeSessionId record.sessionId record.sessionFile false
        operation).journal.latest.lookup next.activeSessionId = some next ∧ next.busy = true := by
      rintro next hNext
      obtain ⟨hLookup', hBusy'⟩ := hRecords next (List.mem_cons_of_mem record hNext)
      refine ⟨?_, hBusy'⟩
      rw [record_latest_ne, hLookup']
      exact fun hSame => hNew (List.mem_map.mpr ⟨next, hNext, hSame⟩)
    obtain ⟨hLanes, hVerdicts⟩ := ih (fun n => envs (n + 1)) hRest hNodup'
    rw [settle]
    dsimp only
    refine ⟨hLanes.trans ?_, fun key => ?_⟩
    · rw [hFirst]
      rfl
    · rw [hVerdicts key, hFirst, LastCalls.after, KeyMap.get_insert]
      by_cases hKey : key = record.activeSessionId
      · subst hKey
        rw [if_neg hNew, if_pos rfl, List.map_cons, if_pos List.mem_cons_self]
        have hVerdict : j.calls.verdicts.get record.activeSessionId = some record.verdict :=
          congrArg (Option.map WorkerRecoveryRecord.verdict) hLookup
        rw [hVerdict, Option.map_some, Verdict.settled, WorkerRecoveryRecord.verdict, if_pos hBusy]
      · rw [if_neg hKey]
        simp only [List.map_cons, List.mem_cons, hKey, false_or]

theorem busy_records (hFormed : j.WellFormed) (order : IterationOrder) :
    (∀ record ∈ (HashMap.values order j.latest).filter (·.busy),
        j.latest.lookup record.activeSessionId = some record ∧ record.busy = true) ∧
      (((HashMap.values order j.latest).filter (·.busy)).map (·.activeSessionId)).Nodup := by
  constructor
  · rintro record hRecord
    obtain ⟨hValue, hBusy⟩ := List.mem_filter.mp hRecord
    obtain ⟨key, hLookup⟩ := (HashMap.mem_values order).mp hValue
    exact ⟨hFormed.latest key record hLookup ▸ hLookup, hBusy⟩
  · have hAll : ((HashMap.values order j.latest).map (·.activeSessionId)).Nodup :=
      HashMap.nodup_map_values order hFormed.latest
    exact hAll.sublist (List.filter_sublist.map _)

theorem settleBusyRecords_calls (hFormed : j.WellFormed) (order : IterationOrder) (envs : Nat → JournalEnv) :
    (settle operation envs j ((HashMap.values order j.latest).filter (·.busy))).journal.calls
      = j.calls.after (.settleBusyRecords operation) := by
  obtain ⟨hRecords, hNodup⟩ := busy_records hFormed order
  obtain ⟨hLanes, hVerdicts⟩ := @settle_calls j operation _ envs hRecords hNodup
  refine LastCalls.ext ?_ hLanes
  ext1 key
  rw [hVerdicts key]
  change _ = (j.calls.verdicts.get key).map (Verdict.settled operation)
  split_ifs with hBusy
  · rfl
  · cases hLookup : j.latest.lookup key with
    | none =>
      have hNone : j.calls.verdicts.get key = none := congrArg (Option.map WorkerRecoveryRecord.verdict) hLookup
      rw [hNone]
      rfl
    | some record =>
      have hVerdict : j.calls.verdicts.get key = some record.verdict :=
        congrArg (Option.map WorkerRecoveryRecord.verdict) hLookup
      have hIdle : record.busy ≠ true := by
        intro hTrue
        refine hBusy (List.mem_map.mpr ⟨record, List.mem_filter.mpr ⟨?_, hTrue⟩, hFormed.latest key record hLookup⟩)
        exact (HashMap.mem_values order).mpr ⟨key, hLookup⟩
      rw [hVerdict, Option.map_some, Verdict.settled, WorkerRecoveryRecord.verdict, if_neg hIdle]

end Settle

end WorkerRecoveryJournal

/-- Calls on a worker journal, opened on a file of whole lines and reopened at will, and what each session was
last called with. -/
inductive WorkerRun (text : JournalText) (allowed : WorkerRecoveryJournal → WorkerOp → Prop) :
    Journaled WorkerRecoveryJournal → LastCalls → Prop
  | opened (file : JournalFile) (j : WorkerRecoveryJournal) (hIntact : file.Intact)
      (hOpen : WorkerRecoveryJournal.openJournal text file = some j) : WorkerRun text allowed ⟨j, file⟩ j.calls
  | step {w : Journaled WorkerRecoveryJournal} {calls : LastCalls} (envs : Nat → JournalEnv) (op : WorkerOp)
      (outcome : Outcome WorkerRecoveryJournal) (hRun : WorkerRun text allowed w calls) (hAllowed : allowed w.journal op)
      (hOp : op.run text envs w = some outcome) (hKeeps : outcome.Keeps text) :
      WorkerRun text allowed (outcome.world text w.file) (calls.after op)
  | reopened {w : Journaled WorkerRecoveryJournal} {calls : LastCalls} (j : WorkerRecoveryJournal)
      (hRun : WorkerRun text allowed w calls) (hOpen : WorkerRecoveryJournal.openJournal text w.file = some j) :
      WorkerRun text allowed ⟨j, w.file⟩ calls

def QueuedItem.durable (item : QueuedItem) : QueuedItem :=
  { item with agentMessage := none, admissionId := none, images := [], forcedBatch := false }

theorem QueuedItem.restored_journalRecord (item : QueuedItem) : restored item.journalRecord = item.durable := by
  have hPolicy : item.journalRecord.turnPolicy = item.policy := by
    rw [journalRecord, WorkerQueueItemRecord.turnPolicy]
    cases item.policy <;> simp [TurnPolicy.journalValue]
  rw [restored, hPolicy]
  rfl

section Runs

open WorkerRecoveryJournal

variable {text : JournalText} {w : Journaled WorkerRecoveryJournal} {calls : LastCalls}

theorem WorkerRecoveryJournal.Sound.reopened_calls {reopened : WorkerRecoveryJournal} (hSound : Sound text w)
    (hOpen : openJournal text w.file = some reopened) : reopened.calls = w.journal.calls := by
  obtain ⟨-, -, reopened', hOpen', hLatest, hSnapshots⟩ := hSound
  rw [hOpen] at hOpen'
  obtain rfl := Option.some.inj hOpen'
  exact LastCalls.ext (HashMap.mapView_congr _ hLatest) (HashMap.mapView_congr _ hSnapshots)

theorem WorkerRecoveryJournal.Sound.reopened {reopened : WorkerRecoveryJournal} (hSound : Sound text w)
    (hOpen : openJournal text w.file = some reopened) : Sound text ⟨reopened, w.file⟩ :=
  ⟨hSound.intact, openJournal_wellFormed hOpen, reopened, hOpen, rfl, rfl⟩

theorem workerOp_sound {op : WorkerOp} {envs : Nat → JournalEnv} {outcome : Outcome WorkerRecoveryJournal}
    (hSound : Sound text w) (hFaithful : op.Faithful w.journal) (hOp : op.run text envs w = some outcome)
    (hKeeps : outcome.Keeps text) :
    Sound text (outcome.world text w.file) ∧ outcome.journal.calls = w.journal.calls.after op := by
  cases op with
  | record activeSessionId verdict =>
    obtain rfl := Option.some.inj hOp
    exact ⟨record_sound hSound hKeeps, record_calls hFaithful⟩
  | recordQueueSnapshot activeSessionId lanes =>
    obtain rfl := Option.some.inj hOp
    exact ⟨recordQueueSnapshot_sound hSound hFaithful hKeeps, recordQueueSnapshot_calls _ _ activeSessionId lanes⟩
  | recordQueueCheckpoint activeSessionId verdict lanes =>
    obtain rfl := Option.some.inj hOp
    exact ⟨recordQueueCheckpoint_sound hSound hFaithful.2 hKeeps, recordQueueCheckpoint_calls _ hFaithful.1⟩
  | settleBusyRecords operation =>
    obtain ⟨reopened, hOpen, rfl⟩ := Option.map_eq_some_iff.mp hOp
    refine ⟨settle_sound (hSound.reopened hOpen) hKeeps, ?_⟩
    rw [settleBusyRecords_calls (openJournal_wellFormed hOpen), hSound.reopened_calls hOpen]

theorem workerRun_invariant (hRun : WorkerRun text (fun j op => op.Faithful j) w calls) :
    Sound text w ∧ w.journal.calls = calls := by
  induction hRun with
  | opened file j hIntact hOpen =>
    exact ⟨⟨hIntact, openJournal_wellFormed hOpen, j, hOpen, rfl, rfl⟩, rfl⟩
  | step envs op outcome _ hAllowed hOp hKeeps ih =>
    obtain ⟨hSound, rfl⟩ := ih
    exact workerOp_sound hSound hAllowed hOp hKeeps
  | reopened j _ hOpen ih =>
    obtain ⟨hSound, rfl⟩ := ih
    exact ⟨hSound.reopened hOpen, hSound.reopened_calls hOpen⟩

/-- The file replays to the live maps, which hold each session's last calls; its lanes read back, the queue rows
they were taken of are restored, and a batched checkpoint is its two calls. -/
theorem workerRun_replays (hRun : WorkerRun text (fun j op => op.Faithful j) w calls) :
    Replays text w ∧ w.journal.calls = calls ∧
      (∀ activeSessionId, readQueueSnapshot text w.file activeSessionId = some (calls.lanes.get activeSessionId)) ∧
      (∀ activeSessionId steering followUp reopened, openJournal text w.file = some reopened →
        calls.lanes.get activeSessionId = some (queueLanes steering followUp) →
        restoreQueueSnapshot reopened activeSessionId
          = (steering.map QueuedItem.durable, followUp.map QueuedItem.durable)) ∧
      ∀ snapshotNow env activeSessionId sessionId sessionFile busy operation steering followUp,
        let snapshot := w.journal.recordQueueSnapshot ⟨snapshotNow, env.order⟩ activeSessionId steering followUp
        let verdict := snapshot.journal.record env activeSessionId sessionId sessionFile busy operation
        (w.journal.recordQueueCheckpoint snapshotNow env activeSessionId sessionId sessionFile busy operation steering
            followUp).world text w.file
          = verdict.world text (snapshot.world text w.file).file := by
  obtain ⟨hSound, rfl⟩ := workerRun_invariant hRun
  refine ⟨hSound.replays, rfl, ?_, ?_, ?_⟩
  · intro activeSessionId
    have hOpen := @openJournal_eq text w.file hSound.intact
    have hCalls := congrArg LastCalls.lanes (hSound.reopened_calls hOpen)
    rw [readQueueSnapshot, parseQueueSnapshotRecords_eq hSound.intact, Option.map_some]
    exact congrArg some (congrFun hCalls activeSessionId)
  · intro activeSessionId steering followUp reopened hOpen hLanes
    have hCalls := congrArg LastCalls.lanes (hSound.reopened_calls hOpen)
    have hLatest : reopened.latestQueueSnapshot activeSessionId = some (queueLanes steering followUp) :=
      (congrFun hCalls activeSessionId).trans hLanes
    rw [restoreQueueSnapshot, hLatest]
    simp only [queueLanes, List.map_map]
    rw [show QueuedItem.restored ∘ QueuedItem.journalRecord = QueuedItem.durable from
      funext QueuedItem.restored_journalRecord]
  · intro snapshotNow env activeSessionId sessionId sessionFile busy operation steering followUp
    exact recordQueueCheckpoint_eq snapshotNow env w.journal activeSessionId sessionId sessionFile busy operation
      steering followUp text w.file

end Runs

/-- A busy record of the session `a`. -/
def busyRow : Json × String :=
  (WorkerRecoveryRecord.toValue ⟨"a", "s", none, true, "prompt", "2024-01-01T00:00:00.000Z"⟩,
    "\x7b\"activeSessionId\":\"a\",\"sessionId\":\"s\",\"busy\":true,\"operation\":\"prompt\",\"recordedAt\":\"2024-01-01T00:00:00.000Z\"\x7d")

set_option maxRecDepth 4000 in
theorem busyRow_keeps : (tableText [busyRow]).Keeps busyRow.1 :=
  tableText_keeps (by simp) (by simp) List.mem_cons_self (isObjectLine_ofList (by decide +kernel))

def busyJournal : WorkerRecoveryJournal :=
  ⟨(∅ : HashMap String WorkerRecoveryRecord).insert "a" ⟨"a", "s", none, true, "prompt", "2024-01-01T00:00:00.000Z"⟩, ∅⟩

theorem busyJournal_run (allowed : WorkerRecoveryJournal → WorkerOp → Prop)
    (hAllowed : allowed ⟨∅, ∅⟩ (.record "a" ⟨"s", none, true, "prompt"⟩)) :
    ∃ file calls, WorkerRun (tableText [busyRow]) allowed ⟨busyJournal, file⟩ calls ∧
      calls.verdicts.get "a" = some ⟨"s", none, true, "prompt"⟩ := by
  refine ⟨_, _, .step (fun _ => sampleJournalEnv) _ ⟨busyJournal, [.append [busyRow.1]]⟩
    (.opened none ⟨∅, ∅⟩ JournalFile.intact_missing rfl) hAllowed rfl ?_, ?_⟩
  · rintro write hWrite record hRecord
    rw [List.mem_singleton.mp hWrite] at hRecord
    rw [List.mem_singleton.mp hRecord]
    exact busyRow_keeps
  · exact KeyMap.get_insert_self _ _ _

theorem busyJournal_stale : ∃ w calls, WorkerRun (tableText [busyRow]) (fun _ _ => True) w calls ∧
    (calls.verdicts.get "a").map (·.sessionId) = some "t" ∧
    (w.journal.latest.lookup "a").map (·.sessionId) = some "s" := by
  obtain ⟨file, calls, hRun, -⟩ := busyJournal_run (fun _ _ => True) trivial
  refine ⟨⟨busyJournal, file⟩, _, .step (fun _ => sampleJournalEnv) (.record "a" ⟨"t", none, true, "prompt"⟩)
    ⟨busyJournal, []⟩ hRun trivial ?_ ?_, ?_, ?_⟩
  · have hSame : busyJournal.verdictUnchanged "a" none true "prompt" = true := by decide
    simp only [WorkerOp.run, WorkerRecoveryJournal.record, hSame, if_true]
  · rintro write ⟨⟩
  · rw [LastCalls.after, KeyMap.get_insert_self]
    rfl
  · rfl

theorem busyJournal_replays : ∃ file calls, WorkerRecoveryJournal.Replays (tableText [busyRow]) ⟨busyJournal, file⟩ ∧
    busyJournal.calls = calls ∧ calls.verdicts.get "a" = some ⟨"s", none, true, "prompt"⟩ := by
  obtain ⟨file, calls, hRun, hVerdict⟩ := busyJournal_run (fun j op => op.Faithful j) (by rintro previous ⟨⟩)
  obtain ⟨hReplays, hCalls, -⟩ := workerRun_replays hRun
  exact ⟨file, calls, hReplays, hCalls, hVerdict⟩

end PrimeAgent
