import PrimeAgent.Journal.Crash

/-! # Recovery of the two journals

Both journals are journals in the sense of the crash model, so what it says of crashes holds of them.
-/
namespace PrimeAgent

def commandKind : JournalKind CommandRecoveryJournal CommandOp where
  openFile text file := some (.load text file)
  run text envs w op := some (op.run text (envs 0) w.journal)
  Idle text j
    | .begin clientId commandId _ => (j.lookup text clientId commandId).isSome = true
    | .recordResult clientId commandId _ => j.lookup text clientId commandId = none
    | .acknowledge clientId commandId => j.lookup text clientId commandId = none
  Compacts text j
    | .begin _ _ _ => False
    | .recordResult clientId commandId _ =>
      (j.lookup text clientId commandId).isSome = true ∧ compactAfterRecords ≤ j.recordCount + 1
    | .acknowledge clientId commandId =>
      (j.lookup text clientId commandId).isSome = true ∧
        (HashMap.isEmpty (j.entries.erase (CommandRecoveryJournal.key text clientId commandId)) = true ∨
          compactAfterRecords ≤ j.recordCount)
  replay := CommandRecoveryJournal.loadRecord
  same j j' := HashMap.view j.entries = HashMap.view j'.entries

section Command

variable {text : JournalText} {j : CommandRecoveryJournal} {file : JournalFile}

theorem compactRecords_read {env : JournalEnv} {rest : CommandRecoveryJournal} (hFormed : rest.WellFormed)
    (hNone : ¬ ∃ key entry, rest.entries.lookup key = some entry ∧ entry.status = "complete")
    (hKeeps : ∀ record ∈ (HashMap.walk env.order rest.entries).map CommandRecoveryJournal.compactedRecord,
      text.Keeps record) (file : JournalFile) :
    HashMap.view (CommandRecoveryJournal.load text (runWrites text file (rest.compact env).writes)).entries
      = HashMap.view rest.entries := by
  ext1 key
  refine (CommandRecoveryJournal.lookup_load_compact env rest ?_ key).trans ?_
  · rintro write hWrite
    rw [List.mem_singleton.mp hWrite]
    exact hKeeps
  · change _ = rest.entries.lookup key
    cases hEntry : rest.entries.lookup key with
    | none => rfl
    | some entry =>
      rcases hFormed key entry hEntry with rfl | hComplete
      · rfl
      · exact absurd ⟨key, entry, hEntry, hComplete⟩ hNone

theorem command_effect (hFormed : j.WellFormed) (env : JournalEnv) {op : CommandOp} (hKept : ¬ op.Forgets text j) :
    commandKind.Effect text j (op.run text env j) := by
  have hEffect := op.run_effect text env j
  generalize op.run text env j = outcome at hEffect
  cases hEffect with
  | idle => exact .idle
  | logged record rest hRest => exact .logged [record] rest (congrArg HashMap.view hRest)
  | compacted record rest hRest hForgets =>
    refine .compacted [record] _ (rest.compact env).journal (congrArg HashMap.view hRest) ?_
    intro hKeeps file
    have hFormed' : rest.WellFormed := by
      rw [CommandRecoveryJournal.WellFormed, hRest]
      exact hFormed.loadRecord record
    exact ⟨_, rfl, compactRecords_read hFormed' (fun h => hKept (hForgets.mpr h)) hKeeps file⟩

theorem command_wellFormed
    (hSame : HashMap.view (CommandRecoveryJournal.load text file).entries = HashMap.view j.entries) : j.WellFormed := by
  intro key entry hEntry
  exact CommandRecoveryJournal.load_wellFormed text file key entry ((congrFun hSame key).trans hEntry)

theorem command_openTail {record : Json} {tail : Text} (hIntact : file.Intact) (hKeeps : text.Keeps record)
    (hTears : text.Tears record) (hPrefix : tail <+: text.toString record) (hTail : tail ≠ []) :
    CommandRecoveryJournal.load text (some (file.getD [] ++ utf8 tail)) = .load text file ∨
      CommandRecoveryJournal.load text (some (file.getD [] ++ utf8 tail))
        = (.load text file : CommandRecoveryJournal).loadRecord record := by
  have hLine : '\n' ∉ tail := fun h => hKeeps.oneLine (hPrefix.subset h)
  rw [CommandRecoveryJournal.load_eq text (some _), readLines_tail hIntact hLine, if_neg hTail, List.foldl_append,
    ← CommandRecoveryJournal.load_eq, List.foldl_cons, List.foldl_nil]
  by_cases hWhole : tail = text.toString record
  · right
    rw [hWhole, CommandRecoveryJournal.loadLine_record hKeeps]
  · left
    rw [CommandRecoveryJournal.loadLine, hTears.value tail hPrefix hWhole]
    exact ite_self _

theorem commandKind_lawful (text : JournalText) :
    commandKind.Lawful text (fun j op => ¬ op.Forgets text j) where
  refl _ := rfl
  symm h := h.symm
  trans h h' := h.trans h'
  replay h record := CommandRecoveryJournal.loadRecord_congr h record
  openAppend {file records j} hIntact hKeeps hOpen := by
    obtain rfl := Option.some.inj hOpen
    exact ⟨_, rfl, by rw [CommandRecoveryJournal.load_append hIntact hKeeps]; rfl⟩
  openTail {file record tail j} hIntact hKeeps hTears hPrefix hTail hOpen := by
    obtain rfl := Option.some.inj hOpen
    refine ⟨_, rfl, ?_⟩
    rcases command_openTail hIntact hKeeps hTears hPrefix hTail with hSkipped | hRead
    · exact Or.inl (congrArg (fun j : CommandRecoveryJournal => HashMap.view j.entries) hSkipped)
    · exact Or.inr (congrArg (fun j : CommandRecoveryJournal => HashMap.view j.entries) hRead)
  chain {envs file j op outcome reopened} hOp hOpen hSame hKept := by
    obtain rfl := Option.some.inj hOp
    obtain rfl := Option.some.inj hOpen
    exact ⟨j, rfl, (command_effect (command_wellFormed hSame) (envs 0) hKept).chain⟩
  before {envs file j op outcome reopened before records after} hOp hOpen hSame hWrites := by
    obtain rfl := Option.some.inj hOp
    have hEffect := op.run_effect text (envs 0) j
    generalize op.run text (envs 0) j = outcome at hEffect hWrites
    have hNil : before = [] := by
      cases hEffect with
      | idle =>
        have hLength := congrArg List.length hWrites
        simp at hLength
      | logged record rest =>
        rcases before with _ | ⟨write, before⟩
        · rfl
        · have hLength := congrArg List.length hWrites
          simp at hLength
      | compacted record rest =>
        rcases before with _ | ⟨write, _ | ⟨write', before⟩⟩
        · rfl
        · obtain ⟨-, hRest⟩ := List.cons.inj hWrites
          cases (List.cons.inj hRest).1
        · have hLength := congrArg List.length hWrites
          simp [CommandRecoveryJournal.compact] at hLength
    rw [hNil]
    exact ⟨j, j, rfl, .done j⟩
  idle {envs file j op outcome} hOp hIdle := by
    obtain rfl := Option.some.inj hOp
    cases op with
    | begin clientId commandId commandType =>
      obtain ⟨entry, hEntry⟩ := Option.isSome_iff_exists.mp hIdle
      simp only [CommandOp.run, CommandRecoveryJournal.begin, hEntry]
    | recordResult clientId commandId response =>
      rw [CommandOp.run_recordResult_unknown response hIdle]
    | acknowledge clientId commandId =>
      rw [CommandOp.run_acknowledge_unknown hIdle]
  compacts {envs file j op outcome reopened} hOp _ _ hCompacts := by
    obtain rfl := Option.some.inj hOp
    right
    cases op with
    | begin => cases hCompacts
    | recordResult clientId commandId response =>
      rw [CommandOp.run_recordResult response hCompacts.1]
      simp only [if_pos hCompacts.2]
      exact ⟨_, rfl⟩
    | acknowledge clientId commandId =>
      rw [CommandOp.run_acknowledge hCompacts.1]
      simp only [if_pos hCompacts.2]
      exact ⟨_, rfl⟩

end Command

section Worker

open WorkerRecoveryJournal

variable {text : JournalText} {file : JournalFile} {j : WorkerRecoveryJournal} {env : JournalEnv}

namespace WorkerRecoveryJournal

/-- The records stand under their own sessions, and the snapshots are of the current version. -/
structure Shaped (j : WorkerRecoveryJournal) : Prop where
  latest : ∀ key record, j.latest.lookup key = some record → record.activeSessionId = key
  snapshots : ∀ key record, j.queueSnapshots.lookup key = some record → record.activeSessionId = key ∧
    record.version = queueSnapshotVersion ∧ record.type = queueSnapshotRecordType

def Same (j j' : WorkerRecoveryJournal) : Prop :=
  HashMap.view j.latest = HashMap.view j'.latest ∧
    HashMap.mapView WorkerQueueSnapshotRecord.withoutNull j.queueSnapshots
      = HashMap.mapView WorkerQueueSnapshotRecord.withoutNull j'.queueSnapshots

def OthersIdle (j : WorkerRecoveryJournal) (activeSessionId : String) : Prop :=
  ∀ key record, key ≠ activeSessionId → j.latest.lookup key = some record → record.busy = false

def loadRecord (j : WorkerRecoveryJournal) (record : Json) : WorkerRecoveryJournal :=
  ⟨latestRecord j.latest record, snapshotRecord j.queueSnapshots record⟩

end WorkerRecoveryJournal

def workerKind : JournalKind WorkerRecoveryJournal WorkerOp where
  openFile := openJournal
  run text envs w op := op.run text envs w
  Idle _ j
    | .record activeSessionId v => j.verdictUnchanged activeSessionId v.sessionFile v.busy v.operation = true
    | _ => False
  Compacts _ j
    | .record activeSessionId v => v.busy = false ∧ j.OthersIdle activeSessionId
    | .recordQueueSnapshot _ _ => False
    | .recordQueueCheckpoint activeSessionId v _ =>
      j.verdictUnchanged activeSessionId v.sessionFile v.busy v.operation = false ∧
        v.busy = false ∧ j.OthersIdle activeSessionId
    | .settleBusyRecords _ => True
  replay := loadRecord
  same := Same

theorem WorkerQueueItemRecord.withoutNull_idem (item : WorkerQueueItemRecord) :
    item.withoutNull.withoutNull = item.withoutNull := by
  simp [withoutNull]

theorem WorkerQueueSnapshotRecord.withoutNull_idem (record : WorkerQueueSnapshotRecord) :
    record.withoutNull.withoutNull = record.withoutNull := by
  simp [withoutNull, Function.comp_def, WorkerQueueItemRecord.withoutNull_idem]

theorem WorkerQueueSnapshotRecord.Lossless.withoutNull {record : WorkerQueueSnapshotRecord} (h : record.Lossless) :
    record.withoutNull = record := by
  have hRead := ofValue_toValue record.activeSessionId record.steering record.followUp record.recordedAt
  rw [← h.current, h.ofValue] at hRead
  exact (Option.some.inj hRead).symm

namespace WorkerRecoveryJournal

variable {reopened : WorkerRecoveryJournal} {records : List WorkerRecoveryRecord} {envs : Nat → JournalEnv}
  {op : WorkerOp} {outcome : Outcome WorkerRecoveryJournal}

theorem openJournal_shaped (hOpen : openJournal text file = some reopened) (hSame : Same reopened j) : j.Shaped := by
  have hFormed := openJournal_wellFormed hOpen
  constructor
  · intro key record hLookup
    exact hFormed.latest key record ((congrFun hSame.1 key).trans hLookup)
  · intro key record hLookup
    have hKey : (reopened.queueSnapshots.lookup key).map WorkerQueueSnapshotRecord.withoutNull
        = (j.queueSnapshots.lookup key).map WorkerQueueSnapshotRecord.withoutNull := congrFun hSame.2 key
    rw [hLookup, Option.map_some, Option.map_eq_some_iff] at hKey
    obtain ⟨read, hRead, hEq⟩ := hKey
    obtain ⟨hSession, hLossless⟩ := hFormed.snapshots key read hRead
    rw [hLossless.withoutNull] at hEq
    have hCurrent := hLossless.current
    subst hEq
    refine ⟨hSession, ?_, ?_⟩
    · exact congrArg WorkerQueueSnapshotRecord.version hCurrent
    · exact congrArg WorkerQueueSnapshotRecord.type hCurrent

theorem ofValue_shaped {record : WorkerQueueSnapshotRecord} (hVersion : record.version = queueSnapshotVersion)
    (hType : record.type = queueSnapshotRecordType) :
    WorkerQueueSnapshotRecord.ofValue record.toValue = some record.withoutNull := by
  obtain ⟨version, type, activeSessionId, steering, followUp, recordedAt⟩ := record
  obtain rfl := hVersion
  obtain rfl := hType
  exact WorkerQueueSnapshotRecord.ofValue_toValue activeSessionId steering followUp recordedAt

theorem compact_read (hShaped : j.Shaped) (hKeeps : ∀ record ∈ j.compactRecords env, text.Keeps record) :
    ∃ reopened, openJournal text ((j.compactWrite env).run text file) = some reopened ∧ Same reopened j := by
  have hIntact : ((j.compactWrite env).run text file).Intact := @rewrite_intact text file _
  refine ⟨_, openJournal_eq hIntact, ?_, ?_⟩
  · dsimp only
    rw [compactWrite, parseWorkerRecords_rewrite hKeeps, compactRecords, foldl_latest_values]
    exact (HashMap.view_ofValues env.order id hShaped.latest).trans (HashMap.mapView_id _)
  · have hSnapshots : HashMap.view (snapshotsOf text ((j.compactWrite env).run text file))
        = HashMap.mapView WorkerQueueSnapshotRecord.withoutNull j.queueSnapshots := by
      rw [compactWrite, snapshotsOf_rewrite hKeeps, compactRecords, List.foldl_append, List.foldl_map, List.foldl_map]
      simp only [snapshotRecord_workerRecord, List.foldl_fixed]
      refine (congrArg HashMap.view (List.foldl_ext _ _ _ ?_)).trans
        (HashMap.view_ofValues env.order WorkerQueueSnapshotRecord.withoutNull fun key record hLookup =>
          (hShaped.snapshots key record hLookup).1)
      intro m record hRecord
      obtain ⟨key, hLookup⟩ := (HashMap.mem_values env.order).mp hRecord
      obtain ⟨-, hVersion, hType⟩ := hShaped.snapshots key record hLookup
      rw [snapshotRecord, ofValue_shaped hVersion hType]
      rfl
    ext1 key
    have hKey := congrFun hSnapshots key
    change (((snapshotsOf text ((j.compactWrite env).run text file)).lookup key).map _ : Option _) = _
    rw [show (snapshotsOf text ((j.compactWrite env).run text file)).lookup key
      = (j.queueSnapshots.lookup key).map WorkerQueueSnapshotRecord.withoutNull from hKey, Option.map_map]
    exact congrArg (fun f => Option.map f (j.queueSnapshots.lookup key))
      (funext WorkerQueueSnapshotRecord.withoutNull_idem)

theorem Shaped.insert_latest (hShaped : j.Shaped) (record : WorkerRecoveryRecord) :
    Shaped { j with latest := j.latest.insert record.activeSessionId record } :=
  ⟨latest_insert hShaped.latest record, hShaped.snapshots⟩

theorem Shaped.insert_snapshot (hShaped : j.Shaped) (activeSessionId : String)
    (steering followUp : List WorkerQueueItemRecord) (now : String) :
    Shaped ⟨j.latest, j.queueSnapshots.insert activeSessionId (.current activeSessionId steering followUp now)⟩ := by
  refine ⟨hShaped.latest, ?_⟩
  intro key record hLookup
  by_cases hKey : key = activeSessionId
  · subst hKey
    rw [AList.lookup_insert] at hLookup
    rw [← Option.some.inj hLookup]
    exact ⟨rfl, rfl, rfl⟩
  · rw [AList.lookup_insert_ne hKey] at hLookup
    exact hShaped.snapshots key record hLookup

theorem loadRecord_latest (j : WorkerRecoveryJournal) (record : WorkerRecoveryRecord) :
    j.loadRecord record.toValue = { j with latest := j.latest.insert record.activeSessionId record } := by
  rw [loadRecord, latestRecord_toValue, snapshotRecord_workerRecord]

theorem loadRecord_snapshot (j : WorkerRecoveryJournal) (activeSessionId : String)
    (steering followUp : List WorkerQueueItemRecord) (now : String) :
    Same ⟨j.latest, j.queueSnapshots.insert activeSessionId (.current activeSessionId steering followUp now)⟩
      (j.loadRecord (WorkerQueueSnapshotRecord.current activeSessionId steering followUp now).toValue) := by
  rw [loadRecord, latestRecord_snapshot, snapshotRecord, WorkerQueueSnapshotRecord.ofValue_toValue]
  refine ⟨rfl, ?_⟩
  dsimp only
  rw [HashMap.mapView_insert, HashMap.mapView_insert, WorkerQueueSnapshotRecord.withoutNull_idem]
  rfl

theorem Same.loadRecord {j' : WorkerRecoveryJournal} (h : Same j j') (record : Json) :
    Same (j.loadRecord record) (j'.loadRecord record) := by
  refine ⟨latestRecord_congr h.1 record, ?_⟩
  unfold WorkerRecoveryJournal.loadRecord snapshotRecord
  dsimp only
  split
  · exact h.2
  · rw [HashMap.mapView_insert, HashMap.mapView_insert, h.2]

theorem allIdle_iff : j.allIdle = true ↔ ∀ key record, j.latest.lookup key = some record → record.busy = false := by
  rw [allIdle, List.all_eq_true]
  constructor
  · intro h key record hLookup
    simpa using h ⟨key, record⟩ (AList.mem_lookup_iff.mp hLookup)
  · rintro h ⟨key, record⟩ hMem
    simpa using h key record (AList.mem_lookup_iff.mpr hMem)

variable {activeSessionId sessionId operation : String} {sessionFile : Option String} {busy : Bool}

theorem record_effect (hShaped : j.Shaped) (env : JournalEnv) :
    workerKind.Effect text j (j.record env activeSessionId sessionId sessionFile busy operation) ∧
      (j.record env activeSessionId sessionId sessionFile busy operation).journal.Shaped := by
  unfold record
  by_cases hUnchanged : j.verdictUnchanged activeSessionId sessionFile busy operation = true
  · rw [if_pos hUnchanged]
    exact ⟨.idle, hShaped⟩
  · simp only [if_neg hUnchanged]
    generalize hRecord : (⟨activeSessionId, sessionId, sessionFile, busy, operation, env.now⟩ : WorkerRecoveryRecord)
      = record
    obtain rfl : record.activeSessionId = activeSessionId := hRecord ▸ rfl
    have hNext := hShaped.insert_latest record
    have hSame : Same { j with latest := j.latest.insert record.activeSessionId record }
        (workerKind.replay j record.toValue) := by
      change Same _ (j.loadRecord record.toValue)
      rw [loadRecord_latest]
      exact ⟨rfl, rfl⟩
    split_ifs
    · exact ⟨.compacted [record.toValue] _ _ hSame fun hKeeps _ => compact_read hNext hKeeps, hNext⟩
    · exact ⟨.logged [record.toValue] _ hSame, hNext⟩

theorem recordQueueSnapshot_effect (env : JournalEnv) (j : WorkerRecoveryJournal) (activeSessionId : String)
    (steering followUp : List WorkerQueueItemRecord) :
    workerKind.Effect text j (j.recordQueueSnapshot env activeSessionId steering followUp) :=
  .logged [(WorkerQueueSnapshotRecord.current activeSessionId steering followUp env.now).toValue] _
    (loadRecord_snapshot j activeSessionId steering followUp env.now)

theorem recordQueueCheckpoint_effect (hShaped : j.Shaped) (snapshotNow : String) (env : JournalEnv)
    (steering followUp : List WorkerQueueItemRecord) :
    workerKind.Effect text j (j.recordQueueCheckpoint snapshotNow env activeSessionId sessionId sessionFile busy
      operation steering followUp) := by
  have hSnapshot := loadRecord_snapshot j activeSessionId steering followUp snapshotNow
  have hShaped' := hShaped.insert_snapshot activeSessionId steering followUp snapshotNow
  unfold recordQueueCheckpoint
  dsimp only
  by_cases hUnchanged : j.verdictUnchanged activeSessionId sessionFile busy operation = true
  · rw [if_pos hUnchanged]
    exact .logged [_] _ hSnapshot
  · rw [if_neg hUnchanged]
    generalize hRecord : (⟨activeSessionId, sessionId, sessionFile, busy, operation, env.now⟩ : WorkerRecoveryRecord)
      = record
    have hSession : activeSessionId = record.activeSessionId := hRecord ▸ rfl
    generalize WorkerQueueSnapshotRecord.current activeSessionId steering followUp snapshotNow = snapshot at *
    have hSame := hSnapshot.loadRecord record.toValue
    rw [loadRecord_latest, ← hSession] at hSame
    have hNext := hShaped'.insert_latest record
    rw [← hSession] at hNext
    split_ifs
    · exact .compacted [snapshot.toValue, record.toValue] _ _ hSame fun hKeeps _ => compact_read hNext hKeeps
    · exact .logged [snapshot.toValue, record.toValue] _ hSame

theorem settle_chain (hShaped : j.Shaped) (envs : Nat → JournalEnv) :
    workerKind.Chain text j (settle operation envs j records) := by
  induction records generalizing j envs with
  | nil => exact .done j
  | cons record records ih =>
    obtain ⟨hEffect, hNext⟩ := @record_effect text j record.activeSessionId record.sessionId operation
      record.sessionFile false hShaped (envs 0)
    exact .call hEffect (ih hNext fun n => envs (n + 1))

theorem OthersIdle.insert (hIdle : j.OthersIdle activeSessionId) {record : WorkerRecoveryRecord}
    (hRecord : record.busy = false) (queueSnapshots : HashMap String WorkerQueueSnapshotRecord) :
    allIdle ⟨j.latest.insert activeSessionId record, queueSnapshots⟩ = true := by
  rw [allIdle_iff]
  intro key other hLookup
  by_cases hKey : key = activeSessionId
  · subst hKey
    rw [AList.lookup_insert] at hLookup
    rw [← Option.some.inj hLookup]
    exact hRecord
  · rw [AList.lookup_insert_ne hKey] at hLookup
    exact hIdle key other hKey hLookup

theorem record_compacts (hIdle : j.OthersIdle activeSessionId) (env : JournalEnv)
    (hChanged : j.verdictUnchanged activeSessionId sessionFile false operation = false) :
    ∃ records, (j.record env activeSessionId sessionId sessionFile false operation).writes.getLast?
      = some (.rewrite records) := by
  unfold record
  simp only [hChanged, Bool.false_eq_true, if_false, hIdle.insert, if_true]
  exact ⟨_, rfl⟩

theorem recordQueueCheckpoint_compacts (hIdle : j.OthersIdle activeSessionId) (snapshotNow : String) (env : JournalEnv)
    (hChanged : j.verdictUnchanged activeSessionId sessionFile false operation = false)
    (steering followUp : List WorkerQueueItemRecord) :
    ∃ records, (j.recordQueueCheckpoint snapshotNow env activeSessionId sessionId sessionFile false operation steering
      followUp).writes.getLast? = some (.rewrite records) := by
  unfold recordQueueCheckpoint
  simp only [hChanged, Bool.false_eq_true, if_false, hIdle.insert, if_true]
  exact ⟨_, rfl⟩

theorem record_latest_self (env : JournalEnv)
    (hChanged : j.verdictUnchanged activeSessionId sessionFile busy operation = false) :
    (j.record env activeSessionId sessionId sessionFile busy operation).journal.latest.lookup activeSessionId
      = some ⟨activeSessionId, sessionId, sessionFile, busy, operation, env.now⟩ := by
  unfold record
  simp only [hChanged, Bool.false_eq_true, if_false]
  split_ifs <;> exact AList.lookup_insert j.latest

theorem settle_compacts (envs : Nat → JournalEnv) (hSome : records ≠ [])
    (hRecords : ∀ record ∈ records, j.latest.lookup record.activeSessionId = some record ∧ record.busy = true)
    (hNodup : (records.map (·.activeSessionId)).Nodup)
    (hRest : ∀ key record, j.latest.lookup key = some record → record.busy = true → record ∈ records)
    (hKeys : ∀ key record, j.latest.lookup key = some record → record.activeSessionId = key) :
    ∃ compacted, (settle operation envs j records).writes.getLast? = some (.rewrite compacted) := by
  induction records generalizing j envs with
  | nil => exact absurd rfl hSome
  | cons record records ih =>
    obtain ⟨hLookup, hBusy⟩ := hRecords record List.mem_cons_self
    obtain ⟨hNew, hNodup'⟩ := List.nodup_cons.mp hNodup
    have hChanged : j.verdictUnchanged record.activeSessionId record.sessionFile false operation = false := by
      rw [verdictUnchanged, hLookup]
      simp [hBusy]
    by_cases hLast : records = []
    · subst hLast
      have hOthers : j.OthersIdle record.activeSessionId := by
        intro key other hKey hOther
        refine Bool.eq_false_iff.mpr fun hTrue => hKey ?_
        rw [← hKeys key other hOther, List.mem_singleton.mp (hRest key other hOther hTrue)]
      rw [settle]
      simp only [settle, List.append_nil]
      exact record_compacts hOthers (envs 0) hChanged
    · have hNext : ∀ key other, (j.record (envs 0) record.activeSessionId record.sessionId record.sessionFile false
          operation).journal.latest.lookup key = some other →
            (key = record.activeSessionId ∧ other.busy = false ∧ other.activeSessionId = key) ∨
              (key ≠ record.activeSessionId ∧ j.latest.lookup key = some other) := by
        intro key other hOther
        by_cases hKey : key = record.activeSessionId
        · subst hKey
          rw [record_latest_self (envs 0) hChanged] at hOther
          rw [← Option.some.inj hOther]
          exact Or.inl ⟨rfl, rfl, rfl⟩
        · rw [record_latest_ne hKey] at hOther
          exact Or.inr ⟨hKey, hOther⟩
      have hTail := @ih (j.record (envs 0) record.activeSessionId record.sessionId record.sessionFile false
        operation).journal (fun n => envs (n + 1)) hLast ?_ hNodup' ?_ ?_
      · obtain ⟨compacted, hCompacted⟩ := hTail
        refine ⟨compacted, ?_⟩
        rw [settle]
        dsimp only
        rw [List.getLast?_append_of_ne_nil _ (by rintro hNil; rw [hNil] at hCompacted; cases hCompacted)]
        exact hCompacted
      · rintro other hOther
        obtain ⟨hLookup', hBusy'⟩ := hRecords other (List.mem_cons_of_mem record hOther)
        refine ⟨?_, hBusy'⟩
        rw [record_latest_ne, hLookup']
        exact fun hSame => hNew (List.mem_map.mpr ⟨other, hOther, hSame⟩)
      · intro key other hOther hTrue
        rcases hNext key other hOther with ⟨-, hIdle, -⟩ | ⟨hKey, hOther'⟩
        · rw [hIdle] at hTrue
          cases hTrue
        · rcases List.mem_cons.mp (hRest key other hOther' hTrue) with rfl | hMem
          · exact absurd (hKeys key other hOther').symm hKey
          · exact hMem
      · intro key other hOther
        rcases hNext key other hOther with ⟨-, -, hSession⟩ | ⟨-, hOther'⟩
        · exact hSession
        · exact hKeys key other hOther'

theorem workerOp_chain (hOp : workerKind.run text envs ⟨j, file⟩ op = some outcome)
    (hOpen : openJournal text file = some reopened) (hSame : Same reopened j) :
    ∃ start, Same start j ∧ workerKind.Chain text start outcome := by
  have hShaped := openJournal_shaped hOpen hSame
  cases op with
  | record activeSessionId v =>
    obtain rfl := Option.some.inj hOp
    exact ⟨j, ⟨rfl, rfl⟩, (record_effect hShaped (envs 0)).1.chain⟩
  | recordQueueSnapshot activeSessionId lanes =>
    obtain rfl := Option.some.inj hOp
    exact ⟨j, ⟨rfl, rfl⟩, (recordQueueSnapshot_effect (envs 0) j activeSessionId lanes.1 lanes.2).chain⟩
  | recordQueueCheckpoint activeSessionId v lanes =>
    obtain rfl := Option.some.inj hOp
    exact ⟨j, ⟨rfl, rfl⟩, (recordQueueCheckpoint_effect hShaped _ _ lanes.1 lanes.2).chain⟩
  | settleBusyRecords operation =>
    obtain ⟨reopened', hOpen', rfl⟩ := Option.map_eq_some_iff.mp hOp
    rw [hOpen] at hOpen'
    obtain rfl := Option.some.inj hOpen'
    exact ⟨reopened, hSame, settle_chain (openJournal_shaped hOpen ⟨rfl, rfl⟩) envs⟩

theorem workerOp_compacts (hOp : workerKind.run text envs ⟨j, file⟩ op = some outcome)
    (hCompacts : workerKind.Compacts text j op) :
    outcome.writes = [] ∨ ∃ records, outcome.writes.getLast? = some (.rewrite records) := by
  cases op with
  | record activeSessionId v =>
    obtain rfl := Option.some.inj hOp
    obtain ⟨sessionId, sessionFile, busy, operation⟩ := v
    obtain ⟨rfl, hOthers⟩ := hCompacts
    cases hUnchanged : j.verdictUnchanged activeSessionId sessionFile false operation with
    | true =>
      left
      simp only [record, hUnchanged, if_true]
    | false => exact Or.inr (record_compacts hOthers (envs 0) hUnchanged)
  | recordQueueSnapshot => cases hCompacts
  | recordQueueCheckpoint activeSessionId v lanes =>
    obtain rfl := Option.some.inj hOp
    obtain ⟨sessionId, sessionFile, busy, operation⟩ := v
    obtain ⟨hChanged, rfl, hOthers⟩ := hCompacts
    exact Or.inr (recordQueueCheckpoint_compacts hOthers _ _ hChanged lanes.1 lanes.2)
  | settleBusyRecords operation =>
    obtain ⟨reopened, hOpen, rfl⟩ := Option.map_eq_some_iff.mp hOp
    have hFormed := openJournal_wellFormed hOpen
    obtain ⟨hRecords, hNodup⟩ := busy_records hFormed (envs 0).order
    by_cases hSome : (HashMap.values (envs 0).order reopened.latest).filter (·.busy) = []
    · left
      rw [hSome]
      rfl
    · right
      refine settle_compacts envs hSome hRecords hNodup ?_ hFormed.latest
      intro key record hLookup hBusy
      exact List.mem_filter.mpr ⟨(HashMap.mem_values _).mpr ⟨key, hLookup⟩, hBusy⟩

theorem loadRecord_foldl (records : List Json) (j : WorkerRecoveryJournal) :
    records.foldl loadRecord j = ⟨records.foldl latestRecord j.latest, records.foldl snapshotRecord j.queueSnapshots⟩ := by
  induction records generalizing j with
  | nil => rfl
  | cons record records ih => exact ih (j.loadRecord record)

theorem openJournal_append {records : List Json} (hIntact : file.Intact) (hKeeps : ∀ record ∈ records, text.Keeps record)
    (hOpen : openJournal text file = some j) :
    openJournal text ((Write.append records).run text file) = some (records.foldl loadRecord j) := by
  rw [openJournal_eq hIntact] at hOpen
  obtain rfl := Option.some.inj hOpen
  rw [openJournal_eq (append_intact hIntact), loadRecord_foldl, parseWorkerRecords_append hIntact hKeeps,
    snapshotsOf_append hIntact hKeeps]

theorem openJournal_tail {record : Json} {tail : Text} (hIntact : file.Intact) (hKeeps : text.Keeps record)
    (hTears : text.Tears record) (hPrefix : tail <+: text.toString record) (hTail : tail ≠ [])
    (hOpen : openJournal text file = some j) :
    openJournal text (some (file.getD [] ++ utf8 tail)) = some j ∨
      openJournal text (some (file.getD [] ++ utf8 tail)) = some (j.loadRecord record) := by
  have hLine : '\n' ∉ tail := fun h => hKeeps.oneLine (hPrefix.subset h)
  rw [openJournal_eq hIntact] at hOpen
  obtain rfl := Option.some.inj hOpen
  obtain ⟨content, hBytes, -⟩ := id hIntact
  have hOpenTail := @openJournal_utf8 text (some (file.getD [] ++ utf8 tail)) (content ++ tail)
    (by rw [Option.getD_some, hBytes, utf8, utf8, utf8, Utf8.encode_append])
  have hLatest : parseWorkerRecords text (some (file.getD [] ++ utf8 tail))
      = latestLine text (parseWorkerRecords text file) tail := by
    rw [parseWorkerRecords_eq text (some _), readLines_tail hIntact hLine, if_neg hTail, List.foldl_append,
      ← parseWorkerRecords_eq, List.foldl_cons, List.foldl_nil]
  have hSnapshots : snapshotsOf text (some (file.getD [] ++ utf8 tail))
      = snapshotLine text (snapshotsOf text file) tail := by
    have hNonempty : [tail].filter (!·.isEmpty) = [tail] := by simp [hTail]
    rw [snapshotsOf, readLines_tail hIntact hLine, if_neg hTail, List.filter_append, hNonempty, List.foldl_append]
    rfl
  rw [hOpenTail, hLatest, hSnapshots]
  by_cases hWhole : tail = text.toString record
  · right
    rw [hWhole, latestLine_record hKeeps, snapshotLine_record hKeeps]
    rfl
  · left
    rw [latestLine, snapshotLine, hTears.value tail hPrefix hWhole, hTears.workerRecord tail hPrefix hWhole]
    simp

end WorkerRecoveryJournal

theorem workerKind_lawful (text : JournalText) : workerKind.Lawful text (fun _ _ => True) where
  refl _ := ⟨rfl, rfl⟩
  symm h := ⟨h.1.symm, h.2.symm⟩
  trans h h' := ⟨h.1.trans h'.1, h.2.trans h'.2⟩
  replay h record := h.loadRecord record
  openAppend hIntact hKeeps hOpen := ⟨_, openJournal_append hIntact hKeeps hOpen, rfl, rfl⟩
  openTail hIntact hKeeps hTears hPrefix hTail hOpen := by
    rcases openJournal_tail hIntact hKeeps hTears hPrefix hTail hOpen with hSkipped | hRead
    · exact ⟨_, hSkipped, Or.inl ⟨rfl, rfl⟩⟩
    · exact ⟨_, hRead, Or.inr ⟨rfl, rfl⟩⟩
  chain hOp hOpen hSame _ := workerOp_chain hOp hOpen hSame
  before hOp hOpen hSame hWrites := by
    obtain ⟨start, hStart, hChain⟩ := workerOp_chain hOp hOpen hSame
    obtain ⟨mid, hMid⟩ := hChain.before hWrites
    exact ⟨start, mid, hStart, hMid⟩
  idle {envs file j op outcome} hOp hIdle := by
    cases op with
    | record activeSessionId v =>
      obtain rfl := Option.some.inj hOp
      have hUnchanged : j.verdictUnchanged activeSessionId v.sessionFile v.busy v.operation = true := hIdle
      simp only [record, hUnchanged, if_true]
    | recordQueueSnapshot | recordQueueCheckpoint | settleBusyRecords => cases hIdle
  compacts hOp _ _ hCompacts := workerOp_compacts hOp hCompacts

end Worker

/-- Where no append starts behind a torn line, no cut falls inside a character and no compaction meets a completed
command, every completed append is honoured by the next open of either journal, and of a cut one its first records. -/
theorem crashes_honoured (text : JournalText) :
    (∀ first w, CrashRun commandKind text (Careful commandKind text fun j op => ¬ op.Forgets text j) CleanCut first w →
      Honours commandKind text first w) ∧
    ∀ first w, CrashRun workerKind text (Careful workerKind text fun _ _ => True) CleanCut first w →
      Honours workerKind text first w := by
  constructor
  · intro first w hRun
    exact JournalKind.crashRun_honours (commandKind_lawful text) hRun
  · intro first w hRun
    exact JournalKind.crashRun_honours (workerKind_lawful text) hRun

abbrev tornText : JournalText :=
  tableText [keyRow, receivedRow]

theorem tornText_values : ([keyRow, receivedRow].map (·.1)).Nodup := by
  decide

set_option maxRecDepth 4000 in
theorem receivedRow_object : isObjectLine receivedRow.2.toList = true :=
  isObjectLine_ofList (by decide +kernel)

theorem receivedRow_ne_keyRow : keyRow.2 ≠ receivedRow.2 := by
  intro hSame
  have hKey : isObjectLine keyRow.2.toList = true := hSame ▸ receivedRow_object
  exact absurd hKey (by decide)

theorem tornText_keeps : tornText.Keeps receivedRow.1 :=
  tableText_keeps tornText_values (by simpa using receivedRow_ne_keyRow) (by simp) receivedRow_object

theorem tornText_toString : tornText.toString receivedRow.1 = receivedRow.2.toList :=
  tableText_toString tornText_values (by simp)

theorem tornText_none {line : Text} (hKey : line ≠ keyRow.2.toList) (hReceived : line ≠ receivedRow.2.toList) :
    tornText.value line = none ∧ tornText.workerRecord line = none := by
  have hFind : [keyRow, receivedRow].find? (·.2.toList == line) = none := by
    simp [Ne.symm hKey, Ne.symm hReceived]
  constructor <;> simp only [tableText, hFind] <;> rfl

theorem tornText_tears : tornText.Tears receivedRow.1 := by
  obtain ⟨-, body, hBody⟩ := exists_object receivedRow_object
  have hNone : ∀ piece, piece <+: receivedRow.2.toList → piece ≠ receivedRow.2.toList →
      tornText.value piece = none ∧ tornText.workerRecord piece = none := by
    intro piece hPrefix hPiece
    refine tornText_none ?_ hPiece
    rintro rfl
    rw [hBody] at hPrefix
    obtain ⟨rest, hRest⟩ := hPrefix
    cases hRest
  constructor <;> rw [tornText_toString]
  · exact fun piece hPrefix hPiece => (hNone piece hPrefix hPiece).1
  · exact fun piece hPrefix hPiece => (hNone piece hPrefix hPiece).2

def emptyCommands : CommandRecoveryJournal :=
  ⟨∅, 0⟩

def tornReceipt : Crashing CommandRecoveryJournal :=
  ⟨none, some (utf8 ['\x7b']), [.cut [receivedRow.1]]⟩

theorem tornText_key : CommandRecoveryJournal.key tornText "a" "b" = "[\"a\",\"b\"]" := by
  have hText : tornText.toString keyRow.1 = keyRow.2.toList := tableText_toString tornText_values List.mem_cons_self
  rw [CommandRecoveryJournal.key, show Json.array [.string "a", .string "b"] = keyRow.1 from rfl, hText,
    String.ofList_toList]
  rfl

theorem tornText_begin : (CommandOp.begin "a" "b" "kill").run tornText sampleJournalEnv emptyCommands
    = ⟨⟨(∅ : HashMap String CommandJournalEntry).insert "[\"a\",\"b\"]" .pending, 1⟩, [.append [receivedRow.1]]⟩ := by
  rw [CommandOp.run_begin "kill" rfl]
  simp only [CommandRecoveryJournal.receivedRecord, tornText_key]
  rfl

theorem tornText_begin_keeps :
    ((CommandOp.begin "a" "b" "kill").run tornText sampleJournalEnv emptyCommands).Keeps tornText := by
  rw [tornText_begin]
  rintro write hWrite record hRecord
  rw [List.mem_singleton.mp hWrite] at hRecord
  rw [List.mem_singleton.mp hRecord]
  exact tornText_keeps

theorem tornReceipt_run {completes : JournalFile → CommandRecoveryJournal → CommandOp → Prop}
    {cuts : JournalFile → Bytes → Prop} (hCuts : cuts none (utf8 ['\x7b'])) :
    CrashRun commandKind tornText completes cuts emptyCommands tornReceipt := by
  refine .crashed (fun _ => sampleJournalEnv) (.begin "a" "b" "kill") _ [] [] [receivedRow.1] _
    (.opened none JournalFile.intact_missing rfl) hCuts rfl tornText_begin_keeps ?_ ?_ ?_
  · rintro record hRecord
    rw [List.mem_singleton.mp hRecord]
    exact tornText_tears
  · dsimp only
    rw [tornText_begin]
    rfl
  · obtain ⟨-, body, hBody⟩ := exists_object receivedRow_object
    rw [recordLines, List.map_singleton, tornText_toString, hBody]
    exact ⟨_, (Utf8.encode_append ['\x7b'] _).symm⟩

theorem tornReceipt_loads : CommandRecoveryJournal.load tornText
    ((Write.append [receivedRow.1]).run tornText (some (utf8 ['\x7b']))) = emptyCommands := by
  obtain ⟨hOneLine, body, hBody⟩ := exists_object receivedRow_object
  have hLine : '\n' ∉ '\x7b' :: receivedRow.2.toList := by
    simpa using hOneLine
  have hFile : ((Write.append [receivedRow.1]).run tornText (some (utf8 ['\x7b']))).getD []
      = utf8 (('\x7b' :: receivedRow.2.toList) ++ ['\n']) := by
    simp only [Write.run, Option.getD_some, recordLines, List.map_singleton, tornText_toString, utf8,
      ← Utf8.encode_append, LineLog.block_cons, LineLog.block_nil, List.nil_append,
      List.cons_append]
  have hKey : '\x7b' :: receivedRow.2.toList ≠ keyRow.2.toList := by
    intro hSame
    cases hSame
  have hReceived : '\x7b' :: receivedRow.2.toList ≠ receivedRow.2.toList :=
    fun hSame => absurd (congrArg List.length hSame) (by simp)
  have hStrip : stripCarriageReturn ('\x7b' :: receivedRow.2.toList) = '\x7b' :: receivedRow.2.toList := by
    rw [hBody, stripCarriageReturn, ← List.cons_append, List.getLast?_concat, if_neg (by decide)]
  rw [CommandRecoveryJournal.load_eq, JournalFile.readLines_of_getD hFile, LineLog.lines_line hLine, hStrip,
    List.foldl_cons, List.foldl_nil, CommandRecoveryJournal.loadLine, (tornText_none hKey hReceived).1]
  rfl

theorem Survivors.getLast {appends : List Append} {history records : List Json} (h : Survivors appends history)
    (hLast : appends.getLast? = some (.whole records)) : ∃ front, history = front ++ records := by
  cases h with
  | nil => cases hLast
  | @whole appends front records' h =>
    rw [List.getLast?_concat] at hLast
    obtain rfl := Append.whole.inj (Option.some.inj hLast)
    exact ⟨front, rfl⟩
  | cut records' k h =>
    rw [List.getLast?_concat] at hLast
    cases Option.some.inj hLast

theorem tornReceipt_lost : ∃ w,
    CrashRun commandKind tornText (fun _ _ _ => True) (fun _ _ => True) emptyCommands w ∧
      ¬ Honours commandKind tornText emptyCommands w := by
  have hReopened : CommandRecoveryJournal.load tornText tornReceipt.file = emptyCommands := by
    obtain ⟨-, body, hBody⟩ := exists_object receivedRow_object
    have hReceived : ['\x7b'] ≠ receivedRow.2.toList := by
      rw [hBody]
      simp
    have hKey : ['\x7b'] ≠ keyRow.2.toList := by
      rintro ⟨⟩
    rw [CommandRecoveryJournal.load_eq, JournalFile.readLines_of_getD rfl, LineLog.lines_tail (by decide),
      if_neg (by decide), List.foldl_cons, List.foldl_nil, CommandRecoveryJournal.loadLine,
      (tornText_none hKey hReceived).1]
    rfl
  refine ⟨_, .completed (fun _ => sampleJournalEnv) (.begin "a" "b" "kill") _
    (.reopened (tornReceipt_run trivial) (congrArg some hReopened)) trivial rfl tornText_begin_keeps, ?_⟩
  rw [tornText_begin]
  rintro ⟨reopened, history, hOpen, hSurvive, hSame⟩
  obtain ⟨front, rfl⟩ := hSurvive.getLast rfl
  have hEmpty : reopened = emptyCommands := (Option.some.inj hOpen).symm.trans tornReceipt_loads
  have hRecord : (receivedRow.1.get "key").bind Json.asStr = some "[\"a\",\"b\"]" := by decide
  have hLost := congrFun hSame "[\"a\",\"b\"]"
  rw [hEmpty, List.foldl_append] at hLost
  have hFound : ((List.foldl CommandRecoveryJournal.loadRecord emptyCommands front).loadRecord receivedRow.1).entries.lookup
      "[\"a\",\"b\"]" = some .pending := AList.lookup_insert _
  exact absurd (hLost.trans hFound) (by decide)

theorem tornReceipt_honours : Honours commandKind tornText emptyCommands tornReceipt ∧
    Honours workerKind tornText ⟨∅, ∅⟩ ⟨some ⟨∅, ∅⟩, none, []⟩ := by
  obtain ⟨hCommands, hWorkers⟩ := crashes_honoured tornText
  refine ⟨hCommands _ _ (tornReceipt_run ⟨JournalFile.intact_missing, ?_⟩), hWorkers _ _ ?_⟩
  · rw [utf8, Utf8.decode_encode]
    rfl
  · exact .opened none JournalFile.intact_missing rfl

end PrimeAgent
