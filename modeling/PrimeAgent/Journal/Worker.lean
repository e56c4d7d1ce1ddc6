import PrimeAgent.Journal.Command

/-! # The worker recovery journal

`WorkerRecoveryJournal`: the latest busy verdict and the latest queue snapshot of each active session, and the
queue rows a snapshot is taken of and restored to.
-/
namespace PrimeAgent

structure WorkerRecoveryJournal where
  latest : HashMap String WorkerRecoveryRecord
  queueSnapshots : HashMap String WorkerQueueSnapshotRecord

namespace WorkerRecoveryJournal

variable (text : JournalText)

def latestLine (latest : HashMap String WorkerRecoveryRecord) (line : Text) : HashMap String WorkerRecoveryRecord :=
  if line.isEmpty then latest
  else match text.workerRecord line with
    | none => latest
    | some record => latest.insert record.activeSessionId record

def parseWorkerRecords (file : JournalFile) : HashMap String WorkerRecoveryRecord :=
  match file.readToString with
  | none => ∅
  | some content => (lines content).foldl (latestLine text) ∅

def snapshotLine (latest : HashMap String WorkerQueueSnapshotRecord) (line : Text) :
    HashMap String WorkerQueueSnapshotRecord :=
  match (text.value line).bind WorkerQueueSnapshotRecord.ofValue with
  | none => latest
  | some entry => latest.insert entry.activeSessionId entry

def parseQueueSnapshotRecords : JournalFile → Option (HashMap String WorkerQueueSnapshotRecord)
  | none => some ∅
  | some bytes => (Utf8.decode bytes).map fun contents =>
    ((contents.splitOn '\n').filter (!·.isEmpty)).foldl (snapshotLine text) ∅

def openJournal (file : JournalFile) : Option WorkerRecoveryJournal :=
  (parseQueueSnapshotRecords text file).map fun queueSnapshots => ⟨parseWorkerRecords text file, queueSnapshots⟩

def compactRecords (env : JournalEnv) (j : WorkerRecoveryJournal) : List Json :=
  (HashMap.values env.order j.latest).map WorkerRecoveryRecord.toValue
    ++ (HashMap.values env.order j.queueSnapshots).map WorkerQueueSnapshotRecord.toValue

/-- `compact`. -/
def compactWrite (env : JournalEnv) (j : WorkerRecoveryJournal) : Write :=
  .rewrite (j.compactRecords env)

def verdictUnchanged (j : WorkerRecoveryJournal) (activeSessionId : String) (sessionFile : Option String) (busy : Bool)
    (operation : String) : Bool :=
  match j.latest.lookup activeSessionId with
  | some previous => previous.busy == busy && previous.operation == operation && previous.sessionFile == sessionFile
  | none => false

def allIdle (j : WorkerRecoveryJournal) : Bool :=
  j.latest.entries.all fun entry => !entry.2.busy

def record (env : JournalEnv) (j : WorkerRecoveryJournal) (activeSessionId sessionId : String)
    (sessionFile : Option String) (busy : Bool) (operation : String) : Outcome WorkerRecoveryJournal :=
  if j.verdictUnchanged activeSessionId sessionFile busy operation then ⟨j, []⟩
  else
    let record : WorkerRecoveryRecord := ⟨activeSessionId, sessionId, sessionFile, busy, operation, env.now⟩
    let next : WorkerRecoveryJournal := { j with latest := j.latest.insert activeSessionId record }
    let write := Write.append [record.toValue]
    if next.allIdle then ⟨next, [write, next.compactWrite env]⟩ else ⟨next, [write]⟩

def recordQueueSnapshot (env : JournalEnv) (j : WorkerRecoveryJournal) (activeSessionId : String)
    (steering followUp : List WorkerQueueItemRecord) : Outcome WorkerRecoveryJournal :=
  let record := WorkerQueueSnapshotRecord.current activeSessionId steering followUp env.now
  ⟨{ j with queueSnapshots := j.queueSnapshots.insert activeSessionId record }, [.append [record.toValue]]⟩

def recordQueueCheckpoint (snapshotNow : String) (env : JournalEnv) (j : WorkerRecoveryJournal)
    (activeSessionId sessionId : String) (sessionFile : Option String) (busy : Bool) (operation : String)
    (steering followUp : List WorkerQueueItemRecord) : Outcome WorkerRecoveryJournal :=
  let snapshot := WorkerQueueSnapshotRecord.current activeSessionId steering followUp snapshotNow
  let queueSnapshots := j.queueSnapshots.insert activeSessionId snapshot
  if j.verdictUnchanged activeSessionId sessionFile busy operation then
    ⟨{ j with queueSnapshots := queueSnapshots }, [.append [snapshot.toValue]]⟩
  else
    let record : WorkerRecoveryRecord := ⟨activeSessionId, sessionId, sessionFile, busy, operation, env.now⟩
    let next : WorkerRecoveryJournal := ⟨j.latest.insert activeSessionId record, queueSnapshots⟩
    let write := Write.append [snapshot.toValue, record.toValue]
    if next.allIdle then ⟨next, [write, next.compactWrite env]⟩ else ⟨next, [write]⟩

def settle (operation : String) : (Nat → JournalEnv) → WorkerRecoveryJournal → List WorkerRecoveryRecord →
    Outcome WorkerRecoveryJournal
  | _, j, [] => ⟨j, []⟩
  | envs, j, record :: rest =>
    let settled := j.record (envs 0) record.activeSessionId record.sessionId record.sessionFile false operation
    let outcome := settle operation (fun n => envs (n + 1)) settled.journal rest
    ⟨outcome.journal, settled.writes ++ outcome.writes⟩

/-- It opens a journal of its own; `order` is that of its walk through the records. -/
def settleBusyRecords (order : IterationOrder) (envs : Nat → JournalEnv) (file : JournalFile) (operation : String) :
    Option (Outcome WorkerRecoveryJournal) :=
  (openJournal text file).map fun j =>
    settle operation envs j ((HashMap.values order j.latest).filter (·.busy))

def latestQueueSnapshot (j : WorkerRecoveryJournal) (activeSessionId : String) :
    Option (List WorkerQueueItemRecord × List WorkerQueueItemRecord) :=
  (j.queueSnapshots.lookup activeSessionId).map fun record => (record.steering, record.followUp)

def readQueueSnapshot (file : JournalFile) (activeSessionId : String) :
    Option (Option (List WorkerQueueItemRecord × List WorkerQueueItemRecord)) :=
  (parseQueueSnapshotRecords text file).map fun latest =>
    (latest.lookup activeSessionId).map fun record => (record.steering, record.followUp)

end WorkerRecoveryJournal

/-- A queued row. The channel its turn is reported on does not outlive the process and is left out. -/
structure QueuedItem where
  message : String
  priority : QueuePriority
  preview : Option String
  customMessage : Option Json
  agentMessage : Option String
  queueKey : Option String
  admissionId : Option String
  images : List ImageContent
  queueVisible : Bool
  policy : TurnPolicy
  forcedBatch : Bool

namespace QueuedItem

/-- One row of `queue_lanes`. -/
def journalRecord (item : QueuedItem) : WorkerQueueItemRecord :=
  ⟨item.message, some item.priority, item.preview, item.customMessage, item.queueKey, item.queueVisible,
    item.policy.journalValue⟩

/-- One row of `restore_queue_snapshot`. -/
def restored (record : WorkerQueueItemRecord) : QueuedItem where
  message := record.message
  priority := record.priority.getD (if record.customMessage.isSome then .background else .human)
  preview := record.preview
  customMessage := record.customMessage
  agentMessage := none
  queueKey := record.queueKey
  admissionId := none
  images := []
  queueVisible := record.queueVisible
  policy := record.turnPolicy
  forcedBatch := false

end QueuedItem

/-- `queue_lanes` over the two lanes of a core. -/
def queueLanes (steering followUp : List QueuedItem) : List WorkerQueueItemRecord × List WorkerQueueItemRecord :=
  (steering.map QueuedItem.journalRecord, followUp.map QueuedItem.journalRecord)

def restoreQueueSnapshot (j : WorkerRecoveryJournal) (activeSessionId : String) : List QueuedItem × List QueuedItem :=
  match j.latestQueueSnapshot activeSessionId with
  | some (steering, followUp) => (steering.map QueuedItem.restored, followUp.map QueuedItem.restored)
  | none => ([], [])

end PrimeAgent

/-! ## Replaying the worker journal

The file of a worker journal replays to its live maps, and these hold what each session was last called with.
-/
namespace PrimeAgent

namespace WorkerRecoveryJournal

variable {text : JournalText} {file : JournalFile} {records : List Json} {env : JournalEnv}
  {j : WorkerRecoveryJournal} {record : Json}

def latestRecord (latest : HashMap String WorkerRecoveryRecord) (record : Json) : HashMap String WorkerRecoveryRecord :=
  match WorkerRecoveryRecord.ofValue record with
  | none => latest
  | some entry => latest.insert entry.activeSessionId entry

def snapshotRecord (latest : HashMap String WorkerQueueSnapshotRecord) (record : Json) :
    HashMap String WorkerQueueSnapshotRecord :=
  match WorkerQueueSnapshotRecord.ofValue record with
  | none => latest
  | some entry => latest.insert entry.activeSessionId entry

theorem latestLine_record (hKeeps : text.Keeps record) (latest : HashMap String WorkerRecoveryRecord) :
    latestLine text latest (text.toString record) = latestRecord latest record := by
  obtain ⟨body, hBody⟩ := hKeeps.object
  have hSome : (text.toString record).isEmpty = false := by
    rw [hBody]
    rfl
  rw [latestLine, hSome, hKeeps.typed]
  rfl

theorem snapshotLine_record (hKeeps : text.Keeps record) (latest : HashMap String WorkerQueueSnapshotRecord) :
    snapshotLine text latest (text.toString record) = snapshotRecord latest record := by
  rw [snapshotLine, hKeeps.reads]
  rfl

theorem foldl_lines {σ : Type} {readLine : σ → Text → σ} {readRecord : σ → Json → σ}
    (hLine : ∀ record ∈ records, ∀ s, readLine s (text.toString record) = readRecord s record) (s : σ) :
    (records.map text.toString).foldl readLine s = records.foldl readRecord s := by
  rw [List.foldl_map]
  exact List.foldl_ext _ _ s fun s record hRecord => hLine record hRecord s

theorem parseWorkerRecords_eq (text : JournalText) (file : JournalFile) :
    parseWorkerRecords text file = (file.readLines stripCarriageReturn).foldl (latestLine text) ∅ := by
  rw [parseWorkerRecords, JournalFile.readLines]
  cases file.readToString <;> rfl

def snapshotsOf (text : JournalText) (file : JournalFile) : HashMap String WorkerQueueSnapshotRecord :=
  ((file.readLines id).filter (!·.isEmpty)).foldl (snapshotLine text) ∅

theorem filter_splitOn (content : Text) :
    (content.splitOn '\n').filter (!·.isEmpty) = (LineLog.lines id content).filter (!·.isEmpty) := by
  rcases List.eq_nil_or_concat (content.splitOn '\n') with hNil | ⟨front, last, hLast⟩
  · exact absurd hNil (List.splitOn_ne_nil '\n' content)
  · rw [List.concat_eq_append] at hLast
    simp only [LineLog.lines, hLast, List.dropLast_concat, List.getLast?_concat, List.map_id, List.filter_append]
    cases last <;> simp [Option.filter]

theorem parseQueueSnapshotRecords_utf8 {content : Text} (hBytes : file.getD [] = utf8 content) :
    parseQueueSnapshotRecords text file = some (snapshotsOf text file) := by
  rw [snapshotsOf, JournalFile.readLines_of_getD hBytes, ← filter_splitOn]
  cases file with
  | none =>
    rw [show content = [] from Utf8.encode_injective hBytes.symm]
    rfl
  | some bytes =>
    rw [parseQueueSnapshotRecords, show bytes = utf8 content from hBytes, utf8, Utf8.decode_encode]
    rfl

theorem parseQueueSnapshotRecords_eq (hIntact : file.Intact) :
    parseQueueSnapshotRecords text file = some (snapshotsOf text file) := by
  obtain ⟨content, hBytes, -⟩ := hIntact
  exact parseQueueSnapshotRecords_utf8 hBytes

theorem openJournal_utf8 {content : Text} (hBytes : file.getD [] = utf8 content) :
    openJournal text file = some ⟨parseWorkerRecords text file, snapshotsOf text file⟩ := by
  rw [openJournal, parseQueueSnapshotRecords_utf8 hBytes]
  rfl

theorem openJournal_eq (hIntact : file.Intact) :
    openJournal text file = some ⟨parseWorkerRecords text file, snapshotsOf text file⟩ := by
  obtain ⟨content, hBytes, -⟩ := hIntact
  exact openJournal_utf8 hBytes

theorem recordLines_nonempty (hKeeps : ∀ record ∈ records, text.Keeps record) :
    (records.map text.toString).filter (!·.isEmpty) = records.map text.toString := by
  rw [List.filter_eq_self]
  rintro line hLine
  obtain ⟨record, hRecord, rfl⟩ := List.mem_map.mp hLine
  obtain ⟨body, hBody⟩ := (hKeeps record hRecord).object
  rw [hBody]
  rfl

theorem parseWorkerRecords_append (hIntact : file.Intact) (hKeeps : ∀ record ∈ records, text.Keeps record) :
    parseWorkerRecords text ((Write.append records).run text file)
      = records.foldl latestRecord (parseWorkerRecords text file) := by
  rw [parseWorkerRecords_eq, readLines_append hIntact hKeeps (stripCarriageReturn_unstripped hKeeps), List.foldl_append,
    ← parseWorkerRecords_eq]
  exact foldl_lines (fun record hRecord _ => latestLine_record (hKeeps record hRecord) _) _

theorem snapshotsOf_append (hIntact : file.Intact) (hKeeps : ∀ record ∈ records, text.Keeps record) :
    snapshotsOf text ((Write.append records).run text file) = records.foldl snapshotRecord (snapshotsOf text file) := by
  rw [snapshotsOf, readLines_append hIntact hKeeps id_unstripped, List.filter_append, List.foldl_append,
    recordLines_nonempty hKeeps]
  exact foldl_lines (fun record hRecord _ => snapshotLine_record (hKeeps record hRecord) _) _

theorem parseWorkerRecords_rewrite (hKeeps : ∀ record ∈ records, text.Keeps record) :
    parseWorkerRecords text ((Write.rewrite records).run text file) = records.foldl latestRecord ∅ := by
  rw [parseWorkerRecords_eq, readLines_rewrite hKeeps (stripCarriageReturn_unstripped hKeeps)]
  exact foldl_lines (fun record hRecord _ => latestLine_record (hKeeps record hRecord) _) _

theorem snapshotsOf_rewrite (hKeeps : ∀ record ∈ records, text.Keeps record) :
    snapshotsOf text ((Write.rewrite records).run text file) = records.foldl snapshotRecord ∅ := by
  rw [snapshotsOf, readLines_rewrite hKeeps id_unstripped, recordLines_nonempty hKeeps]
  exact foldl_lines (fun record hRecord _ => snapshotLine_record (hKeeps record hRecord) _) _

@[simp] theorem latestRecord_toValue (latest : HashMap String WorkerRecoveryRecord) (record : WorkerRecoveryRecord) :
    latestRecord latest record.toValue = latest.insert record.activeSessionId record := by
  rw [latestRecord, WorkerRecoveryRecord.ofValue_toValue]

@[simp] theorem latestRecord_snapshot (latest : HashMap String WorkerRecoveryRecord) (record : WorkerQueueSnapshotRecord) :
    latestRecord latest record.toValue = latest := by
  rw [latestRecord, WorkerRecoveryRecord.ofValue_snapshot]

@[simp] theorem snapshotRecord_workerRecord (latest : HashMap String WorkerQueueSnapshotRecord)
    (record : WorkerRecoveryRecord) : snapshotRecord latest record.toValue = latest := by
  rw [snapshotRecord, WorkerQueueSnapshotRecord.ofValue_workerRecord]

end WorkerRecoveryJournal

structure WorkerQueueSnapshotRecord.Lossless (record : WorkerQueueSnapshotRecord) : Prop where
  current : record = .current record.activeSessionId record.steering record.followUp record.recordedAt
  rows : ∀ item ∈ record.steering ++ record.followUp, item.customMessage ≠ some .null

variable {item : WorkerQueueItemRecord} {record : WorkerQueueSnapshotRecord} {v : Json}

theorem WorkerQueueItemRecord.withoutNull_eq (h : item.customMessage ≠ some .null) :
    item.withoutNull = item := by
  obtain ⟨message, priority, preview, customMessage, queueKey, queueVisible, policy⟩ := item
  cases customMessage with
  | none => rfl
  | some row =>
    have hRow : row ≠ .null := fun hNull => h (by rw [hNull])
    simp [withoutNull, Option.filter, hRow]

theorem WorkerQueueSnapshotRecord.Lossless.ofValue (h : record.Lossless) :
    ofValue record.toValue = some record := by
  have hSteering : record.steering.map (·.withoutNull) = record.steering :=
    (List.map_congr_left fun item hItem => WorkerQueueItemRecord.withoutNull_eq
      (h.rows item (List.mem_append_left _ hItem))).trans (List.map_id _)
  have hFollowUp : record.followUp.map (·.withoutNull) = record.followUp :=
    (List.map_congr_left fun item hItem => WorkerQueueItemRecord.withoutNull_eq
      (h.rows item (List.mem_append_right _ hItem))).trans (List.map_id _)
  have hRead := ofValue_toValue record.activeSessionId record.steering record.followUp record.recordedAt
  rw [← h.current, withoutNull, hSteering, hFollowUp] at hRead
  exact hRead

theorem Decode.Fields.defaulted_value_ne {fields : Decode.Fields} {name : String} {row : Option Json}
    (h : fields.defaulted name Decode.value = some row) : row ≠ some .null := by
  rintro rfl
  rw [Decode.Fields.defaulted_value rfl, Option.some.injEq, Option.filter_eq_some_iff] at h
  simp at h

theorem WorkerQueueItemRecord.ofValue_row (h : ofValue v = some item) :
    item.customMessage ≠ some .null := by
  simp only [ofValue, Option.bind_eq_bind, Option.bind_eq_some_iff, Option.pure_def, Option.some.injEq] at h
  obtain ⟨f, -, message, -, priority, -, preview, -, row, hRow, queueKey, -, visible, -, policy, -, rfl⟩ := h
  exact Decode.Fields.defaulted_value_ne hRow

theorem parseSnapshotEntry_row (h : parseSnapshotEntry v = some item) :
    item.customMessage ≠ some .null := by
  cases v with
  | string message =>
    rw [← Option.some.inj h]
    rintro ⟨⟩
  | object members => exact WorkerQueueItemRecord.ofValue_row h
  | null | bool | number | array => cases h

theorem parseSnapshotLane_row {value : Option Json} (h : item ∈ parseSnapshotLane value) :
    item.customMessage ≠ some .null := by
  unfold parseSnapshotLane at h
  split at h
  · obtain ⟨entry, -, hEntry⟩ := List.mem_filterMap.mp h
    exact parseSnapshotEntry_row hEntry
  · cases h

theorem WorkerQueueSnapshotRecord.ofValue_lossless (h : ofValue v = some record) : record.Lossless := by
  simp only [WorkerQueueSnapshotRecord.ofValue] at h
  split_ifs at h
  obtain ⟨activeSessionId, -, rfl⟩ := Option.map_eq_some_iff.mp h
  refine ⟨rfl, ?_⟩
  rintro item hItem
  rcases List.mem_append.mp hItem with hItem | hItem
  · exact parseSnapshotLane_row hItem
  · exact parseSnapshotLane_row hItem

namespace WorkerRecoveryJournal

variable {text : JournalText} {file : JournalFile} {env : JournalEnv} {j : WorkerRecoveryJournal}

/-- The records stand under their own sessions, and the snapshots can be written without loss. -/
structure WellFormed (j : WorkerRecoveryJournal) : Prop where
  latest : ∀ key record, j.latest.lookup key = some record → record.activeSessionId = key
  snapshots : ∀ key record, j.queueSnapshots.lookup key = some record → record.activeSessionId = key ∧ record.Lossless

theorem latest_insert {latest : HashMap String WorkerRecoveryRecord}
    (h : ∀ key record, latest.lookup key = some record → record.activeSessionId = key) (record : WorkerRecoveryRecord) :
    ∀ key record', (latest.insert record.activeSessionId record).lookup key = some record' →
      record'.activeSessionId = key := by
  intro key record' hLookup
  by_cases hKey : key = record.activeSessionId
  · subst hKey
    rw [AList.lookup_insert] at hLookup
    rw [← Option.some.inj hLookup]
  · rw [AList.lookup_insert_ne hKey] at hLookup
    exact h key record' hLookup

theorem snapshots_insert {latest : HashMap String WorkerQueueSnapshotRecord}
    (h : ∀ key record, latest.lookup key = some record → record.activeSessionId = key ∧ record.Lossless)
    {record : WorkerQueueSnapshotRecord} (hRecord : record.Lossless) :
    ∀ key record', (latest.insert record.activeSessionId record).lookup key = some record' →
      record'.activeSessionId = key ∧ record'.Lossless := by
  intro key record' hLookup
  by_cases hKey : key = record.activeSessionId
  · subst hKey
    rw [AList.lookup_insert] at hLookup
    rw [← Option.some.inj hLookup]
    exact ⟨rfl, hRecord⟩
  · rw [AList.lookup_insert_ne hKey] at hLookup
    exact h key record' hLookup

theorem openJournal_wellFormed (h : openJournal text file = some j) : j.WellFormed := by
  obtain ⟨queueSnapshots, hSnapshots, rfl⟩ := Option.map_eq_some_iff.mp h
  constructor
  · dsimp only
    rw [parseWorkerRecords_eq]
    refine List.foldlRecOn (motive := fun latest : HashMap String WorkerRecoveryRecord =>
      ∀ key record, latest.lookup key = some record → record.activeSessionId = key) _ _ ?_ ?_
    · rintro key record hLookup
      cases hLookup
    · rintro latest ih line -
      rw [latestLine]
      split
      · exact ih
      · split
        · exact ih
        · exact latest_insert ih _
  · dsimp only
    cases file with
    | none =>
      obtain rfl := Option.some.inj hSnapshots
      rintro key record hLookup
      cases hLookup
    | some bytes =>
      obtain ⟨contents, -, rfl⟩ := Option.map_eq_some_iff.mp hSnapshots
      refine List.foldlRecOn (motive := fun latest : HashMap String WorkerQueueSnapshotRecord =>
        ∀ key record, latest.lookup key = some record → record.activeSessionId = key ∧ record.Lossless) _ _ ?_ ?_
      · rintro key record hLookup
        cases hLookup
      · rintro latest ih line -
        rw [snapshotLine]
        split
        · exact ih
        · next entry hEntry =>
          obtain ⟨value, -, hValue⟩ := Option.bind_eq_some_iff.mp hEntry
          exact snapshots_insert ih (WorkerQueueSnapshotRecord.ofValue_lossless hValue)

def Replays (text : JournalText) (w : Journaled WorkerRecoveryJournal) : Prop :=
  ∃ reopened, openJournal text w.file = some reopened ∧
    HashMap.view reopened.latest = HashMap.view w.journal.latest ∧
    HashMap.view reopened.queueSnapshots = HashMap.view w.journal.queueSnapshots

structure Sound (text : JournalText) (w : Journaled WorkerRecoveryJournal) : Prop where
  intact : w.file.Intact
  wellFormed : w.journal.WellFormed
  replays : Replays text w

theorem latestRecord_congr {latest latest' : HashMap String WorkerRecoveryRecord}
    (h : HashMap.view latest = HashMap.view latest') (record : Json) :
    HashMap.view (latestRecord latest record) = HashMap.view (latestRecord latest' record) := by
  unfold latestRecord
  split <;> simp [h]

theorem snapshotRecord_congr {latest latest' : HashMap String WorkerQueueSnapshotRecord}
    (h : HashMap.view latest = HashMap.view latest') (record : Json) :
    HashMap.view (snapshotRecord latest record) = HashMap.view (snapshotRecord latest' record) := by
  unfold snapshotRecord
  split <;> simp [h]

theorem foldl_congr {σ : Type} {step : HashMap String σ → Json → HashMap String σ}
    (hStep : ∀ {m m' : HashMap String σ}, HashMap.view m = HashMap.view m' → ∀ record,
      HashMap.view (step m record) = HashMap.view (step m' record))
    (records : List Json) {m m' : HashMap String σ} (h : HashMap.view m = HashMap.view m') :
    HashMap.view (records.foldl step m) = HashMap.view (records.foldl step m') := by
  induction records generalizing m m' with
  | nil => exact h
  | cons record records ih => exact ih (hStep h record)

theorem Sound.append {w : Journaled WorkerRecoveryJournal} (hSound : Sound text w) {records : List Json}
    (hKeeps : ∀ record ∈ records, text.Keeps record) {next : WorkerRecoveryJournal} (hFormed : next.WellFormed)
    (hLatest : next.latest = records.foldl latestRecord w.journal.latest)
    (hSnapshots : next.queueSnapshots = records.foldl snapshotRecord w.journal.queueSnapshots) :
    Sound text ⟨next, (Write.append records).run text w.file⟩ := by
  obtain ⟨hIntact, -, reopened, hOpen, hViewLatest, hViewSnapshots⟩ := hSound
  rw [openJournal_eq hIntact] at hOpen
  obtain rfl := Option.some.inj hOpen
  refine ⟨append_intact hIntact, hFormed, _, openJournal_eq (append_intact hIntact), ?_, ?_⟩
  · dsimp only at hViewLatest ⊢
    rw [hLatest, parseWorkerRecords_append hIntact hKeeps]
    exact foldl_congr latestRecord_congr records hViewLatest
  · dsimp only at hViewSnapshots ⊢
    rw [hSnapshots, snapshotsOf_append hIntact hKeeps]
    exact foldl_congr snapshotRecord_congr records hViewSnapshots

theorem foldl_latest_values (records : List WorkerRecoveryRecord) (snapshots : List WorkerQueueSnapshotRecord)
    (latest : HashMap String WorkerRecoveryRecord) :
    (records.map WorkerRecoveryRecord.toValue ++ snapshots.map WorkerQueueSnapshotRecord.toValue).foldl latestRecord latest
      = records.foldl (fun m record => m.insert record.activeSessionId record) latest := by
  rw [List.foldl_append, List.foldl_map, List.foldl_map]
  simp only [latestRecord_toValue, latestRecord_snapshot]
  exact List.foldl_fixed _

theorem foldl_snapshot_values (records : List WorkerRecoveryRecord) {snapshots : List WorkerQueueSnapshotRecord}
    (hLossless : ∀ record ∈ snapshots, record.Lossless) (latest : HashMap String WorkerQueueSnapshotRecord) :
    (records.map WorkerRecoveryRecord.toValue ++ snapshots.map WorkerQueueSnapshotRecord.toValue).foldl snapshotRecord latest
      = snapshots.foldl (fun m record => m.insert record.activeSessionId record) latest := by
  rw [List.foldl_append, List.foldl_map, List.foldl_map]
  simp only [snapshotRecord_workerRecord, List.foldl_fixed]
  refine List.foldl_ext _ _ latest ?_
  intro m record hRecord
  rw [snapshotRecord, (hLossless record hRecord).ofValue]

theorem compact_sound (hFormed : j.WellFormed)
    (hKeeps : ∀ record ∈ j.compactRecords env, text.Keeps record) :
    Sound text ⟨j, (j.compactWrite env).run text file⟩ := by
  have hLossless : ∀ record ∈ HashMap.values env.order j.queueSnapshots, record.Lossless := by
    rintro record hRecord
    obtain ⟨key, hLookup⟩ := (HashMap.mem_values env.order).mp hRecord
    exact (hFormed.snapshots key record hLookup).2
  have hIntact : ((j.compactWrite env).run text file).Intact := @rewrite_intact text file _
  refine ⟨hIntact, hFormed, _, openJournal_eq hIntact, ?_, ?_⟩
  · dsimp only
    rw [compactWrite, parseWorkerRecords_rewrite hKeeps, compactRecords, foldl_latest_values]
    exact (HashMap.view_ofValues env.order id hFormed.latest).trans (HashMap.mapView_id _)
  · dsimp only
    rw [compactWrite, snapshotsOf_rewrite hKeeps, compactRecords, foldl_snapshot_values _ hLossless]
    exact (HashMap.view_ofValues env.order id fun key record hLookup =>
      (hFormed.snapshots key record hLookup).1).trans (HashMap.mapView_id _)

end WorkerRecoveryJournal

end PrimeAgent
