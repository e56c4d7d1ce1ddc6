import PrimeAgent.Manager.Chain

/-! # Failed writes and the parent chain of the file

A retained append whose write fails moves the leaf onto a row the file does not have. What is written next
hangs from that row, unless the whole file is rewritten first.
-/
namespace PrimeAgent

open ParentWalk LastSplit

def windowRows (rows : List FileEntry) : List FileEntry :=
  match splitAtLast FileEntry.isCompaction rows with
  | some (before, .compaction payload _, after) => retainedRows payload before ++ after
  | _ => rows

variable {row : FileEntry}

theorem appendMessage_plain (hDigest : isHarnessDigest row = false) (keep keep' : Option String) :
    appendMessage keep row = appendMessage keep' row := by
  cases row with
  | customMessage payload base =>
    have hType : (payload.customType == harnessDigestCustomType) = false := hDigest
    simp [appendMessage, hType]
  | _ => rfl

theorem mem_rowMessages {rows : List FileEntry} (hRow : row ∈ windowRows rows) (hDigest : isHarnessDigest row = false) :
    ∀ m ∈ appendMessage none row, m ∈ rowMessages rows := by
  intro m hMessage
  have hIn : ∀ (keep : Option String) (part : List FileEntry), row ∈ part → m ∈ messagesOf keep part :=
    fun keep part hPart => List.mem_flatMap.mpr ⟨row, hPart, appendMessage_plain hDigest none keep ▸ hMessage⟩
  cases hSplit : splitAtLast FileEntry.isCompaction rows with
  | none =>
    simp only [windowRows, hSplit] at hRow
    simp only [rowMessages, hSplit]
    exact hIn _ _ hRow
  | some found =>
    obtain ⟨before, compaction, after⟩ := found
    obtain ⟨_, hTest, _⟩ := splitAtLast_eq_some_iff.mp hSplit
    obtain ⟨payload, base, rfl⟩ := exists_compaction hTest
    simp only [windowRows, hSplit] at hRow
    simp only [rowMessages, hSplit]
    rcases List.mem_append.mp hRow with hRow | hRow
    · exact List.mem_append_left _ (List.mem_cons_of_mem _ (hIn _ _ hRow))
    · exact List.mem_append_right _ (hIn _ _ hRow)

section Prefix

theorem rowsAt_append_left {entries more : List FileEntry} {path : List Nat} (hIn : ∀ i ∈ path, i < entries.length) :
    rowsAt (entries ++ more) path = rowsAt entries path :=
  List.filterMap_congr fun i hi => List.getElem?_append_left (hIn i hi)

variable {m : SessionManager}

theorem Chained.threaded_left (h : Chained m) {held extra : List FileEntry} (hRows : m.fileEntries = held ++ extra) :
    Threaded held := by
  intro i j hParent
  obtain ⟨row, hAt, hNext⟩ := Option.bind_eq_some_iff.mp hParent
  obtain ⟨parent, hLink, hIndex⟩ := Option.bind_eq_some_iff.mp hNext
  have hAt : m.fileEntries[i]? = some row := by
    rw [hRows, List.getElem?_append_left (List.getElem?_eq_some_iff.mp hAt).1, hAt]
  obtain ⟨k, hKnown, hLt⟩ := h.parents i row parent hAt hLink
  rcases Nat.eq_zero_or_pos j with rfl | hPos
  · omega
  · obtain ⟨found, hFound, hId⟩ := Option.bind_eq_some_iff.mp ((indexById_eq_some_iff held parent j).mp hIndex).1
    have hFound : m.fileEntries[j]? = some found := by
      rw [hRows, List.getElem?_append_left (List.getElem?_eq_some_iff.mp hFound).1, hFound]
    obtain ⟨id, hSame, hOwn⟩ := h.own j found hFound (h.header.isHeader_of_pos hPos hFound)
    obtain rfl := Option.some.inj (hId.symm.trans hSame)
    rw [hOwn] at hKnown
    rwa [Option.some.inj hKnown]

def AtEnd (m : SessionManager) : Prop :=
  ∃ id, m.leafId = some id ∧ m.byId.get id = some (m.fileEntries.length - 1)

theorem leafIndex_none {entries : List FileEntry} (hSome : entries ≠ []) :
    leafIndex entries none = some (entries.length - 1) := by
  cases entries with
  | nil => exact absurd rfl hSome
  | cons row rest => rfl

theorem Chained.ne_nil (h : Chained m) : m.fileEntries ≠ [] := by
  obtain ⟨header, rest, hRows, _⟩ := h.header
  rw [hRows]
  exact List.cons_ne_nil _ _

theorem Chained.leafIndex_atEnd (h : Chained m) (hEnd : AtEnd m) :
    leafIndex m.fileEntries m.leafId = leafIndex m.fileEntries none := by
  obtain ⟨id, hLeaf, hIndex⟩ := hEnd
  rw [leafIndex_none h.ne_nil, hLeaf]
  unfold leafIndex
  split
  · rename_i hNone
    cases hNone
  · rw [if_neg (by simpa using h.ne_nil)]
  · rename_i hSome
    obtain rfl := Option.some.inj hSome
    exact h.indexById hIndex

theorem Chained.pathRows_atEnd (h : Chained m) (hEnd : AtEnd m) :
    pathRows m.fileEntries m.leafId = pathRows m.fileEntries none := by
  rw [pathRows, pathRows, contextPath, contextPath, contextWalk, contextWalk, h.leafIndex_atEnd hEnd]

variable {env : Env} {write : RowWrite}

theorem written_atEnd (h : Chained m) (hValid : write.Valid env m) : AtEnd (write.written env m) := by
  refine ⟨_, written_leafId hValid, ?_⟩
  have hLength : (write.written env m).fileEntries.length = m.fileEntries.length + 1 := by
    rw [written_fileEntries h.byId hValid, ← List.length_map FileEntry.id, attributed,
      applyUpdates_map _ FileEntry.setUsage_id]
    simp
  rw [written_byId_get hValid, if_pos rfl, hLength]
  rfl

theorem pathRows_concat (h : Chained m) (hEnd : AtEnd m) (hFresh : m.byId.contains (env.ids 0).whole = false)
    (hValid : write.Valid env m) (hLeaf : write.leafId = m.leafId)
    (hPlain : (write.written env m).fileEntries = m.fileEntries ++ [write.row env m]) :
    pathRows (m.fileEntries ++ [write.row env m]) none
      = pathRows m.fileEntries none ++ [write.row env m] := by
  obtain ⟨id, hLeafId, hIndex⟩ := hEnd
  have hAfter := written_chained h hFresh hValid
  have hThreaded := hAfter.threaded
  rw [hPlain] at hThreaded
  have hSame : ∀ (parent : String) (i : Nat), m.byId.get parent = some i →
      (indexById (m.fileEntries ++ [write.row env m])).get parent = some i := by
    intro parent i hKnown
    rw [← hPlain]
    refine hAfter.indexById ?_
    rw [written_byId_get hValid, if_neg, hKnown]
    rintro rfl
    rw [fresh_id hFresh] at hKnown
    cases hKnown
  have hParents : ∀ i, i < m.fileEntries.length →
      parentIndex (m.fileEntries ++ [write.row env m]) i = parentIndex m.fileEntries i := by
    intro i hLt
    rw [parentIndex, parentIndex, List.getElem?_append_left hLt]
    cases hAt : m.fileEntries[i]? with
    | none => rfl
    | some row =>
      cases hParent : row.parentId with
      | none => simp [hParent]
      | some parent =>
        obtain ⟨j, hKnown, _⟩ := h.parents i row parent hAt hParent
        simp only [Option.bind_some, hParent, hSame parent j hKnown, h.indexById hKnown]
  have hLast : m.fileEntries.length - 1 < m.fileEntries.length := h.lt_length hIndex
  have hLeafRow : (m.fileEntries ++ [write.row env m])[m.fileEntries.length]? = some (write.row env m) := by simp
  rw [pathRows_of_leaf (i := m.fileEntries.length) hThreaded (by rw [leafIndex_none (by simp)]; simp) hLeafRow,
    row_parentId hValid, hLeaf, hLeafId, ancestry, Option.bind_some, hSame id _ hIndex]
  congr 1
  show rowsAt (m.fileEntries ++ [write.row env m]) (ascent (parentIndex (m.fileEntries ++ [write.row env m]))
    (m.fileEntries.length - 1)) = _
  rw [ascent_congr h.threaded hParents hThreaded hLast, rowsAt_append_left (ascent_in_range h.threaded hLast), pathRows,
    contextPath_eq_ascent h.threaded (leafIndex_none h.ne_nil)]

end Prefix

def RowWrite.reported (serde : Serde) (env : Env) (w : World) (write : RowWrite) : Option StoreError :=
  (World.pushRow serde env write.retain (w.onManager (·.setLeafId write.leafId)) (write.row env w.manager)).2

inductive WriteOutcome (serde : Serde) (env : Env) (w : World) (write : RowWrite) (path : Path) : Prop
  | deferred : write.reported serde env w = none →
    (write.perform serde env w).manager = { write.written env w.manager with flushed := false } →
    (write.perform serde env w).disk = w.disk → (write.written env w.manager).hasAssistantEntry = false →
    WriteOutcome serde env w write path
  | rewritten : write.reported serde env w = none → env.canWrite = true →
    w.manager.flushed = false ∨ w.disk.contains path = false →
    (write.perform serde env w).manager = { write.written env w.manager with flushed := true } →
    (write.perform serde env w).disk
      = w.disk.insert path (utf8 (fileContent serde (w.manager.fileEntries ++ [write.row env w.manager]))) →
    WriteOutcome serde env w write path
  | appended (bytes : Bytes) : write.reported serde env w = none → w.manager.flushed = true → env.canWrite = true →
    (write.perform serde env w).manager = { write.written env w.manager with flushed := true } →
    w.disk.get path = some bytes →
    (write.perform serde env w).disk = w.disk.insert path (bytes ++ utf8 (writeLine serde (write.row env w.manager))) →
    WriteOutcome serde env w write path
  | retained : (write.reported serde env w).isSome → env.canWrite = false → write.retain = true →
    (write.perform serde env w).manager
      = { write.written env w.manager with flushed := (write.written env w.manager).flushed } →
    (write.perform serde env w).disk = w.disk → WriteOutcome serde env w write path
  | undone : (write.reported serde env w).isSome → env.canWrite = false → write.perform serde env w = w →
    WriteOutcome serde env w write path

section Outcome

variable {serde : Serde} {env : Env} {w : World} {path : Path} {write : RowWrite}

theorem World.persistEntry_failing {entry : FileEntry} (hPersist : w.manager.persist = true)
    (hPath : w.manager.sessionFile = some path) (hWrite : env.canWrite = false) :
    w.persistEntry serde env entry = .ok (w.setFlushed false) ∧ w.manager.hasAssistantEntry = false ∨
      ∃ error, w.persistEntry serde env entry = .error error := by
  unfold World.persistEntry
  simp only [hPath, hPersist, not_true, if_false]
  split
  · rename_i hDeferred
    exact Or.inl ⟨rfl, by simpa using hDeferred.1⟩
  · right
    split
    · simp only [World.tryRewriteFile, hPath, hPersist, not_true, if_false, hWrite]
      exact ⟨_, rfl⟩
    · unfold World.appendLine
      split <;> simp [hWrite]

theorem reported_of_ok {written : World} (h : World.persistEntry serde env
      ((w.onManager (·.setLeafId write.leafId)).onManager (·.push (write.row env w.manager)))
      (write.row env w.manager) = .ok written) : write.reported serde env w = none := by
  rw [RowWrite.reported, World.pushRow_of_ok write.retain h]

theorem writeOutcome (hPersist : w.manager.persist = true) (hPath : w.manager.sessionFile = some path)
    (hValid : write.Valid env w.manager) : WriteOutcome serde env w write path := by
  cases hWrite : env.canWrite with
  | true =>
    obtain ⟨written, hWritten, hCases⟩ := @World.persistEntry_outcome serde env
      ((w.onManager (·.setLeafId write.leafId)).onManager (·.push (write.row env w.manager))) path
      (write.row env w.manager) hPersist hPath hWrite
    have hReported := reported_of_ok hWritten
    rcases hCases with ⟨rfl, hNone, _⟩ | ⟨hAnew, rfl⟩ | ⟨hFlushed, bytes, hBytes, rfl⟩
    · obtain ⟨hManager, hDisk⟩ := World.perform_of_persist hValid hWritten rfl
      exact .deferred hReported hManager hDisk ((written_hasAssistantEntry hValid).trans hNone)
    · obtain ⟨hManager, hDisk⟩ := World.perform_of_persist hValid hWritten rfl
      exact .rewritten hReported hWrite hAnew hManager hDisk
    · have hFlushed : w.manager.flushed = true := hFlushed
      obtain ⟨hManager, hDisk⟩ :=
        @World.perform_of_persist serde env w write _ true hValid hWritten (by rw [← hFlushed]; rfl)
      exact .appended bytes hReported hFlushed hWrite hManager hBytes hDisk
  | false =>
    rcases @World.persistEntry_failing serde env
      ((w.onManager (·.setLeafId write.leafId)).onManager (·.push (write.row env w.manager))) path
      (write.row env w.manager) hPersist hPath hWrite with ⟨hWritten, hNone⟩ | ⟨error, hError⟩
    · obtain ⟨hManager, hDisk⟩ := World.perform_of_persist hValid hWritten rfl
      exact .deferred (reported_of_ok hWritten) hManager hDisk ((written_hasAssistantEntry hValid).trans hNone)
    · have hPush := World.pushRow_of_error write.retain hError
      have hReported : (write.reported serde env w).isSome := by rw [RowWrite.reported, hPush]; rfl
      cases hRetain : write.retain with
      | true =>
        have hSettle : write.settle = id := by
          cases hValid.settles with
          | plain hSettle _ => exact hSettle
          | label _ hStrict _ _ | usage _ _ hStrict _ _ _ => rw [hRetain] at hStrict; cases hStrict
        have hPerform := Op.perform_of_failed hPush
        rw [hRetain, if_pos rfl, if_pos rfl] at hPerform
        refine .retained hReported hWrite hRetain ?_ (by rw [hPerform]; rfl)
        rw [RowWrite.written, hSettle]
        exact congrArg World.manager hPerform
      | false =>
        refine .undone hReported hWrite ?_
        rw [Op.perform_of_failed hPush, hRetain]
        rfl

theorem perform_disk_failing (hPersist : w.manager.persist = true) (hPath : w.manager.sessionFile = some path)
    (hValid : write.Valid env w.manager) (hWrite : env.canWrite = false) :
    (write.perform serde env w).disk = w.disk := by
  rcases @writeOutcome serde env w path write hPersist hPath hValid with
    ⟨_, _, hDisk, _⟩ | ⟨_, hCan, _⟩ | ⟨_, _, _, hCan, _⟩ | ⟨_, _, _, _, hDisk⟩ | ⟨_, _, hSame⟩
  · exact hDisk
  · rw [hWrite] at hCan
    cases hCan
  · rw [hWrite] at hCan
    cases hCan
  · exact hDisk
  · rw [hSame]

theorem perform_disk_appending {bytes : Bytes} (hPersist : w.manager.persist = true)
    (hPath : w.manager.sessionFile = some path) (hValid : write.Valid env w.manager) (hWrite : env.canWrite = true)
    (hFlushed : w.manager.flushed = true) (hBytes : w.disk.get path = some bytes)
    (hAssistant : (write.written env w.manager).hasAssistantEntry = true) :
    (write.perform serde env w).disk
      = w.disk.insert path (bytes ++ utf8 (writeLine serde (write.row env w.manager))) := by
  rcases @writeOutcome serde env w path write hPersist hPath hValid with
    ⟨_, _, _, hNone⟩ | ⟨_, _, hAnew, _⟩ | ⟨bytes', _, _, _, _, hBytes', hDisk⟩ | ⟨_, hCan, _⟩ | ⟨_, hCan, _⟩
  · rw [hAssistant] at hNone
    cases hNone
  · rw [hFlushed, KeyMap.contains, hBytes] at hAnew
    rcases hAnew with hAnew | hAnew <;> cases hAnew
  · rwa [Option.some.inj (hBytes.symm.trans hBytes')]
  · rw [hWrite] at hCan
    cases hCan
  · rw [hWrite] at hCan
    cases hCan

theorem written_fileEntries_plain (h : Chained w.manager) (hValid : write.Valid env w.manager)
    (hWhy : write.retain = true ∨ (write.written env w.manager).hasAssistantEntry = false) :
    (write.written env w.manager).fileEntries = w.manager.fileEntries ++ [write.row env w.manager] := by
  have hAssistant := written_hasAssistantEntry hValid
  rw [RowWrite.written, pushed_eq]
  cases hValid.settles with
  | plain hSettle _ | label payload _ _ hSettle => rw [hSettle]; rfl
  | usage payload position hStrict _ hTarget _ =>
    exfalso
    rcases hWhy with hRetain | hNone
    · rw [hStrict] at hRetain
      cases hRetain
    · obtain ⟨_, hRow⟩ := Option.filter_eq_some_iff.mp hTarget
      obtain ⟨message, hMessage⟩ := Option.isSome_iff_exists.mp hRow
      obtain ⟨row, hAt, hRow⟩ := Option.bind_eq_some_iff.mp hMessage
      have hKnown := h.assistants row (List.mem_of_getElem? hAt) (by rw [hRow]; rfl)
      rw [hAssistant] at hNone
      have hPushed : (w.manager.hasAssistantEntry || _) = false := hNone
      rw [hKnown, Bool.true_or] at hPushed
      cases hPushed

end Outcome

def treeIds (entries : List FileEntry) : List String :=
  (entries.filter (!·.isHeader)).filterMap FileEntry.id

def RowWrite.saves (serde : Serde) (env : Env) (w : World) (write : RowWrite) : Bool :=
  (write.reported serde env w).isNone && (write.perform serde env w).manager.flushed

structure AppendStep (serde : Serde) (env : Env) (w : World) (op : Op) (write : RowWrite) (w' : World) : Prop where
  run : op.run serde env w = some w'
  writes : op.rowWrite? env w.manager = some write
  leaf : write.leafId = w.manager.leafId
  fresh : w.manager.byId.contains (env.ids 0).whole = false
  keeps : ∀ row ∈ w'.manager.fileEntries, serde.Keeps row

/-- The runs of appends on a flushed session, with the ids of the rows whose own write succeeded, and whether
any write of the run did. -/
inductive AppendRun (serde : Serde) (allowed : Env → World → Prop) : World → List String → Bool → Prop
  | start {w : World} {path : Path} : DurableRun serde w → w.manager.flushed = true →
    w.manager.sessionFile = some path → w.disk.contains path = true →
    AppendRun serde allowed w (treeIds w.manager.fileEntries) false
  | step {w w' : World} {saved : List String} {wrote : Bool} (env : Env) (op : Op) (write : RowWrite) :
    AppendRun serde allowed w saved wrote → AppendStep serde env w op write w' → allowed env w →
    AppendRun serde allowed w' (if write.saves serde env w then saved ++ (write.row env w.manager).id.toList else saved)
      (wrote || write.saves serde env w)

/-- The file parses to rows whose last path has every saved row of the active path, and the context there has
the messages of those no compaction on it has summarised. -/
def Connected (serde : Serde) (w : World) (saved : List String) : Prop :=
  ∃ path entries, w.manager.sessionFile = some path ∧ FileHolds serde w.disk path entries ∧
    ∀ row ∈ pathRows w.manager.fileEntries w.manager.leafId, (∃ id ∈ saved, row.id = some id) →
      row ∈ pathRows entries none ∧
        (row ∈ windowRows (pathRows entries none) → isHarnessDigest row = false →
          ∀ m ∈ appendMessage none row, m ∈ (buildSessionContext entries none).messages)

def FindsFileWhole (serde : Serde) (env : Env) (w : World) : Prop :=
  w.manager.flushed = true → env.canWrite = true → ∀ path, w.manager.sessionFile = some path →
    FileHolds serde w.disk path w.manager.fileEntries

structure Tracked (serde : Serde) (w : World) (saved : List String) (wrote : Bool) (held extra : List FileEntry) :
    Prop where
  chained : Chained w.manager
  persist : w.manager.persist = true
  keeps : ∀ row ∈ w.manager.fileEntries, serde.Keeps row
  folded : applyChildUsageAttributions w.manager.fileEntries = w.manager.fileEntries
  targets : ∀ id ∈ w.manager.fileEntries.filterMap attributionTarget, (w.manager.byId.get id).isSome
  rows : w.manager.fileEntries = held ++ extra
  file : ∃ path lines, w.manager.sessionFile = some path ∧ WrittenAs serde w.disk path held lines
  known : ∀ id ∈ saved, (w.manager.byId.get id).isSome
  unsaved : ∀ row ∈ extra, ∀ id ∈ saved, row.id ≠ some id
  ends : wrote = true → AtEnd w.manager ∧ pathRows w.manager.fileEntries none = pathRows held none ++ extra

section Runs

variable {serde : Serde} {env : Env} {w w' : World} {saved : List String} {wrote : Bool} {held extra : List FileEntry}
  {path : Path} {flushed : Bool} {write : RowWrite}

theorem Tracked.connected (h : Tracked serde w saved true held extra) : Connected serde w saved := by
  obtain ⟨path, lines, hPath, hLines⟩ := h.file
  obtain ⟨hEnd, hPathRows⟩ := h.ends rfl
  refine ⟨path, held, hPath, hLines.fileHolds, ?_⟩
  intro row hRow hSaved
  rw [h.chained.pathRows_atEnd hEnd, hPathRows] at hRow
  have hHeld : row ∈ pathRows held none := by
    rcases List.mem_append.mp hRow with hHeld | hExtra
    · exact hHeld
    · obtain ⟨id, hIn, hId⟩ := hSaved
      exact absurd hId (h.unsaved row hExtra id hIn)
  refine ⟨hHeld, fun hWindow hDigest m hMessage => ?_⟩
  rw [buildSessionContext_eq (h.chained.threaded_left h.rows)]
  exact mem_rowMessages hWindow hDigest m hMessage

theorem mem_treeIds {entries : List FileEntry} {id : String} (h : id ∈ treeIds entries) :
    ∃ (i : Nat) (row : FileEntry), entries[i]? = some row ∧ row.isHeader = false ∧ row.id = some id := by
  obtain ⟨row, hRow, hId⟩ := List.mem_filterMap.mp h
  obtain ⟨hIn, hTree⟩ := List.mem_filter.mp hRow
  obtain ⟨i, hAt⟩ := List.mem_iff_getElem?.mp hIn
  exact ⟨i, row, hAt, by simpa using hTree, hId⟩

theorem durableRun_tracked (h : DurableRun serde w) (hFlushed : w.manager.flushed = true)
    (hPath : w.manager.sessionFile = some path) (hThere : w.disk.contains path = true) :
    Tracked serde w (treeIds w.manager.fileEntries) false w.manager.fileEntries [] := by
  have hIn := durableRun_inStep h
  have hChained := durableRun_chained h
  obtain ⟨lines, hLines⟩ := hIn.saved path hPath hFlushed hThere
  refine ⟨hChained, hIn.persist, hIn.keeps, hIn.folded, hIn.targets, (List.append_nil _).symm,
    ⟨path, lines, hPath, hLines⟩, ?_, by simp, by simp⟩
  intro id hId
  obtain ⟨i, row, hAt, hTree, hRowId⟩ := mem_treeIds hId
  obtain ⟨id', hSame, hOwn⟩ := hChained.own i row hAt hTree
  obtain rfl := Option.some.inj (hRowId.symm.trans hSame)
  rw [hOwn]
  rfl

theorem Tracked.after (h : Tracked serde w saved wrote held extra)
    (hFresh : w.manager.byId.contains (env.ids 0).whole = false) (hValid : write.Valid env w.manager)
    (hManager : w'.manager = { write.written env w.manager with flushed := flushed })
    (hKeeps : ∀ row ∈ w'.manager.fileEntries, serde.Keeps row) {saved' : List String} {wrote' : Bool}
    {held' extra' : List FileEntry} (hRows : (write.written env w.manager).fileEntries = held' ++ extra')
    (hFile : ∃ path lines, w.manager.sessionFile = some path ∧ WrittenAs serde w'.disk path held' lines)
    (hKnown : ∀ id ∈ saved', id ∈ saved ∨ (write.row env w.manager).id = some id)
    (hUnsaved : ∀ row ∈ extra', ∀ id ∈ saved', row.id ≠ some id)
    (hEnds : wrote' = true → pathRows (write.written env w.manager).fileEntries none = pathRows held' none ++ extra') :
    Tracked serde w' saved' wrote' held' extra' := by
  have hNew := row_unattributed h.targets hFresh hValid
  have hEntries := written_fileEntries h.chained.byId hValid
  refine ⟨?_, ?_, hKeeps, ?_, ?_, ?_, ?_, ?_, hUnsaved, ?_⟩
  · rw [hManager]
    exact (written_chained h.chained hFresh hValid).setFlushed flushed
  · rw [hManager]
    exact (written_persist hValid).trans h.persist
  · rw [hManager]
    show applyChildUsageAttributions (write.written env w.manager).fileEntries = (write.written env w.manager).fileEntries
    have hFold := applyChildUsageAttributions_concat hNew
    rw [h.folded] at hFold
    rw [hEntries, ← hFold, applyChildUsageAttributions_idem]
  · rw [hManager]
    exact written_targets h.chained.byId h.targets hValid
  · rw [hManager]
    exact hRows
  · obtain ⟨path, lines, hPath, hLines⟩ := hFile
    refine ⟨path, lines, ?_, hLines⟩
    rw [hManager]
    exact (written_sessionFile hValid).trans hPath
  · intro id hId
    rw [hManager]
    show ((write.written env w.manager).byId.get id).isSome = true
    rw [written_byId_get hValid]
    rcases hKnown id hId with hSaved | hRow
    · split
      · rfl
      · exact h.known id hSaved
    · rw [row_id hValid] at hRow
      rw [if_pos (Option.some.inj hRow).symm]
      rfl
  · intro hWrote
    rw [hManager]
    exact ⟨written_atEnd h.chained hValid, hEnds hWrote⟩

theorem Tracked.inMemory (h : Tracked serde w saved wrote held extra)
    (hFresh : w.manager.byId.contains (env.ids 0).whole = false) (hValid : write.Valid env w.manager)
    (hLeaf : write.leafId = w.manager.leafId)
    (hManager : w'.manager = { write.written env w.manager with flushed := flushed }) (hDisk : w'.disk = w.disk)
    (hKeeps : ∀ row ∈ w'.manager.fileEntries, serde.Keeps row)
    (hPlain : (write.written env w.manager).fileEntries = w.manager.fileEntries ++ [write.row env w.manager]) :
    Tracked serde w' saved wrote held (extra ++ [write.row env w.manager]) := by
  refine h.after hFresh hValid hManager hKeeps ?_ ?_ (fun id hId => Or.inl hId) ?_ ?_
  · rw [hPlain, h.rows, List.append_assoc]
  · rw [hDisk]
    exact h.file
  · intro row hRow id hId
    rcases List.mem_append.mp hRow with hOld | hOld
    · exact h.unsaved row hOld id hId
    · rw [List.mem_singleton.mp hOld, row_id hValid]
      intro hSame
      have hKnown := h.known id hId
      rw [← Option.some.inj hSame, fresh_id hFresh] at hKnown
      cases hKnown
  · intro hWrote
    obtain ⟨hEnd, hPath⟩ := h.ends hWrote
    rw [hPlain, pathRows_concat h.chained hEnd hFresh hValid hLeaf hPlain, hPath, List.append_assoc]

theorem Tracked.inFile (h : Tracked serde w saved wrote held extra) {write : RowWrite} {flushed : Bool} {path : Path}
    {lines : List FileEntry} (hFresh : w.manager.byId.contains (env.ids 0).whole = false)
    (hValid : write.Valid env w.manager)
    (hManager : w'.manager = { write.written env w.manager with flushed := flushed })
    (hKeeps : ∀ row ∈ w'.manager.fileEntries, serde.Keeps row) (hPath : w.manager.sessionFile = some path)
    (hLines : WrittenAs serde w'.disk path (write.written env w.manager).fileEntries lines) :
    Tracked serde w' (saved ++ (write.row env w.manager).id.toList) true
      (write.written env w.manager).fileEntries [] := by
  refine h.after hFresh hValid hManager hKeeps (List.append_nil _).symm ⟨path, lines, hPath, hLines⟩ ?_ (by simp)
    fun _ => (List.append_nil _).symm
  intro id hId
  rcases List.mem_append.mp hId with hSaved | hRow
  · exact Or.inl hSaved
  · exact Or.inr (Option.mem_toList.mp hRow)

instance (disk : Disk) (path : Path) (entries : List FileEntry) : Decidable (FileHolds serde disk path entries) :=
  inferInstanceAs (Decidable (_ = _))

theorem FileHolds.unique {entries entries' : List FileEntry} (h : FileHolds serde w.disk path entries)
    (h' : FileHolds serde w.disk path entries') : entries = entries' :=
  Option.some.inj (h.symm.trans h')

theorem appendStep_tracked {op : Op} (h : Tracked serde w saved wrote held extra)
    (hStep : AppendStep serde env w op write w') (hWhole : FindsFileWhole serde env w) :
    ∃ held' extra', Tracked serde w'
      (if write.saves serde env w then saved ++ (write.row env w.manager).id.toList else saved)
      (wrote || write.saves serde env w) held' extra' := by
  obtain ⟨hRun, hRow, hLeaf, hFresh, hKeeps⟩ := hStep
  have hValid := Op.rowWrite?_valid hRow
  rw [Op.run_of_rowWrite hRow] at hRun
  obtain rfl := Option.some.inj hRun
  obtain ⟨path, lines, hPath, hLines⟩ := h.file
  have hNew := row_unattributed h.targets hFresh hValid
  have hEntries := written_fileEntries h.chained.byId hValid
  rcases @writeOutcome serde env w path write h.persist hPath hValid with
    ⟨_, hManager, hDisk, hNone⟩ | ⟨hReported, _, _, hManager, hDisk⟩ |
    ⟨bytes, hReported, hFlushed, hWrite, hManager, hBytes, hDisk⟩ | ⟨hFailed, _, hRetain, hManager, hDisk⟩ |
    ⟨hFailed, _, hSame⟩
  · have hSaves : write.saves serde env w = false := by rw [RowWrite.saves, hManager, Bool.and_false]
    rw [hSaves, Bool.or_false, if_neg (by simp)]
    exact ⟨held, _, h.inMemory hFresh hValid hLeaf hManager hDisk hKeeps
      (written_fileEntries_plain h.chained hValid (Or.inr hNone))⟩
  · have hSaves : write.saves serde env w = true := by rw [RowWrite.saves, hManager, hReported]; rfl
    rw [hSaves, Bool.or_true, if_pos rfl]
    have hFold := applyChildUsageAttributions_concat hNew
    rw [h.folded, ← hEntries] at hFold
    have hAll : ∀ row ∈ w.manager.fileEntries ++ [write.row env w.manager], serde.Keeps row := by
      intro row hMem
      rcases List.mem_append.mp hMem with hMem | hMem
      · exact h.keeps row hMem
      · rw [List.mem_singleton.mp hMem]
        refine hKeeps _ ?_
        rw [hManager]
        show write.row env w.manager ∈ (write.written env w.manager).fileEntries
        rw [hEntries]
        exact mem_attributed_self _ _
    have hAfter := @WrittenAs.rewrite serde w.disk path _ (by simp) hAll
    rw [hFold, ← hDisk] at hAfter
    exact ⟨_, [], h.inFile hFresh hValid hManager hKeeps hPath hAfter⟩
  · have hSaves : write.saves serde env w = true := by rw [RowWrite.saves, hManager, hReported]; rfl
    rw [hSaves, Bool.or_true, if_pos rfl]
    obtain rfl : held = w.manager.fileEntries := hLines.fileHolds.unique (hWhole hFlushed hWrite path hPath)
    have hRowKeeps : serde.Keeps (write.row env w.manager) := by
      refine hKeeps _ ?_
      rw [hManager]
      show write.row env w.manager ∈ (write.written env w.manager).fileEntries
      rw [hEntries]
      exact mem_attributed_self _ _
    have hAfter := hLines.append hRowKeeps hNew hBytes
    rw [← hDisk, ← hEntries] at hAfter
    exact ⟨_, [], h.inFile hFresh hValid hManager hKeeps hPath hAfter⟩
  · have hSaves : write.saves serde env w = false := by
      rw [RowWrite.saves, Option.isNone_eq_false_iff.mpr hFailed, Bool.false_and]
    rw [hSaves, Bool.or_false, if_neg (by simp)]
    exact ⟨held, _, h.inMemory hFresh hValid hLeaf hManager hDisk hKeeps
      (written_fileEntries_plain h.chained hValid (Or.inl hRetain))⟩
  · have hSaves : write.saves serde env w = false := by
      rw [RowWrite.saves, Option.isNone_eq_false_iff.mpr hFailed, Bool.false_and]
    rw [hSaves, Bool.or_false, if_neg (by simp), hSame]
    exact ⟨held, extra, h⟩

theorem appendRun_connected (h : AppendRun serde (FindsFileWhole serde) w saved true) : Connected serde w saved := by
  suffices hTracked : ∀ wrote, AppendRun serde (FindsFileWhole serde) w saved wrote →
      ∃ held extra, Tracked serde w saved wrote held extra by
    obtain ⟨held, extra, hTracked⟩ := hTracked true h
    exact hTracked.connected
  intro wrote hRun
  clear h
  induction hRun with
  | start hRun hFlushed hPath hThere => exact ⟨_, [], durableRun_tracked hRun hFlushed hPath hThere⟩
  | step env op write _ hStep hWhole ih =>
    obtain ⟨held, extra, hTracked⟩ := ih
    exact appendStep_tracked hTracked hStep hWhole

end Runs

def answeredWorld : World :=
  (((World.persisted (tableSerde answeredTable) sampleEnv KeyMap.empty "/w" "/s").appendMessage
    (tableSerde answeredTable) sampleEnv (.user ⟨.text "hello", 1⟩)).1.appendMessage (tableSerde answeredTable)
    (envDrawing "1b2c3d4e" true) (.assistant answer)).1

theorem answeredWorld_computes :
    (∀ rows ∈ [(World.persisted (tableSerde answeredTable) sampleEnv KeyMap.empty "/w" "/s").manager.fileEntries,
        ((World.persisted (tableSerde answeredTable) sampleEnv KeyMap.empty "/w" "/s").appendMessage
          (tableSerde answeredTable) sampleEnv (.user ⟨.text "hello", 1⟩)).1.manager.fileEntries,
        answeredWorld.manager.fileEntries], ∀ row ∈ rows, row ∈ answeredTable.map (·.row)) ∧
    (answeredWorld.manager.persist = true ∧ answeredWorld.manager.flushed = true ∧
      answeredWorld.manager.sessionFile = some "/s/session.jsonl" ∧
      answeredWorld.disk.contains "/s/session.jsonl" = true) ∧
    getSessionFilePath "/s" "session" = "/s/session.jsonl" ∧
    applyChildUsageAttributions ([headerLine, helloLine, answerLine].map (·.row)) =
      answeredWorld.manager.fileEntries ∧
    (∀ row ∈ [headerLine, helloLine, answerLine].map (·.row), row ∈ answeredTable.map (·.row)) ∧
    treeIds answeredWorld.manager.fileEntries = ["0a1b2c3d", "1b2c3d4e"] := by
  decide +kernel

theorem answeredWorld_durable : DurableRun (tableSerde answeredTable) answeredWorld := by
  have hRows := answeredWorld_computes.1
  refine .step (envDrawing "1b2c3d4e" true) (.appendMessage (.assistant answer)) (.step sampleEnv
    (.appendMessage (.user ⟨.text "hello", 1⟩)) (.persisted sampleEnv KeyMap.empty "/w" "/s" ?_)
    ⟨rfl, rfl, rfl, by decide, ?_⟩) ⟨rfl, rfl, rfl, by decide, ?_⟩
  · exact fun row hRow => answeredTable_keeps row (hRows _ (.head _) row hRow)
  · exact fun row hRow => answeredTable_keeps row (hRows _ (.tail _ (.head _)) row hRow)
  · exact fun row hRow => answeredTable_keeps row (hRows _ (.tail _ (.tail _ (.head _))) row hRow)

def asked (canWrite : Bool) : World :=
  (answeredWorld.appendMessageRetained (tableSerde answeredTable) (envDrawing "2c3d4e5f" canWrite)
    (.user ⟨.text "more", 1⟩)).1

def questioned (first second : Bool) : World :=
  ((asked first).appendMessageRetained (tableSerde answeredTable) (envDrawing "3d4e5f60" second)
    (.user ⟨.text "last", 1⟩)).1

theorem answeredWorld_flushed : answeredWorld.manager.persist = true ∧ answeredWorld.manager.flushed = true ∧
    answeredWorld.manager.sessionFile = some "/s/session.jsonl" ∧
    answeredWorld.disk.contains "/s/session.jsonl" = true :=
  answeredWorld_computes.2.1

theorem answeredWorld_bytes : answeredWorld.disk.get "/s/session.jsonl"
    = some (utf8 (([headerLine, helloLine, answerLine].map (·.row)).flatMap (writeLine (tableSerde answeredTable)))) := by
  have hPath : getSessionFilePath "/s" "session" = "/s/session.jsonl" := answeredWorld_computes.2.2.1
  have hDisk : answeredWorld.disk = KeyMap.empty.insert (getSessionFilePath "/s" "session")
    (utf8 (fileContent (tableSerde answeredTable) ([headerLine, helloLine, answerLine].map (·.row)))) := rfl
  rw [hDisk, hPath, KeyMap.get_insert_self, fileContent_eq _ (by simp)]

theorem answeredWorld_holds :
    FileHolds (tableSerde answeredTable) answeredWorld.disk "/s/session.jsonl" answeredWorld.manager.fileEntries := by
  have hLines : WrittenAs (tableSerde answeredTable) answeredWorld.disk "/s/session.jsonl"
      answeredWorld.manager.fileEntries ([headerLine, helloLine, answerLine].map (·.row)) := by
    obtain ⟨-, -, -, hAttributed, hRows, -⟩ := answeredWorld_computes
    exact ⟨answeredWorld_bytes, fun row hRow => answeredTable_keeps row (hRows row hRow), hAttributed⟩
  exact hLines.fileHolds

def disconnectedRows : List FileEntry :=
  [headerLine, helloLine, answerLine, lastLine].map (·.row)

/-- What `append_message_retained` writes. -/
def retainedMessage (m : SessionManager) (message : AgentMessage) : RowWrite :=
  ⟨true, m.leafId, .message message, id⟩

theorem questioned_computes :
    (∀ first second, (∀ row ∈ (asked first).manager.fileEntries, row ∈ answeredTable.map (·.row)) ∧
      (∀ row ∈ (questioned first second).manager.fileEntries, row ∈ answeredTable.map (·.row)) ∧
      answeredWorld.manager.byId.contains ((envDrawing "2c3d4e5f" first).ids 0).whole = false ∧
      (asked first).manager.byId.contains ((envDrawing "3d4e5f60" second).ids 0).whole = false ∧
      RowWrite.saves (tableSerde answeredTable) (envDrawing "2c3d4e5f" first) answeredWorld
        (retainedMessage answeredWorld.manager (.user ⟨.text "more", 1⟩)) = first ∧
      RowWrite.saves (tableSerde answeredTable) (envDrawing "3d4e5f60" second) (asked first)
        (retainedMessage (asked first).manager (.user ⟨.text "last", 1⟩)) = second ∧
      ((retainedMessage answeredWorld.manager (.user ⟨.text "more", 1⟩)).row (envDrawing "2c3d4e5f" first)
        answeredWorld.manager).id = some "2c3d4e5f" ∧
      ((retainedMessage (asked first).manager (.user ⟨.text "last", 1⟩)).row (envDrawing "3d4e5f60" second)
        (asked first).manager).id = some "3d4e5f60") ∧
    ((asked false).manager.persist = true ∧
      (asked false).manager.sessionFile = some "/s/session.jsonl" ∧ (asked false).manager.flushed = true ∧
      ((retainedMessage (asked false).manager (.user ⟨.text "last", 1⟩)).written (envDrawing "3d4e5f60" true)
        (asked false).manager).hasAssistantEntry = true ∧
      (retainedMessage (asked false).manager (.user ⟨.text "last", 1⟩)).row (envDrawing "3d4e5f60" true)
        (asked false).manager = lastLine.row) ∧
    applyChildUsageAttributions disconnectedRows = disconnectedRows ∧
    (∀ row ∈ disconnectedRows, row ∈ answeredTable.map (·.row)) ∧
    ((questioned false true).manager.sessionFile = some "/s/session.jsonl" ∧
      helloLine.row ∈ pathRows (questioned false true).manager.fileEntries (questioned false true).manager.leafId ∧
      helloLine.row ∉ pathRows disconnectedRows none) := by
  decide +kernel

theorem questioned_run {allowed : Env → World → Prop} (first second : Bool)
    (hFirst : allowed (envDrawing "2c3d4e5f" first) answeredWorld)
    (hSecond : allowed (envDrawing "3d4e5f60" second) (asked first)) :
    ∃ saved wrote, AppendRun (tableSerde answeredTable) allowed (questioned first second) saved wrote ∧
      saved = ["0a1b2c3d", "1b2c3d4e"] ++ (if first then ["2c3d4e5f"] else []) ++ (if second then ["3d4e5f60"] else []) ∧
      wrote = (first || second) := by
  obtain ⟨_, hFlushed, hPath, hThere⟩ := answeredWorld_flushed
  obtain ⟨hAsked, hQuestioned, hFirstId, hSecondId, hFirstSaves, hSecondSaves, hFirstRow, hSecondRow⟩ :=
    questioned_computes.1 first second
  have hTree := answeredWorld_computes.2.2.2.2.2
  refine ⟨_, _, .step (envDrawing "3d4e5f60" second) (.appendMessageRetained (.user ⟨.text "last", 1⟩)) _
    (.step (envDrawing "2c3d4e5f" first) (.appendMessageRetained (.user ⟨.text "more", 1⟩)) _
      (.start answeredWorld_durable hFlushed hPath hThere) ⟨rfl, rfl, rfl, ?_, ?_⟩ hFirst) ⟨rfl, rfl, rfl, ?_, ?_⟩
      hSecond, ?_, ?_⟩
  · exact hFirstId
  · exact fun row hRow => answeredTable_keeps row (hAsked row hRow)
  · exact hSecondId
  · exact fun row hRow => answeredTable_keeps row (hQuestioned row hRow)
  · change (if RowWrite.saves _ _ (asked first) (retainedMessage (asked first).manager (.user ⟨.text "last", 1⟩)) = true
      then (if RowWrite.saves _ _ answeredWorld (retainedMessage answeredWorld.manager (.user ⟨.text "more", 1⟩)) = true
          then treeIds answeredWorld.manager.fileEntries ++ ((retainedMessage answeredWorld.manager
            (.user ⟨.text "more", 1⟩)).row (envDrawing "2c3d4e5f" first) answeredWorld.manager).id.toList
          else treeIds answeredWorld.manager.fileEntries) ++ ((retainedMessage (asked first).manager
            (.user ⟨.text "last", 1⟩)).row (envDrawing "3d4e5f60" second) (asked first).manager).id.toList
      else if RowWrite.saves _ _ answeredWorld (retainedMessage answeredWorld.manager (.user ⟨.text "more", 1⟩)) = true
        then treeIds answeredWorld.manager.fileEntries ++ ((retainedMessage answeredWorld.manager
          (.user ⟨.text "more", 1⟩)).row (envDrawing "2c3d4e5f" first) answeredWorld.manager).id.toList
        else treeIds answeredWorld.manager.fileEntries) = _
    rw [hFirstSaves, hSecondSaves, hFirstRow, hSecondRow, hTree]
    cases first <;> cases second <;> rfl
  · change (false ||
        RowWrite.saves _ _ answeredWorld (retainedMessage answeredWorld.manager (.user ⟨.text "more", 1⟩)) ||
      RowWrite.saves _ _ (asked first) (retainedMessage (asked first).manager (.user ⟨.text "last", 1⟩))) = _
    rw [hFirstSaves, hSecondSaves, Bool.false_or]

theorem questioned_connected :
    Connected (tableSerde answeredTable) (questioned true false) ["0a1b2c3d", "1b2c3d4e", "2c3d4e5f"] := by
  obtain ⟨_, _, hFile, _⟩ := answeredWorld_flushed
  obtain ⟨saved, wrote, hRun, rfl, rfl⟩ := @questioned_run (FindsFileWhole (tableSerde answeredTable)) true false
    (by
      intro _ _ path hPath
      rw [hFile] at hPath
      rw [← Option.some.inj hPath]
      exact answeredWorld_holds)
    (by
      intro _ hWrite
      cases hWrite)
  exact appendRun_connected hRun

theorem retainedMessage_valid (env : Env) (m : SessionManager) (message : AgentMessage) :
    (retainedMessage m message).Valid env m :=
  @Op.rowWrite?_valid env (.appendMessageRetained message) m _ rfl

theorem asked_disk : (asked false).disk = answeredWorld.disk := by
  obtain ⟨hPersist, _, hPath, _⟩ := answeredWorld_flushed
  have hDisk := @perform_disk_failing (tableSerde answeredTable) (envDrawing "2c3d4e5f" false) answeredWorld
    "/s/session.jsonl" _ hPersist hPath (retainedMessage_valid _ _ (.user ⟨.text "more", 1⟩)) rfl
  rwa [retainedMessage, ← Op.appendRetained_eq_perform] at hDisk

theorem disconnectedRows_held :
    FileHolds (tableSerde answeredTable) (questioned false true).disk "/s/session.jsonl" disconnectedRows := by
  obtain ⟨hPersist, hPath, hFlushed, hAssistant, hRow⟩ := questioned_computes.2.1
  have hBytes := answeredWorld_bytes
  rw [← asked_disk] at hBytes
  have hDisk := @perform_disk_appending (tableSerde answeredTable) (envDrawing "3d4e5f60" true) (asked false)
    "/s/session.jsonl" _ _ hPersist hPath (retainedMessage_valid _ _ (.user ⟨.text "last", 1⟩)) rfl hFlushed hBytes
    hAssistant
  rw [hRow, retainedMessage, ← Op.appendRetained_eq_perform] at hDisk
  have hLines : WrittenAs (tableSerde answeredTable) (questioned false true).disk "/s/session.jsonl" disconnectedRows
      disconnectedRows := by
    refine ⟨?_, ?_, questioned_computes.2.2.1⟩
    · have hFile : (questioned false true).disk.get "/s/session.jsonl" = _ := congrArg (·.get "/s/session.jsonl") hDisk
      rw [hFile, KeyMap.get_insert_self, ← Utf8.encode_append, show disconnectedRows
          = [headerLine, helloLine, answerLine].map (·.row) ++ [lastLine.row] from rfl, List.flatMap_append,
        List.flatMap_singleton]
    · exact fun row hRow => answeredTable_keeps row (questioned_computes.2.2.2.1 row hRow)
  exact hLines.fileHolds

theorem questioned_disconnected :
    AppendRun (tableSerde answeredTable) (fun _ _ => True) (questioned false true) ["0a1b2c3d", "1b2c3d4e", "3d4e5f60"]
        true ∧
      ¬ Connected (tableSerde answeredTable) (questioned false true) ["0a1b2c3d", "1b2c3d4e", "3d4e5f60"] := by
  constructor
  · obtain ⟨saved, wrote, hRun, rfl, rfl⟩ := @questioned_run (fun _ _ => True) false true trivial trivial
    exact hRun
  · rintro ⟨path, entries, hPath, hHolds, hRows⟩
    obtain ⟨hFile, hActive, hLost⟩ := questioned_computes.2.2.2.2
    rw [hFile] at hPath
    rw [← Option.some.inj hPath] at hHolds
    rw [← disconnectedRows_held.unique hHolds] at hRows
    exact hLost (hRows _ hActive ⟨"0a1b2c3d", by decide, rfl⟩).1

end PrimeAgent
