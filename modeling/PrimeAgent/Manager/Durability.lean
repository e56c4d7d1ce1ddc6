import PrimeAgent.Manager.IndexInvariant

/-! # The session file follows the manager

Appends, branch moves and flushes of a manager that started a session on disk, where every write succeeds
and anything may be deleted from outside: a flushed file that exists holds exactly the rows in memory.
-/
namespace PrimeAgent

def FileHolds (serde : Serde) (disk : Disk) (path : Path) (entries : List FileEntry) : Prop :=
  (readToString disk path).map (parseSessionEntries serde) = some entries

structure WrittenAs (serde : Serde) (disk : Disk) (path : Path) (entries lines : List FileEntry) : Prop where
  bytes : disk.get path = some (utf8 (lines.flatMap (writeLine serde)))
  keeps : ∀ row ∈ lines, serde.Keeps row
  folds : applyChildUsageAttributions lines = entries

theorem WrittenAs.fileHolds {serde : Serde} {disk : Disk} {path : Path} {entries lines : List FileEntry}
    (h : WrittenAs serde disk path entries lines) : FileHolds serde disk path entries := by
  rw [FileHolds, readToString, h.bytes, Option.bind_some, Utf8.decode_encode, Option.map_some, parseSessionEntries,
    decodeLines_writeLine h.keeps, h.folds]

structure InStep (serde : Serde) (w : World) : Prop where
  persist : w.manager.persist = true
  path : w.manager.sessionFile.isSome
  rows : w.manager.fileEntries ≠ []
  keeps : ∀ row ∈ w.manager.fileEntries, serde.Keeps row
  byId : w.manager.byId = (EntryIndex.ofEntries w.manager.fileEntries).byId
  folded : applyChildUsageAttributions w.manager.fileEntries = w.manager.fileEntries
  targets : ∀ id ∈ w.manager.fileEntries.filterMap attributionTarget, (w.manager.byId.get id).isSome
  saved : ∀ path, w.manager.sessionFile = some path → w.manager.flushed = true → w.disk.contains path = true →
    ∃ lines, WrittenAs serde w.disk path w.manager.fileEntries lines

section Rows

theorem assistantIndex_of_byId {entries : List FileEntry} {id : String} {i : Nat}
    (hIndex : (EntryIndex.ofEntries entries).byId.get id = some i)
    (hAssistant : ((entries[i]?).bind FileEntry.assistant?).isSome) : (assistantIndex entries).get id = some i := by
  induction entries using List.reverseRecOn with
  | nil => cases hIndex
  | append_singleton entries entry ih =>
    rw [EntryIndex.ofEntries_concat, EntryIndex.add_byId_get] at hIndex
    rw [assistantIndex_concat]
    split at hIndex
    · rename_i hRow
      obtain rfl := Option.some.inj hIndex
      rw [if_pos ⟨by simpa using hAssistant, hRow.2⟩]
    · rename_i hRow
      have hLt := EntryIndex.ofEntries_lt hIndex
      rw [List.getElem?_append_left hLt] at hAssistant
      rw [if_neg, ih hIndex hAssistant]
      rintro ⟨hEntry, hId⟩
      refine hRow ⟨?_, hId⟩
      cases entry <;> first | cases hEntry | simp [FileEntry.isHeader]

theorem generateId_fresh {existing : String → Bool} {source : IdSource} (hWhole : existing source.whole = false) :
    existing (generateId existing source) = false := by
  unfold generateId
  cases hFind : ((List.range 100).map source.draws).find? fun id => !existing id with
  | none => exact hWhole
  | some id => simpa using List.find?_some hFind

variable {env : Env} {m : SessionManager} {write : RowWrite}

theorem written_fileEntries (hById : m.byId = (EntryIndex.ofEntries m.fileEntries).byId)
    (hValid : write.Valid env m) : (write.written env m).fileEntries = attributed m.fileEntries (write.row env m) := by
  rw [RowWrite.written, pushed_eq]
  cases hValid.settles with
  | plain hSettle hPlain =>
    have hRow : (write.row env m).isPlain = true := hPlain _
    have hNone : attribution (assistantIndex m.fileEntries) (write.row env m) = none := by
      unfold attribution
      split
      · rename_i hEq
        rw [hEq] at hRow
        cases hRow
      · rfl
    rw [hSettle, attributed, hNone]
    rfl
  | label payload _ hBuild hSettle =>
    have hRow : write.row env m = .label payload ((m.setLeafId write.leafId).nextBase env) := by
      rw [RowWrite.row, hBuild]
    rw [hSettle, attributed, hRow]
    rfl
  | usage payload position _ hBuild hTarget hSettle =>
    have hRow : write.row env m = .childUsageAttributed payload ((m.setLeafId write.leafId).nextBase env) := by
      rw [RowWrite.row, hBuild]
    obtain ⟨hPosition, hAssistant⟩ := Option.filter_eq_some_iff.mp hTarget
    rw [hById] at hPosition
    have hIndex := assistantIndex_of_byId hPosition hAssistant
    rw [hSettle, attributed, hRow, attribution, hIndex]
    rfl

theorem row_unattributed (hTargets : ∀ id ∈ m.fileEntries.filterMap attributionTarget, (m.byId.get id).isSome)
    (hFresh : m.byId.contains (env.ids 0).whole = false) (hValid : write.Valid env m) :
    Unattributed m.fileEntries (write.row env m) := by
  intro _ id hId hSame
  rw [row_id hValid] at hSame
  have hNew : m.byId.contains (generateId m.byId.contains (env.ids 0)) = false := generateId_fresh hFresh
  rw [Option.some.inj hSame, KeyMap.contains, Bool.eq_false_iff] at hNew
  exact hNew (hTargets id hId)

theorem ofEntries_attributed (entries : List FileEntry) (row : FileEntry) :
    EntryIndex.ofEntries (attributed entries row) = EntryIndex.ofEntries (entries ++ [row]) := by
  rw [attributed]
  cases attribution (assistantIndex entries) row with
  | none => rfl
  | some update => exact EntryIndex.ofEntries_modify_setUsage update.2 _ update.1

theorem mem_attributed_self (entries : List FileEntry) (row : FileEntry) : row ∈ attributed entries row := by
  have hApart : ∀ update ∈ (attribution (assistantIndex entries) row).toList, update.1 < entries.length := by
    intro update hUpdate
    rw [Option.mem_toList] at hUpdate
    unfold attribution at hUpdate
    split at hUpdate
    · obtain ⟨i, hIndex, rfl⟩ := Option.map_eq_some_iff.mp hUpdate
      exact assistantIndex_lt hIndex
    · cases hUpdate
  rw [attributed, applyUpdates_append hApart]
  exact List.mem_append_right _ List.mem_cons_self

theorem written_index_byId (env : Env) (m : SessionManager) (write : RowWrite) (hValid : write.Valid env m) :
    (write.written env m).byId = (pushedIndex env m write).byId := by
  rw [RowWrite.written, pushed_eq]
  cases hValid.settles with
  | plain hSettle _ => rw [hSettle]; rfl
  | label payload _ _ hSettle =>
    rw [hSettle]
    exact EntryIndex.applyLabel_byId _ _ _ _
  | usage payload position _ _ _ hSettle => rw [hSettle]; rfl

theorem written_byId (hById : m.byId = (EntryIndex.ofEntries m.fileEntries).byId) (hValid : write.Valid env m) :
    (write.written env m).byId = (EntryIndex.ofEntries (write.written env m).fileEntries).byId := by
  rw [written_index_byId env m write hValid, written_fileEntries hById hValid, ofEntries_attributed,
    EntryIndex.ofEntries_concat, EntryIndex.add_of_base (row_base hValid), EntryIndex.addLabel_byId, pushedIndex,
    row_id hValid]
  simp only [EntryIndex.addId, SessionManager.index, hById]

theorem written_targets (hById : m.byId = (EntryIndex.ofEntries m.fileEntries).byId)
    (hTargets : ∀ id ∈ m.fileEntries.filterMap attributionTarget, (m.byId.get id).isSome)
    (hValid : write.Valid env m) :
    ∀ id ∈ (write.written env m).fileEntries.filterMap attributionTarget,
      ((write.written env m).byId.get id).isSome := by
  have hGrows : ∀ id, (m.byId.get id).isSome → ((write.written env m).byId.get id).isSome := by
    intro id h
    rw [written_index_byId env m write hValid, pushedIndex, row_id hValid, EntryIndex.addId, KeyMap.get_insert]
    split
    · rfl
    · exact h
  intro id hId
  rw [written_fileEntries hById hValid, attributed, attributionTarget_applyUpdates, List.filterMap_append,
    List.mem_append] at hId
  refine hGrows id ?_
  rcases hId with hId | hId
  · exact hTargets id hId
  · cases hValid.settles with
    | plain hSettle hPlain =>
      have hRow : (write.row env m).isPlain = true := hPlain _
      have hNone : attributionTarget (write.row env m) = none := by
        unfold attributionTarget
        split
        · rename_i hEq
          rw [hEq] at hRow
          cases hRow
        · rfl
      rw [List.filterMap_cons, hNone] at hId
      cases hId
    | label payload _ hBuild _ => simp [RowWrite.row, hBuild, attributionTarget] at hId
    | usage payload position _ hBuild hTarget _ =>
      have hId : id = payload.targetId := by simpa [RowWrite.row, hBuild, attributionTarget] using hId
      rw [hId, (Option.filter_eq_some_iff.mp hTarget).1]
      rfl

theorem written_hasAssistantEntry (hValid : write.Valid env m) :
    (write.written env m).hasAssistantEntry
      = ((m.setLeafId write.leafId).push (write.row env m)).hasAssistantEntry := by
  rw [RowWrite.written, pushed_eq]
  cases hValid.settles with
  | plain hSettle _ | label payload _ _ hSettle | usage payload position _ _ _ hSettle => rw [hSettle]; rfl

theorem written_persist (hValid : write.Valid env m) : (write.written env m).persist = m.persist := by
  rw [RowWrite.written, pushed_eq]
  cases hValid.settles with
  | plain hSettle _ | label payload _ _ hSettle | usage payload position _ _ _ hSettle => rw [hSettle]; rfl

theorem written_sessionFile (hValid : write.Valid env m) : (write.written env m).sessionFile = m.sessionFile := by
  rw [RowWrite.written, pushed_eq]
  cases hValid.settles with
  | plain hSettle _ | label payload _ _ hSettle | usage payload position _ _ _ hSettle => rw [hSettle]; rfl

end Rows

namespace World

variable {serde : Serde} {env : Env} {w w' : World}

theorem persistEntry_outcome {path : Path} {entry : FileEntry} (hPersist : w.manager.persist = true)
    (hPath : w.manager.sessionFile = some path) (hWrite : env.canWrite = true) :
    ∃ written, persistEntry serde env w entry = .ok written ∧
      ((written = w.setFlushed false ∧ w.manager.hasAssistantEntry = false ∧ isSessionStateOrInfo entry = false) ∨
        (w.manager.flushed = false ∨ w.disk.contains path = false) ∧
          written = (⟨w.manager, w.disk.insert path (utf8 (fileContent serde w.manager.fileEntries))⟩ : World).setFlushed
            true ∨
        w.manager.flushed = true ∧ ∃ bytes, w.disk.get path = some bytes ∧
          written = ⟨w.manager, w.disk.insert path (bytes ++ utf8 (writeLine serde entry))⟩) := by
  unfold persistEntry
  simp only [hPath, hPersist, not_true, if_false]
  split
  · rename_i hDeferred
    exact ⟨_, rfl, Or.inl ⟨rfl, by simpa using hDeferred⟩⟩
  · split
    · rename_i hAnew
      simp only [tryRewriteFile, hPath, hPersist, not_true, if_false, hWrite, if_true]
      exact ⟨_, rfl, Or.inr (Or.inl ⟨by simpa using hAnew, rfl⟩)⟩
    · rename_i hThere
      rw [not_or, not_not, not_not] at hThere
      obtain ⟨bytes, hBytes⟩ := Option.isSome_iff_exists.mp hThere.2
      simp only [appendLine, hBytes, hWrite, if_true]
      exact ⟨_, rfl, Or.inr (Or.inr ⟨hThere.1, bytes, rfl, rfl⟩)⟩

theorem perform_of_persist {write : RowWrite} {written : World} {flushed : Bool} (hValid : write.Valid env w.manager)
    (hWritten : persistEntry serde env
      ((w.onManager (·.setLeafId write.leafId)).onManager (·.push (write.row env w.manager)))
      (write.row env w.manager) = .ok written)
    (hFlushed : written.manager
      = { ((w.manager.setLeafId write.leafId).push (write.row env w.manager)) with flushed := flushed }) :
    (write.perform serde env w).manager = { write.written env w.manager with flushed := flushed } ∧
      (write.perform serde env w).disk = written.disk := by
  have hPerform : write.perform serde env w
      = (written.onManager (·.indexLast (write.row env w.manager))).onManager write.settle :=
    Op.perform_of_written (pushRow_of_ok write.retain hWritten)
  rw [hPerform]
  refine ⟨?_, rfl⟩
  rw [onManager, onManager, hFlushed, indexLast_flushed, Op.settle_flushed hValid.settles]
  rfl

theorem perform_durable {path : Path} {write : RowWrite} (hPersist : w.manager.persist = true)
    (hPath : w.manager.sessionFile = some path) (hWrite : env.canWrite = true) (hValid : write.Valid env w.manager) :
    ∃ flushed, (write.perform serde env w).manager = { write.written env w.manager with flushed := flushed } ∧
      (flushed = false ∧ (write.written env w.manager).hasAssistantEntry = false ∧
          isSessionStateOrInfo (write.row env w.manager) = false ∨
        flushed = true ∧ (write.perform serde env w).disk = w.disk.insert path
          (utf8 (fileContent serde (w.manager.fileEntries ++ [write.row env w.manager]))) ∨
        flushed = true ∧ w.manager.flushed = true ∧ ∃ bytes, w.disk.get path = some bytes ∧
          (write.perform serde env w).disk
            = w.disk.insert path (bytes ++ utf8 (writeLine serde (write.row env w.manager)))) := by
  obtain ⟨written, hWritten, hCases⟩ := @persistEntry_outcome serde env
    ((w.onManager (·.setLeafId write.leafId)).onManager (·.push (write.row env w.manager))) path
    (write.row env w.manager) hPersist hPath hWrite
  rcases hCases with ⟨rfl, hNone, hState⟩ | ⟨_, rfl⟩ | ⟨hFlushed, bytes, hBytes, rfl⟩
  · obtain ⟨hManager, _⟩ := perform_of_persist hValid hWritten rfl
    exact ⟨false, hManager, Or.inl ⟨rfl, (written_hasAssistantEntry hValid).trans hNone, hState⟩⟩
  · obtain ⟨hManager, hDisk⟩ := perform_of_persist hValid hWritten rfl
    exact ⟨true, hManager, Or.inr (Or.inl ⟨rfl, hDisk⟩)⟩
  · have hFlushed : w.manager.flushed = true := hFlushed
    obtain ⟨hManager, hDisk⟩ := @perform_of_persist serde env w write _ true hValid hWritten (by rw [← hFlushed]; rfl)
    exact ⟨true, hManager, Or.inr (Or.inr ⟨rfl, hFlushed, bytes, hBytes, hDisk⟩)⟩

end World

section Runs

variable {serde : Serde} {env : Env} {w w' : World}

theorem WrittenAs.rewrite (disk : Disk) (path : Path) {rows : List FileEntry} (hSome : rows ≠ [])
    (hKeeps : ∀ row ∈ rows, serde.Keeps row) :
    WrittenAs serde (disk.insert path (utf8 (fileContent serde rows))) path (applyChildUsageAttributions rows) rows where
  bytes := by rw [KeyMap.get_insert_self, fileContent_eq serde hSome]
  keeps := hKeeps
  folds := rfl

theorem WrittenAs.append {disk : Disk} {path : Path} {entries lines : List FileEntry} {row : FileEntry}
    (h : WrittenAs serde disk path entries lines) (hKeeps : serde.Keeps row) (hNew : Unattributed entries row)
    {bytes : Bytes} (hBytes : disk.get path = some bytes) :
    WrittenAs serde (disk.insert path (bytes ++ utf8 (writeLine serde row))) path (attributed entries row)
      (lines ++ [row]) := by
  obtain ⟨hLines, hLinesKeep, rfl⟩ := h
  have hNew : Unattributed lines row := by
    rwa [Unattributed, applyChildUsageAttributions, attributionTarget_applyUpdates] at hNew
  refine ⟨?_, ?_, applyChildUsageAttributions_concat hNew⟩
  · obtain rfl := Option.some.inj (hLines.symm.trans hBytes)
    rw [KeyMap.get_insert_self, List.flatMap_append, List.flatMap_singleton, utf8, utf8, utf8, Utf8.encode_append]
  · intro r hr
    rcases List.mem_append.mp hr with hr | hr
    · exact hLinesKeep r hr
    · rwa [List.mem_singleton.mp hr]

theorem perform_inStep {write : RowWrite} (h : InStep serde w) (hWrite : env.canWrite = true)
    (hFresh : w.manager.byId.contains (env.ids 0).whole = false) (hValid : write.Valid env w.manager)
    (hKeeps : ∀ row ∈ (write.perform serde env w).manager.fileEntries, serde.Keeps row) :
    InStep serde (write.perform serde env w) ∧
      ((write.perform serde env w).manager.hasAssistantEntry = true ∨
          World.isSessionStateOrInfo (write.row env w.manager) = true →
        (write.perform serde env w).manager.flushed = true ∧
          ∀ path, (write.perform serde env w).manager.sessionFile = some path →
            (write.perform serde env w).disk.contains path = true) := by
  obtain ⟨path, hPath⟩ := Option.isSome_iff_exists.mp h.path
  have hRows := written_fileEntries h.byId hValid
  have hNew := row_unattributed h.targets hFresh hValid
  have hFold : applyChildUsageAttributions (w.manager.fileEntries ++ [write.row env w.manager])
      = attributed w.manager.fileEntries (write.row env w.manager) := by
    rw [applyChildUsageAttributions_concat hNew, h.folded]
  obtain ⟨flushed, hManager, hDisk⟩ := World.perform_durable h.persist hPath hWrite hValid
  have hEntries : (write.perform serde env w).manager.fileEntries
      = attributed w.manager.fileEntries (write.row env w.manager) := by rw [hManager]; exact hRows
  have hFile : (write.perform serde env w).manager.sessionFile = w.manager.sessionFile := by
    rw [hManager]; exact written_sessionFile hValid
  have hRow := hKeeps (write.row env w.manager) (by rw [hEntries]; exact mem_attributed_self _ _)
  have hAll : ∀ row ∈ w.manager.fileEntries ++ [write.row env w.manager], serde.Keeps row := by
    intro row hMem
    rcases List.mem_append.mp hMem with hMem | hMem
    · exact h.keeps row hMem
    · rwa [List.mem_singleton.mp hMem]
  constructor
  · refine ⟨?_, ?_, ?_, hKeeps, ?_, ?_, ?_, ?_⟩
    · rw [hManager]
      exact (written_persist hValid).trans h.persist
    · rw [hFile]
      exact h.path
    · rw [hEntries]
      exact List.ne_nil_of_mem (mem_attributed_self _ _)
    · rw [hManager]
      exact written_byId h.byId hValid
    · rw [hEntries, ← hFold, applyChildUsageAttributions_idem]
    · rw [hManager]
      exact written_targets h.byId h.targets hValid
    · intro path' hPath' hFlushed hThere
      rw [hFile, hPath] at hPath'
      obtain rfl := Option.some.inj hPath'
      rw [hManager] at hFlushed
      rw [hEntries]
      rcases hDisk with ⟨hDeferred, _, _⟩ | ⟨_, hDisk⟩ | ⟨_, hBefore, bytes, hBytes, hDisk⟩
      · rw [hDeferred] at hFlushed
        cases hFlushed
      · rw [hDisk, ← hFold]
        exact ⟨_, WrittenAs.rewrite _ _ (by simp) hAll⟩
      · obtain ⟨lines, hLines⟩ := h.saved path hPath hBefore (by rw [KeyMap.contains, hBytes]; rfl)
        rw [hDisk]
        exact ⟨_, hLines.append hRow hNew hBytes⟩
  · intro hReason
    rcases hDisk with ⟨_, hNone, hState⟩ | ⟨hFlushed, hDisk⟩ | ⟨hFlushed, _, bytes, _, hDisk⟩
    · rw [hManager] at hReason
      rcases hReason with hReason | hReason
      · exact absurd (hNone.symm.trans hReason) (by simp)
      · exact absurd (hState.symm.trans hReason) (by simp)
    all_goals
      refine ⟨by rw [hManager, hFlushed], ?_⟩
      intro path' hPath'
      rw [hFile, hPath] at hPath'
      obtain rfl := Option.some.inj hPath'
      rw [hDisk, KeyMap.contains, KeyMap.get_insert_self]
      rfl

theorem flushNow_inStep (h : InStep serde w) (hWrite : env.canWrite = true) :
    InStep serde ((w.flushNow serde env).toOption.getD w) := by
  obtain ⟨path, hPath⟩ := Option.isSome_iff_exists.mp h.path
  unfold World.flushNow
  simp only [hPath, h.persist, not_true, if_false]
  split
  · exact h
  · simp only [World.tryRewriteFile, hPath, h.persist, not_true, if_false, hWrite, if_true]
    refine ⟨h.persist, h.path, h.rows, h.keeps, h.byId, h.folded, h.targets, ?_⟩
    intro path' hPath' _ _
    obtain rfl := Option.some.inj (hPath.symm.trans hPath')
    have hWritten := @WrittenAs.rewrite serde w.disk path w.manager.fileEntries h.rows h.keeps
    rw [h.folded] at hWritten
    exact ⟨_, hWritten⟩

theorem setLeafId_inStep (h : InStep serde w) (leafId : Option String) :
    InStep serde (w.onManager (·.setLeafId leafId)) :=
  ⟨h.persist, h.path, h.rows, h.keeps, h.byId, h.folded, h.targets, h.saved⟩

theorem removed_inStep (h : InStep serde w) (path : Path) :
    InStep serde { w with disk := w.disk.remove path } := by
  refine ⟨h.persist, h.path, h.rows, h.keeps, h.byId, h.folded, h.targets, ?_⟩
  intro path' hPath' hFlushed hThere
  have hOther : path' ≠ path := by
    rintro rfl
    rw [KeyMap.contains, KeyMap.get_remove, if_pos rfl] at hThere
    cases hThere
  have hSame : (w.disk.remove path).get path' = w.disk.get path' := by
    rw [KeyMap.get_remove, if_neg hOther]
  obtain ⟨lines, hLines, hKeep, hFolds⟩ := h.saved path' hPath' hFlushed (by
    rw [KeyMap.contains, ← hSame]
    exact hThere)
  exact ⟨lines, hSame.trans hLines, hKeep, hFolds⟩

def Op.isDurable (op : Op) : Bool :=
  op.isAppend || match op with
    | .branch _ | .resetLeaf | .flushNow => true
    | _ => false

/-- One operation, none of whose writes fails: the uuid it can fall back on is new, and the rows it leaves
read back from their texts. -/
structure DurableStep (serde : Serde) (env : Env) (w : World) (op : Op) (w' : World) : Prop where
  run : op.run serde env w = some w'
  durable : op.isDurable = true
  canWrite : env.canWrite = true
  fresh : w.manager.byId.contains (env.ids 0).whole = false
  keeps : ∀ row ∈ w'.manager.fileEntries, serde.Keeps row

/-- The runs of a manager with a session file of its own, where files may vanish between operations. -/
inductive DurableRun (serde : Serde) : World → Prop
  | persisted (env : Env) (disk : Disk) (cwd sessionDir : Path) :
    (∀ row ∈ (World.persisted serde env disk cwd sessionDir).manager.fileEntries, serde.Keeps row) →
    DurableRun serde (World.persisted serde env disk cwd sessionDir)
  | step {w w' : World} (env : Env) (op : Op) : DurableRun serde w → DurableStep serde env w op w' →
    DurableRun serde w'
  | removed {w : World} (path : Path) : DurableRun serde w → DurableRun serde { w with disk := w.disk.remove path }

theorem persisted_inStep (env : Env) (disk : Disk) (cwd sessionDir : Path)
    (hKeeps : ∀ row ∈ (World.persisted serde env disk cwd sessionDir).manager.fileEntries, serde.Keeps row) :
    InStep serde (World.persisted serde env disk cwd sessionDir) where
  persist := rfl
  path := rfl
  rows := by simp [World.persisted, World.newWith, World.newDefaultSession, World.newSession, World.blankManager,
    NewSessionOptions.default]
  keeps := hKeeps
  byId := rfl
  folded := rfl
  targets := by
    intro id hId
    cases hId
  saved := by
    intro path _ hFlushed _
    cases hFlushed

theorem durableStep_inStep {op : Op} (h : InStep serde w) (hStep : DurableStep serde env w op w') :
    InStep serde w' := by
  obtain ⟨hRun, hDurable, hWrite, hFresh, hKeeps⟩ := hStep
  cases hAppend : op.isAppend with
  | true =>
    cases hRow : op.rowWrite? env w.manager with
    | none => rwa [Op.run_of_no_rowWrite hAppend hRow hRun]
    | some write =>
      rw [Op.run_of_rowWrite hRow] at hRun
      obtain rfl := Option.some.inj hRun
      exact (perform_inStep h hWrite hFresh (Op.rowWrite?_valid hRow) hKeeps).1
  | false =>
    cases op with
    | branch branchFromId =>
      rw [Op.run, World.branch] at hRun
      split at hRun
      · cases hRun
      · obtain rfl := Option.some.inj hRun
        exact setLeafId_inStep h _
    | resetLeaf =>
      obtain rfl := Option.some.inj hRun
      exact setLeafId_inStep h _
    | flushNow =>
      obtain rfl := Option.some.inj hRun
      exact flushNow_inStep h hWrite
    | newSession | adoptEntries | materializeSessionFile | setSessionFile => cases hDurable
    | _ => cases hAppend

theorem durableRun_inStep (h : DurableRun serde w) : InStep serde w := by
  induction h with
  | persisted env disk cwd sessionDir hKeeps => exact persisted_inStep env disk cwd sessionDir hKeeps
  | step env op _ hStep ih => exact durableStep_inStep ih hStep
  | removed path _ ih => exact removed_inStep ih path

end Runs

def envDrawing (id : String) (canWrite : Bool) : Env :=
  { sampleEnv with ids := fun _ => ⟨fun _ => id, id ++ "-whole"⟩, canWrite := canWrite }

def namedStart : World :=
  World.persisted (tableSerde namedTable) sampleEnv KeyMap.empty "/w" "/s"

def namedMessage : World :=
  (namedStart.appendMessage (tableSerde namedTable) sampleEnv (.user ⟨.text "hello", 1⟩)).1

theorem namedMessage_durable : DurableRun (tableSerde namedTable) namedMessage := by
  refine .step sampleEnv (.appendMessage (.user ⟨.text "hello", 1⟩)) (.persisted sampleEnv KeyMap.empty "/w" "/s" ?_)
    ⟨rfl, rfl, rfl, by decide, ?_⟩
  · intro row hRow
    exact namedTable_keeps row (by revert row; decide +kernel)
  · intro row hRow
    exact namedTable_keeps row (by revert row; decide +kernel)

def namedSession : World :=
  (namedMessage.appendSessionInfo (tableSerde namedTable) (envDrawing "1b2c3d4e" true) " chat ").1

end PrimeAgent
