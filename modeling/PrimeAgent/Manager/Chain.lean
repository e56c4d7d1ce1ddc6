import PrimeAgent.Manager.Durability
import PrimeAgent.Session.PathContext

/-! # The row tree of a manager

A manager that started its own session, and only appended and moved its leaf since, holds a tree in file
order: an id leads to its own row, and a parent to an earlier one.
-/
namespace PrimeAgent

open ParentWalk

structure Chained (m : SessionManager) : Prop where
  header : OneHeader m.fileEntries
  byId : m.byId = (EntryIndex.ofEntries m.fileEntries).byId
  own : ∀ (i : Nat) row, m.fileEntries[i]? = some row → row.isHeader = false →
    ∃ id, row.id = some id ∧ m.byId.get id = some i
  parents : ∀ (i : Nat) row parent, m.fileEntries[i]? = some row → row.parentId = some parent →
    ∃ j, m.byId.get parent = some j ∧ j < i
  leaf : ∀ id, m.leafId = some id → (m.byId.get id).isSome
  assistants : ∀ row ∈ m.fileEntries, row.assistant?.isSome → m.hasAssistantEntry = true

theorem OneHeader.isHeader_of_pos {entries : List FileEntry} (h : OneHeader entries) {i : Nat} {row : FileEntry}
    (hPos : 0 < i) (hAt : entries[i]? = some row) : row.isHeader = false := by
  obtain ⟨header, rest, rfl, hRest⟩ := h
  obtain ⟨j, rfl⟩ : ∃ j, i = j + 1 := ⟨i - 1, by omega⟩
  rw [List.getElem?_cons_succ] at hAt
  exact hRest row (List.mem_of_getElem? hAt)

namespace Chained

variable {m : SessionManager} {i : Nat} {id : String}

section

variable (h : Chained m)

include h

theorem position (hIndex : m.byId.get id = some i) :
    (m.fileEntries[i]?).bind FileEntry.id = some id := by
  rw [h.byId] at hIndex
  exact EntryIndex.ofEntries_getElem? hIndex

theorem indexById (hIndex : m.byId.get id = some i) :
    (indexById m.fileEntries).get id = some i := by
  rw [indexById_eq_some_iff]
  refine ⟨h.position hIndex, fun j hLt hSame => ?_⟩
  obtain ⟨row, hAt, hId⟩ := Option.bind_eq_some_iff.mp hSame
  obtain ⟨id', hId', hOwn⟩ := h.own j row hAt (h.header.isHeader_of_pos (by omega) hAt)
  obtain rfl := Option.some.inj (hId.symm.trans hId')
  have := Option.some.inj (hIndex.symm.trans hOwn)
  omega

theorem threaded : Threaded m.fileEntries := by
  intro i j hParent
  obtain ⟨row, hAt, hNext⟩ := Option.bind_eq_some_iff.mp hParent
  obtain ⟨parent, hLink, hIndex⟩ := Option.bind_eq_some_iff.mp hNext
  obtain ⟨k, hKnown, hLt⟩ := h.parents i row parent hAt hLink
  rw [h.indexById hKnown] at hIndex
  rwa [← Option.some.inj hIndex]

theorem lt_length (hIndex : m.byId.get id = some i) :
    i < m.fileEntries.length := by
  rw [h.byId] at hIndex
  exact EntryIndex.ofEntries_lt hIndex

theorem setLeafId {leafId : Option String} (hLeaf : ∀ id, leafId = some id → (m.byId.get id).isSome) :
    Chained (m.setLeafId leafId) :=
  ⟨h.header, h.byId, h.own, h.parents, hLeaf, h.assistants⟩

theorem setFlushed (flushed : Bool) : Chained { m with flushed := flushed } :=
  ⟨h.header, h.byId, h.own, h.parents, h.leaf, h.assistants⟩

end

end Chained

section Rows

variable {entries : List FileEntry} {row found : FileEntry}

theorem getElem?_concat_of_ge {i : Nat} (hAt : (entries ++ [row])[i]? = some found) (hGe : entries.length ≤ i) :
    i = entries.length ∧ found = row := by
  rw [List.getElem?_append_right hGe] at hAt
  have hLt := (List.getElem?_eq_some_iff.mp hAt).1
  obtain rfl : i = entries.length := by
    simp only [List.length_singleton] at hLt
    omega
  rw [Nat.sub_self, List.getElem?_cons_zero] at hAt
  exact ⟨rfl, (Option.some.inj hAt).symm⟩

theorem attributed_getElem? {i : Nat} (h : (attributed entries row)[i]? = some found) :
    ∃ entry, (entries ++ [row])[i]? = some entry ∧ found.id = entry.id ∧ found.parentId = entry.parentId ∧
      found.isHeader = entry.isHeader ∧ found.assistant?.isSome = entry.assistant?.isSome := by
  rw [attributed, applyUpdates_getElem?, Option.map_eq_some_iff] at h
  obtain ⟨entry, hAt, rfl⟩ := h
  refine ⟨entry, hAt, ?_⟩
  cases ((attribution (assistantIndex entries) row).toList.filter (·.1 == i)).getLast? with
  | none => exact ⟨rfl, rfl, rfl, rfl⟩
  | some update =>
    exact ⟨FileEntry.setUsage_id _ _, FileEntry.setUsage_parentId _ _, FileEntry.setUsage_isHeader _ _,
      FileEntry.setUsage_assistant_isSome _ _⟩

theorem OneHeader.attributed {row : FileEntry} (h : OneHeader entries) (hRow : row.isHeader = false) :
    OneHeader (attributed entries row) := by
  rw [PrimeAgent.attributed]
  cases attribution (assistantIndex entries) row with
  | none => exact h.concat hRow
  | some update => exact oneHeader_modify (h.concat hRow) update.1 update.2

variable {env : Env} {m : SessionManager} {write : RowWrite}

theorem written_byId_get (hValid : write.Valid env m) (id : String) :
    (write.written env m).byId.get id
      = if id = generateId m.byId.contains (env.ids 0) then some m.fileEntries.length else m.byId.get id := by
  rw [written_index_byId env m write hValid, pushedIndex, row_id hValid, EntryIndex.addId, KeyMap.get_insert]
  rfl

theorem written_leafId (hValid : write.Valid env m) :
    (write.written env m).leafId = some (generateId m.byId.contains (env.ids 0)) := by
  have hPushed : (pushedIndex env m write).leafId = some (generateId m.byId.contains (env.ids 0)) := by
    rw [pushedIndex, row_id hValid, EntryIndex.addId]
  rw [RowWrite.written, pushed_eq]
  cases hValid.settles with
  | plain hSettle _ => rw [hSettle]; exact hPushed
  | label payload _ _ hSettle =>
    rw [hSettle]
    exact (EntryIndex.applyLabel_leafId _ _ _ _).trans hPushed
  | usage payload position _ _ _ hSettle => rw [hSettle]; exact hPushed

theorem row_parentId (hValid : write.Valid env m) : (write.row env m).parentId = write.leafId :=
  FileEntry.parentId_of_base (row_base hValid)

theorem leaf_known (h : Chained m) (hValid : write.Valid env m) {id : String} (hLeaf : write.leafId = some id) :
    (m.byId.get id).isSome := by
  rcases hValid.leaf with hSame | hEntry
  · exact h.leaf id (hSame ▸ hLeaf)
  · exact byId_of_getEntryById (hEntry id hLeaf)

theorem fresh_id (hFresh : m.byId.contains (env.ids 0).whole = false) :
    m.byId.get (generateId m.byId.contains (env.ids 0)) = none := by
  have hNew : m.byId.contains (generateId m.byId.contains (env.ids 0)) = false := generateId_fresh hFresh
  rwa [KeyMap.contains, Option.isSome_eq_false_iff, Option.isNone_iff_eq_none] at hNew

theorem written_chained (h : Chained m) (hFresh : m.byId.contains (env.ids 0).whole = false)
    (hValid : write.Valid env m) : Chained (write.written env m) := by
  have hRows := written_fileEntries h.byId hValid
  have hNew := fresh_id (m := m) hFresh
  have hGrows : ∀ (id : String) (i : Nat), m.byId.get id = some i → (write.written env m).byId.get id = some i := by
    intro id i hIndex
    rw [written_byId_get hValid, if_neg, hIndex]
    rintro rfl
    rw [hNew] at hIndex
    cases hIndex
  refine ⟨?_, written_byId h.byId hValid, ?_, ?_, ?_, ?_⟩
  · rw [hRows]
    exact h.header.attributed (FileEntry.isHeader_of_base (row_base hValid))
  · intro i row hAt hTree
    rw [hRows] at hAt
    obtain ⟨entry, hEntry, hId, _, hHeader, _⟩ := attributed_getElem? hAt
    rcases Nat.lt_or_ge i m.fileEntries.length with hLt | hGe
    · rw [List.getElem?_append_left hLt] at hEntry
      obtain ⟨id, hOwnId, hOwn⟩ := h.own i entry hEntry (hHeader ▸ hTree)
      exact ⟨id, hId.trans hOwnId, hGrows id i hOwn⟩
    · obtain ⟨rfl, rfl⟩ := getElem?_concat_of_ge hEntry hGe
      exact ⟨_, hId.trans (row_id hValid), by rw [written_byId_get hValid, if_pos rfl]⟩
  · intro i row parent hAt hParent
    rw [hRows] at hAt
    obtain ⟨entry, hEntry, _, hLink, _, _⟩ := attributed_getElem? hAt
    rcases Nat.lt_or_ge i m.fileEntries.length with hLt | hGe
    · rw [List.getElem?_append_left hLt] at hEntry
      obtain ⟨j, hIndex, hBefore⟩ := h.parents i entry parent hEntry (hLink ▸ hParent)
      exact ⟨j, hGrows parent j hIndex, hBefore⟩
    · obtain ⟨rfl, rfl⟩ := getElem?_concat_of_ge hEntry hGe
      rw [hLink, row_parentId hValid] at hParent
      obtain ⟨j, hIndex⟩ := Option.isSome_iff_exists.mp (leaf_known h hValid hParent)
      exact ⟨j, hGrows parent j hIndex, h.lt_length hIndex⟩
  · intro id hLeaf
    rw [written_leafId hValid] at hLeaf
    obtain rfl := Option.some.inj hLeaf
    rw [written_byId_get hValid, if_pos rfl]
    rfl
  · intro row hRow hAssistant
    rw [written_hasAssistantEntry hValid]
    rw [hRows] at hRow
    obtain ⟨i, hAt⟩ := List.mem_iff_getElem?.mp hRow
    obtain ⟨entry, hEntry, _, _, _, hSame⟩ := attributed_getElem? hAt
    rw [hSame] at hAssistant
    show (m.hasAssistantEntry || _) = true
    rcases List.mem_append.mp (List.mem_of_getElem? hEntry) with hOld | hOld
    · rw [h.assistants entry hOld hAssistant, Bool.true_or]
    · rw [← List.mem_singleton.mp hOld, hAssistant, Bool.or_true]

theorem Fresh.chained {m : SessionManager} (h : Fresh m) : Chained m := by
  obtain ⟨header, hRows, hIndex⟩ := h
  have hById : m.byId = KeyMap.empty := congrArg EntryIndex.byId hIndex
  have hLeaf : m.leafId = none := congrArg EntryIndex.leafId hIndex
  refine ⟨?_, ?_, ?_, ?_, ?_, ?_⟩
  · rw [hRows]
    exact ⟨header, [], rfl, by simp⟩
  · rw [hRows, hById]
    rfl
  · intro i row hAt hTree
    rw [hRows, List.getElem?_singleton] at hAt
    split at hAt
    · obtain rfl := Option.some.inj hAt
      cases hTree
    · cases hAt
  · intro i row parent hAt hParent
    rw [hRows, List.getElem?_singleton] at hAt
    split at hAt
    · obtain rfl := Option.some.inj hAt
      cases hParent
    · cases hAt
  · intro id h
    rw [hLeaf] at h
    cases h
  · intro row hRow hAssistant
    rw [hRows] at hRow
    obtain rfl := List.mem_singleton.mp hRow
    cases hAssistant

end Rows

section Runs

variable {serde : Serde} {env : Env} {w w' : World}

theorem run_chained {op : Op} (h : Chained w.manager) (hDurable : op.isDurable = true)
    (hFresh : w.manager.byId.contains (env.ids 0).whole = false) (hRun : op.run serde env w = some w') :
    Chained w'.manager := by
  cases hAppend : op.isAppend with
  | true =>
    cases hRow : op.rowWrite? env w.manager with
    | none => rwa [Op.run_of_no_rowWrite hAppend hRow hRun]
    | some write =>
      rw [Op.run_of_rowWrite hRow] at hRun
      obtain rfl := Option.some.inj hRun
      have hValid := Op.rowWrite?_valid hRow
      rcases @Op.perform_manager serde env w write hValid with ⟨flushed, hManager⟩ | hSame
      · rw [hManager]
        exact (written_chained h hFresh hValid).setFlushed flushed
      · rwa [hSame]
  | false =>
    cases op with
    | branch branchFromId =>
      rw [Op.run, World.branch] at hRun
      split at hRun
      · cases hRun
      · rename_i hEntry
        obtain rfl := Option.some.inj hRun
        refine h.setLeafId ?_
        rintro id hId
        obtain rfl := Option.some.inj hId
        exact byId_of_getEntryById (by simpa [Option.isSome_iff_ne_none] using hEntry)
    | resetLeaf =>
      obtain rfl := Option.some.inj hRun
      exact h.setLeafId (by rintro id hId; cases hId)
    | flushNow =>
      obtain rfl := Option.some.inj hRun
      obtain ⟨flushed, hManager⟩ := @World.flushNow_manager serde env w
      rw [hManager]
      exact h.setFlushed flushed
    | newSession | adoptEntries | materializeSessionFile | setSessionFile => cases hDurable
    | _ => cases hAppend

theorem durableRun_chained (h : DurableRun serde w) : Chained w.manager := by
  induction h with
  | persisted env disk cwd sessionDir _ => exact (newDefaultSession_fresh env _).chained
  | step env op _ hStep ih => exact run_chained ih hStep.durable hStep.fresh hStep.run
  | removed path _ ih => exact ih

end Runs

end PrimeAgent
