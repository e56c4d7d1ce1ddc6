import PrimeAgent.Session.Walks

/-! # The branch a summary covers

`collect_entries_for_branch_summary` between two rows of a tree, against their root paths: the ancestor
it stops at is the first row the paths share, and the summary covers what lies below it.
-/
namespace PrimeAgent

open ParentWalk

def firstRow (entries : List FileEntry) (id : String) : Option FileEntry :=
  (firstIndexById entries id).bind (entries[·]?)

inductive Upward (entries : List FileEntry) : Option String → List FileEntry → Prop where
  | stops {id? : Option String} : id?.bind (firstRow entries) = none → Upward entries id? []
  | climbs {id : String} {row : FileEntry} {rest : List FileEntry} : firstRow entries id = some row →
      Upward entries row.parentId rest → Upward entries (some id) (row :: rest)

def RootPath (entries : List FileEntry) (id : String) (path : List FileEntry) : Prop :=
  Upward entries (some id) path.reverse

variable {entries : List FileEntry} {id : String} {id? : Option String} {rows : List FileEntry}
  {oldRows targetRows : List FileEntry}

theorem firstRow_id {row : FileEntry} (hRow : firstRow entries id = some row) :
    row.id = some id := by
  obtain ⟨index, hIndex, hAt⟩ := Option.bind_eq_some_iff.mp hRow
  obtain ⟨hLt, hTest, -⟩ := List.findIdx?_eq_some_iff_getElem.mp hIndex
  rw [List.getElem?_eq_getElem hLt] at hAt
  rw [← Option.some.inj hAt]
  exact eq_of_beq hTest

namespace Upward

variable {entries : List FileEntry} {id? : Option String} {rows rest : List FileEntry} {row : FileEntry}

section

variable (hUp : Upward entries id? rows)

include hUp

theorem first (hMem : row ∈ rows) :
    ∃ id, row.id = some id ∧ firstRow entries id = some row := by
  induction hUp with
  | stops => cases hMem
  | climbs hRow _ ih =>
    rcases List.mem_cons.mp hMem with rfl | hMem
    · exact ⟨_, firstRow_id hRow, hRow⟩
    · exact ih hMem

theorem determined (hOther : Upward entries id? rest) : rows = rest := by
  induction hUp generalizing rest with
  | stops hNone =>
    cases hOther with
    | stops => rfl
    | climbs hRow => rw [Option.bind_some, hRow] at hNone; cases hNone
  | climbs hRow _ ih =>
    cases hOther with
    | stops hNone => rw [Option.bind_some, hRow] at hNone; cases hNone
    | climbs hRow' hRest =>
      cases hRow.symm.trans hRow'
      rw [ih hRest]

theorem within {below : List FileEntry} (hRows : rows = below ++ row :: rest) :
    Upward entries row.id (row :: rest) := by
  induction hUp generalizing below with
  | stops => cases below <;> cases hRows
  | climbs hRow hRest ih =>
    cases below with
    | nil =>
      cases hRows
      rw [firstRow_id hRow]
      exact .climbs hRow hRest
    | cons head below =>
      cases hRows
      exact ih rfl

theorem same_of_id {other : Option String} {others : List FileEntry} {row' : FileEntry}
    (hOther : Upward entries other others) (hMem : row ∈ rows) (hMem' : row' ∈ others) (hId : row.id = row'.id) :
    row = row' := by
  obtain ⟨id, hRow, hFirst⟩ := hUp.first hMem
  obtain ⟨id', hRow', hFirst'⟩ := hOther.first hMem'
  cases (hRow.symm.trans hId).trans hRow'
  exact Option.some.inj (hFirst.symm.trans hFirst')

theorem nodup : rows.Pairwise fun row other => row.id ≠ other.id := by
  induction hUp with
  | stops => exact List.Pairwise.nil
  | @climbs id row rest hRow hRest ih =>
    refine List.pairwise_cons.mpr ⟨fun other hMem hId => ?_, ih⟩
    obtain ⟨below, above, hSplit⟩ := List.append_of_mem hMem
    have hUp : Upward entries row.id (row :: rest) := by
      rw [firstRow_id hRow]
      exact .climbs hRow hRest
    have hSame := hUp.determined (hId ▸ hRest.within hSplit)
    have hLength := congrArg List.length hSame
    simp [hSplit] at hLength
    omega

end

end Upward

theorem follow_upward (fuel : Nat) {path : List Nat}
    (hPath : follow (firstParentIndex entries) fuel (id?.bind (firstIndexById entries)) = some path) :
    Upward entries id? (rowsAt entries path) := by
  induction fuel generalizing id? path with
  | zero =>
    cases hIndex : id?.bind (firstIndexById entries) with
    | none =>
      rw [hIndex] at hPath
      cases hPath
      refine .stops ?_
      cases id? with
      | none => rfl
      | some id => simp only [Option.bind_some, firstRow] at hIndex ⊢; rw [hIndex]; rfl
    | some index => rw [hIndex] at hPath; cases hPath
  | succ fuel ih =>
    cases id? with
    | none =>
      cases hPath
      exact .stops rfl
    | some id =>
      rw [Option.bind_some] at hPath
      cases hIndex : firstIndexById entries id with
      | none =>
        rw [hIndex] at hPath
        cases hPath
        refine .stops ?_
        rw [Option.bind_some, firstRow, hIndex]
        rfl
      | some index =>
        have hAt := List.getElem?_eq_getElem (firstIndexById_lt hIndex)
        rw [hIndex, follow] at hPath
        obtain ⟨above, hAbove, rfl⟩ := Option.map_eq_some_iff.mp hPath
        rw [firstParentIndex, hAt, Option.bind_some] at hAbove
        rw [rowsAt, List.filterMap_cons_some hAt]
        refine .climbs ?_ (ih hAbove)
        rw [firstRow, hIndex, Option.bind_some, hAt]

theorem collectWalk_takeWhile {ancestor : Option String} (hUp : Upward entries id? rows) {fuel : Nat}
    {collected : List FileEntry} (hWalk : collectWalk entries ancestor fuel id? = some collected) :
    collected = rows.takeWhile fun row => row.id != ancestor := by
  induction hUp generalizing fuel collected with
  | @stops id? hNone =>
    cases id? with
    | none =>
      rw [collectWalk] at hWalk
      exact (Option.some.inj hWalk).symm
    | some id =>
      cases fuel with
      | zero => cases hWalk
      | succ fuel =>
        rw [collectWalk] at hWalk
        split at hWalk
        · exact (Option.some.inj hWalk).symm
        · rw [Option.bind_some, firstRow] at hNone
          cases hIndex : firstIndexById entries id with
          | none =>
            rw [hIndex] at hWalk
            exact (Option.some.inj hWalk).symm
          | some index =>
            rw [hIndex, Option.bind_some] at hNone
            simp only [hIndex, hNone] at hWalk
            exact (Option.some.inj hWalk).symm
  | @climbs id row rest hRow _ ih =>
    cases fuel with
    | zero => cases hWalk
    | succ fuel =>
      rw [collectWalk] at hWalk
      have hId := firstRow_id hRow
      split at hWalk
      · rename_i hHere
        rw [List.takeWhile_cons_of_neg (by simp [hId, hHere])]
        exact (Option.some.inj hWalk).symm
      · rename_i hBelow
        obtain ⟨index, hIndex, hAt⟩ := Option.bind_eq_some_iff.mp hRow
        simp only [hIndex, hAt] at hWalk
        obtain ⟨more, hMore, rfl⟩ := Option.map_eq_some_iff.mp hWalk
        rw [List.takeWhile_cons_of_pos (by simpa [hId] using hBelow), ih hMore]

theorem parentPath_upward {fuel : Nat} {ids : List String} (hPath : parentPath entries fuel id = some ids) :
    ∃ rows, Upward entries (some id) rows ∧ ids = rows.filterMap FileEntry.id := by
  obtain ⟨path, hFollow, rfl⟩ := Option.map_eq_some_iff.mp hPath
  exact ⟨rowsAt entries path, follow_upward fuel hFollow, List.filterMap_filterMap.symm⟩

def sharedRows (oldPath targetPath : List FileEntry) : List FileEntry :=
  targetPath.filter (· ∈ oldPath)

structure Summarizes (oldPath targetPath : List FileEntry) (result : CollectEntriesResult) : Prop where
  ancestor : result.commonAncestorId = (sharedRows oldPath targetPath).getLast?.bind FileEntry.id
  entries : result.entries = oldPath.filter (· ∉ targetPath)

theorem find_shared {old target : Option String} (hOld : Upward entries old oldRows)
    (hTarget : Upward entries target targetRows) :
    (targetRows.filterMap FileEntry.id).reverse.find? (· ∈ oldRows.filterMap FileEntry.id) =
      (sharedRows oldRows.reverse targetRows.reverse).head?.bind FileEntry.id := by
  have hIds : ∀ rows : List FileEntry, (∀ row ∈ rows, row ∈ targetRows) →
      (rows.filterMap FileEntry.id).find? (· ∈ oldRows.filterMap FileEntry.id) =
        (rows.find? (· ∈ oldRows.reverse)).bind FileEntry.id := by
    intro rows hRows
    induction rows with
    | nil => rfl
    | cons row rows ih =>
      obtain ⟨hHere, hRest⟩ := List.forall_mem_cons.mp hRows
      obtain ⟨id, hId, -⟩ := hTarget.first hHere
      have hMem : id ∈ oldRows.filterMap FileEntry.id ↔ row ∈ oldRows := by
        rw [List.mem_filterMap]
        constructor
        · rintro ⟨other, hOther, hSame⟩
          rwa [hTarget.same_of_id hOld hHere hOther (hId.trans hSame.symm)]
        · exact fun hIn => ⟨row, hIn, hId⟩
      rw [List.filterMap_cons_some hId, List.find?_cons, List.find?_cons]
      by_cases hIn : row ∈ oldRows
      · simp [hIn, hMem.mpr hIn, hId]
      · simp only [hMem, hIn, decide_false, List.mem_reverse]
        simpa using ih hRest
  rw [← List.filterMap_reverse, hIds _ fun row hRow => List.mem_reverse.mp hRow, sharedRows, List.head?_filter]

theorem sharedRows_pairwise {entries : List FileEntry} {id : String} {oldPath targetPath : List FileEntry}
    (hTarget : RootPath entries id targetPath) :
    (sharedRows oldPath targetPath).Pairwise fun row other => row.id ≠ other.id := by
  have hReversed := hTarget.nodup
  rw [List.pairwise_reverse] at hReversed
  exact (hReversed.imp fun hNe => Ne.symm hNe).sublist List.filter_sublist

theorem ends_agree_iff (hDistinct : rows.Pairwise fun row other => row.id ≠ other.id) :
    rows.head?.bind FileEntry.id = rows.getLast?.bind FileEntry.id ↔ rows.length ≤ 1 := by
  cases rows with
  | nil => simp
  | cons row rows =>
    cases hRows : rows with
    | nil => simp
    | cons next rest =>
      subst hRows
      have hNe := (List.pairwise_cons.mp hDistinct).1 _ (List.getLast_mem (List.cons_ne_nil next rest))
      rw [List.getLast?_cons_cons, List.getLast?_eq_some_getLast (List.cons_ne_nil next rest)]
      simp only [List.head?_cons, Option.bind_some, List.length_cons]
      exact ⟨fun hSame => absurd hSame hNe, fun hLength => by omega⟩

theorem below_shared {old target : String} (hOld : Upward entries (some old) oldRows)
    (hTarget : Upward entries (some target) targetRows)
    (hShared : (sharedRows oldRows.reverse targetRows.reverse).length ≤ 1) :
    (oldRows.takeWhile fun row =>
        row.id != (sharedRows oldRows.reverse targetRows.reverse).head?.bind FileEntry.id) =
      oldRows.filter (· ∉ targetRows) := by
  have hMem : ∀ row, row ∈ sharedRows oldRows.reverse targetRows.reverse ↔ row ∈ targetRows ∧ row ∈ oldRows := by
    simp [sharedRows]
  cases hRows : sharedRows oldRows.reverse targetRows.reverse with
  | nil =>
    have hApart : ∀ row ∈ oldRows, row ∉ targetRows := fun row hRow hIn =>
      List.not_mem_nil (hRows ▸ (hMem row).mpr ⟨hIn, hRow⟩)
    rw [List.filter_eq_self.mpr fun row hRow => by simpa using hApart row hRow]
    refine List.takeWhile_eq_self_iff.mpr fun row hRow => ?_
    obtain ⟨id, hId, -⟩ := hOld.first hRow
    simp [hId]
  | cons shared rest =>
    rw [hRows, List.length_cons] at hShared
    have hRest : rest = [] := List.length_eq_zero_iff.mp (by omega)
    subst hRest
    have hOnly : ∀ row ∈ oldRows, row ∈ targetRows → row = shared := fun row hRow hIn =>
      List.mem_singleton.mp (hRows ▸ (hMem row).mpr ⟨hIn, hRow⟩)
    obtain ⟨hSharedTarget, hSharedOld⟩ := (hMem shared).mp (hRows ▸ List.mem_singleton_self shared)
    obtain ⟨below, above, hSplit⟩ := List.append_of_mem hSharedOld
    obtain ⟨below', above', hSplit'⟩ := List.append_of_mem hSharedTarget
    have hAbove : above = above' :=
      (List.cons.inj ((hOld.within hSplit).determined (hTarget.within hSplit'))).2
    have hDistinct := hOld.nodup
    rw [hSplit] at hDistinct
    have hBelow : ∀ row ∈ below, row.id ≠ shared.id := fun row hRow =>
      (List.pairwise_append.mp hDistinct).2.2 row hRow shared List.mem_cons_self
    have hUnshared : ∀ row ∈ below, row ∉ targetRows := fun row hRow hIn =>
      hBelow row hRow (congrArg FileEntry.id (hOnly row (hSplit ▸ List.mem_append_left _ hRow) hIn))
    rw [List.head?_cons, Option.bind_some, hSplit,
      List.takeWhile_append_of_pos fun row hRow => by simpa using hBelow row hRow,
      List.takeWhile_cons_of_neg (by simp), List.append_nil, List.filter_append,
      List.filter_eq_self.mpr fun row hRow => by simpa using hUnshared row hRow]
    refine (List.append_right_eq_self.mpr (List.filter_eq_nil_iff.mpr fun row hRow => ?_)).symm
    have hIn : row ∈ targetRows := by
      rw [hSplit', ← hAbove]
      exact List.mem_append_right _ hRow
    simpa using hIn

theorem collects_branch_iff {entries : List FileEntry} (hAcyclic : Acyclic (firstParentIndex entries))
    (oldLeafId targetId : String) :
    ∃ oldPath targetPath, RootPath entries oldLeafId oldPath ∧ RootPath entries targetId targetPath ∧
      (Halts fun fuel => collectEntriesForBranchSummary entries fuel (some oldLeafId) targetId) ∧
      ∀ fuel result, collectEntriesForBranchSummary entries fuel (some oldLeafId) targetId = some result →
        (Summarizes oldPath targetPath result ↔ (sharedRows oldPath targetPath).length ≤ 1) := by
  have hParents : ∀ leafId, Halts fun fuel => parentPath entries fuel leafId := fun leafId =>
    (halts_map_iff _).mpr (halts_of_acyclic (Finset.range entries.length)
      (fun a b h => Finset.mem_range.mpr (firstParentIndex_lt h)) hAcyclic _)
  have hRoot : ∀ leafId, ∃ rows, Upward entries (some leafId) rows := by
    intro leafId
    obtain ⟨fuel, hSome⟩ := hParents leafId
    obtain ⟨ids, hIds⟩ := Option.isSome_iff_exists.mp hSome
    obtain ⟨rows, hUp, -⟩ := parentPath_upward hIds
    exact ⟨rows, hUp⟩
  obtain ⟨oldRows, hOld⟩ := hRoot oldLeafId
  obtain ⟨targetRows, hTarget⟩ := hRoot targetId
  have hTargetPath : RootPath entries targetId targetRows.reverse := by rwa [RootPath, List.reverse_reverse]
  refine ⟨oldRows.reverse, targetRows.reverse, by rwa [RootPath, List.reverse_reverse], hTargetPath,
    collectEntries_halts (hParents oldLeafId) (hParents targetId), fun fuel result hResult => ?_⟩
  simp only [collectEntriesForBranchSummary, Option.bind_eq_bind, Option.bind_eq_some_iff] at hResult
  obtain ⟨oldIds, hOldIds, targetIds, hTargetIds, collected, hWalk, hResult⟩ := hResult
  obtain ⟨rows, hUp, rfl⟩ := parentPath_upward hOldIds
  obtain rfl := hUp.determined hOld
  obtain ⟨rows', hUp', rfl⟩ := parentPath_upward hTargetIds
  obtain rfl := hUp'.determined hTarget
  rw [find_shared hOld hTarget] at hWalk hResult
  cases hResult
  have hEnds := ends_agree_iff (@sharedRows_pairwise _ _ rows.reverse _ hTargetPath)
  constructor
  · exact fun hSummarizes => hEnds.mp hSummarizes.ancestor
  · intro hShared
    refine ⟨hEnds.mpr hShared, ?_⟩
    rw [collectWalk_takeWhile hOld hWalk, below_shared hOld hTarget hShared, ← List.filter_reverse]
    simp only [List.mem_reverse]

/-- Two answers to `a1` and one to `u1`. -/
def forkedRows : List FileEntry :=
  [("u1", none), ("a1", some "u1"), ("u2", some "a1"), ("u3", some "u1"), ("u4", some "a1")].map fun row =>
    .custom ⟨"x", none⟩ { id := some row.1, parentId := row.2, timestamp := none }

theorem forkedRows_acyclic : Acyclic (firstParentIndex forkedRows) := by
  have hDown : ∀ i j, firstParentIndex forkedRows i = some j → j < i := by
    intro i j hParent
    have hParents : ∀ i < 5, ∀ j < 5, firstParentIndex forkedRows i = some j → j < i := by decide
    have hLength : i < 5 := by
      by_contra hAbove
      rw [firstParentIndex, List.getElem?_eq_none (by simp [forkedRows]; omega)] at hParent
      cases hParent
    exact hParents i hLength j (firstParentIndex_lt hParent) hParent
  exact acyclic_of_halts fun a b _ => ⟨b + 1, follow_isSome_of_descending hDown b (b + 1) (Nat.lt_succ_self b)⟩

theorem forked_branch_collected :
    Halts fun fuel => collectEntriesForBranchSummary forkedRows fuel (some "u2") "u3" := by
  obtain ⟨_, _, -, -, hHalts, -⟩ := collects_branch_iff forkedRows_acyclic "u2" "u3"
  exact hHalts

/-- Rows `u1` and `a1` are shared, and the summary still covers `a1`. -/
theorem shared_rows_summarized :
    ¬ ∀ (entries : List FileEntry) (oldLeafId targetId : String) (oldPath targetPath : List FileEntry) (fuel : Nat)
      (result : CollectEntriesResult), (entries.filterMap FileEntry.id).Nodup → Acyclic (firstParentIndex entries) →
      RootPath entries oldLeafId oldPath → RootPath entries targetId targetPath →
      collectEntriesForBranchSummary entries fuel (some oldLeafId) targetId = some result →
      Summarizes oldPath targetPath result := by
  intro hSummarizes
  have hUp : ∀ fuel id rows, (follow (firstParentIndex forkedRows) fuel (firstIndexById forkedRows id)).map
      (rowsAt forkedRows) = some rows → RootPath forkedRows id rows.reverse := by
    intro fuel id rows hRows
    obtain ⟨path, hPath, rfl⟩ := Option.map_eq_some_iff.mp hRows
    rw [RootPath, List.reverse_reverse]
    exact follow_upward fuel hPath
  have hOld := hUp 5 "u2" [forkedRows[2], forkedRows[1], forkedRows[0]] (by decide)
  have hTarget := hUp 5 "u4" [forkedRows[4], forkedRows[1], forkedRows[0]] (by decide)
  have hResult : collectEntriesForBranchSummary forkedRows 5 (some "u2") "u4" =
      some ⟨[forkedRows[1], forkedRows[2]], some "u1"⟩ := by
    rfl
  have hAncestor := (hSummarizes forkedRows "u2" "u4" _ _ 5 _ (by decide) forkedRows_acyclic hOld hTarget
    hResult).ancestor
  exact absurd hAncestor (by decide)

end PrimeAgent
