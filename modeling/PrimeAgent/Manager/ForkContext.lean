import PrimeAgent.Manager.Fork

/-! # The path of a fork

The path of a fork to a kept leaf is that of its source without the dropped rows.
-/
namespace PrimeAgent

open ParentWalk LastSplit

section Messages

variable (parentId : Option String)

theorem messagesOf_withParent (keep : Option String) (rows : List FileEntry) :
    messagesOf keep (rows.map (·.withParent parentId)) = messagesOf keep rows := by
  simp [messagesOf, List.flatMap_map]

theorem splitAtLast_digest_withParent (rows : List FileEntry) :
    splitAtLast isHarnessDigest (rows.map (·.withParent parentId))
      = (splitAtLast isHarnessDigest rows).map fun found =>
        (found.1.map (·.withParent parentId), found.2.1.withParent parentId, found.2.2.map (·.withParent parentId)) := by
  rw [splitAtLast_map]
  simp only [FileEntry.withParent_isHarnessDigest]

theorem newestDigestId_withParent (rows : List FileEntry) :
    newestDigestId (rows.map (·.withParent parentId)) = newestDigestId rows := by
  rw [newestDigestId, newestDigestId, splitAtLast_digest_withParent]
  cases splitAtLast isHarnessDigest rows <;> simp

theorem keptDigestId_withParent (rows : List FileEntry) (payload : CompactionEntry) (position : Nat) :
    keptDigestId (rows.map (·.withParent parentId)) payload position = keptDigestId rows payload position := by
  rw [keptDigestId, keptDigestId, newestDigestId_withParent, snapshotOutranksDigest, snapshotOutranksDigest,
    splitAtLast_digest_withParent]
  cases splitAtLast isHarnessDigest rows <;> simp

theorem digestAfter_withParent (rows : List FileEntry) (position : Nat) :
    digestAfter (rows.map (·.withParent parentId)) position = digestAfter rows position := by
  rw [digestAfter, digestAfter, splitAtLast_digest_withParent]
  cases splitAtLast isHarnessDigest rows <;> simp

theorem retainedRows_withParent (payload : CompactionEntry) (before : List FileEntry) :
    retainedRows payload (before.map (·.withParent parentId))
      = (retainedRows payload before).map (·.withParent parentId) := by
  rw [retainedRows, retainedRows, List.dropWhile_map]
  congr 2
  funext row
  simp

theorem rowMessages_withParent (rows : List FileEntry) :
    rowMessages (rows.map (·.withParent parentId)) = rowMessages rows := by
  have hCompaction := splitAtLast_map FileEntry.isCompaction (·.withParent parentId) rows
  simp only [FileEntry.withParent_isCompaction] at hCompaction
  rw [rowMessages, rowMessages, hCompaction]
  cases hLast : splitAtLast FileEntry.isCompaction rows with
  | none => simp only [Option.map_none, messagesOf_withParent, newestDigestId_withParent]
  | some found =>
    obtain ⟨before, c, after⟩ := found
    obtain ⟨payload, base, rfl⟩ := exists_compaction (splitAtLast_eq_some_iff.mp hLast).2.1
    have hRow : (FileEntry.compaction payload base).withParent parentId
        = .compaction payload { base with parentId := parentId } := rfl
    simp only [Option.map_some, hRow, compactedMessages, List.length_map, keptDigestId_withParent,
      digestAfter_withParent, retainedRows_withParent, messagesOf_withParent]
    rfl

end Messages

section Rows

variable {entries : List FileEntry} {id : String}

theorem uniqueIds_iff_pairwise :
    UniqueIds entries ↔ entries.Pairwise fun a b => ∀ id, a.id = some id → b.id ≠ some id := by
  rw [List.pairwise_iff_getElem]
  constructor
  · intro hUnique i j hi hj hLt id hId hId'
    have := hUnique i j id (by simpa [hi] using hId) (by simpa [hj] using hId')
    omega
  · intro hPairs i j id hi hj
    rw [Option.bind_eq_some_iff] at hi hj
    obtain ⟨a, hAt, hId⟩ := hi
    obtain ⟨b, hAt', hId'⟩ := hj
    obtain ⟨hi, rfl⟩ := List.getElem?_eq_some_iff.mp hAt
    obtain ⟨hj, rfl⟩ := List.getElem?_eq_some_iff.mp hAt'
    rcases Nat.lt_trichotomy i j with hLt | hEq | hGt
    · exact absurd hId' (hPairs i j hi hj hLt id hId)
    · exact hEq
    · exact absurd hId (hPairs j i hj hi hGt id hId')

theorem row_unique (hUnique : UniqueIds entries) {a b : FileEntry} (ha : a ∈ entries) (hb : b ∈ entries)
    (hId : a.id = some id) (hId' : b.id = some id) : a = b := by
  obtain ⟨i, hAt, hIdAt⟩ := exists_index_of_mem ha hId
  obtain ⟨j, hAt', hIdAt'⟩ := exists_index_of_mem hb hId'
  obtain rfl := hUnique i j id hIdAt hIdAt'
  exact Option.some.inj (hAt.symm.trans hAt')

theorem threaded_of_pairwise
    (hLater : entries.Pairwise fun a b => ∀ id, a.parentId = some id → b.id ≠ some id)
    (hSelf : ∀ a ∈ entries, ∀ id, a.parentId = some id → a.id ≠ some id) : Threaded entries := by
  intro i j hParent
  simp only [parentIndex, Option.bind_eq_some_iff] at hParent
  obtain ⟨a, hAt, id, hId, hIndex⟩ := hParent
  have hRow := ((indexById_eq_some_iff entries id j).mp hIndex).1
  rw [Option.bind_eq_some_iff] at hRow
  obtain ⟨b, hAt', hId'⟩ := hRow
  obtain ⟨hi, rfl⟩ := List.getElem?_eq_some_iff.mp hAt
  obtain ⟨hj, rfl⟩ := List.getElem?_eq_some_iff.mp hAt'
  rcases Nat.lt_trichotomy i j with hLt | rfl | hGt
  · exact absurd hId' (List.pairwise_iff_getElem.mp hLater i j hi hj hLt id hId)
  · exact absurd hId' (hSelf _ (List.getElem_mem hi) id hId)
  · exact hGt

theorem ancestry_of_row (hUnique : UniqueIds entries) (hThreaded : Threaded entries) {row : FileEntry}
    (hMem : row ∈ entries) (hId : row.id = some id) :
    ancestry entries (some id) = ancestry entries row.parentId ++ [row] := by
  obtain ⟨i, hAt, hIdAt⟩ := exists_index_of_mem hMem hId
  rw [← rowsAt_ascent hThreaded hAt, ancestry, Option.bind_some, lookup_unique hUnique hIdAt]

theorem ancestry_of_no_row (hNone : ∀ row ∈ entries, row.id ≠ some id) :
    ancestry entries (some id) = [] := by
  refine ancestry_of_none ?_
  cases hIndex : (indexById entries).get id with
  | none => rfl
  | some i =>
    have hRow := ((indexById_eq_some_iff entries id i).mp hIndex).1
    rw [Option.bind_eq_some_iff] at hRow
    obtain ⟨row, hAt, hId⟩ := hRow
    exact absurd hId (hNone row (List.mem_of_getElem? hAt))

theorem nearestLive_rank_le (hUnique : UniqueIds entries) (hThreaded : Threaded entries) {id? answer : Option String}
    (h : NearestLive entries id? answer) : rank entries answer ≤ rank entries id? := by
  induction h with
  | root | live _ => exact Nat.le_refl _
  | dropped hMem hId _ _ ih => exact Nat.le_trans ih (Nat.le_of_lt (rank_parent_lt hUnique hThreaded hMem hId))

end Rows

theorem exists_right_of_mem {α β : Type} {R : α → β → Prop} {as : List α} {bs : List β} (h : List.Forall₂ R as bs)
    {a : α} (ha : a ∈ as) : ∃ b ∈ bs, R a b := by
  induction h with
  | nil => cases ha
  | cons hHead _ ih =>
    rcases List.mem_cons.mp ha with rfl | ha
    · exact ⟨_, List.mem_cons_self, hHead⟩
    · obtain ⟨b, hb, hR⟩ := ih ha
      exact ⟨b, List.mem_cons_of_mem _ hb, hR⟩

theorem exists_left_of_mem {α β : Type} {R : α → β → Prop} {as : List α} {bs : List β} (h : List.Forall₂ R as bs)
    {b : β} (hb : b ∈ bs) : ∃ a ∈ as, R a b :=
  exists_right_of_mem h.flip hb

theorem pairwise_of_forall₂ {α β : Type} {R : α → β → Prop} {S : α → α → Prop} {T : β → β → Prop} {as : List α}
    {bs : List β} (h : List.Forall₂ R as bs) (hStep : ∀ a a' b b', R a b → R a' b' → S a a' → T b b')
    (hPairs : as.Pairwise S) : bs.Pairwise T := by
  induction h with
  | nil => exact .nil
  | cons hHead hTail ih =>
    obtain ⟨hFirst, hRest⟩ := List.pairwise_cons.mp hPairs
    refine List.pairwise_cons.mpr ⟨fun b hb => ?_, ih hRest⟩
    obtain ⟨a, ha, hR⟩ := exists_left_of_mem hTail hb
    exact hStep _ _ _ _ hHead hR (hFirst a ha)

theorem forall₂_concat {α β : Type} {R : α → β → Prop} {as : List α} {a : α} {bs : List β}
    (h : List.Forall₂ R (as ++ [a]) bs) : ∃ bs' b, bs = bs' ++ [b] ∧ R a b := by
  induction as generalizing bs with
  | nil =>
    obtain ⟨b, bs', hR, hRest, rfl⟩ := List.forall₂_cons_left_iff.mp h
    obtain rfl := List.forall₂_nil_left_iff.mp hRest
    exact ⟨[], b, rfl, hR⟩
  | cons c as ih =>
    obtain ⟨d, rest, _, hRest, rfl⟩ := List.forall₂_cons_left_iff.mp h
    obtain ⟨bs', b, rfl, hR⟩ := ih hRest
    exact ⟨d :: bs', b, rfl, hR⟩

section Copies

variable {entries : List FileEntry}

theorem Reparented.id_eq {entry copy : FileEntry} (h : Reparented entries entry copy) : copy.id = entry.id := by
  rw [← FileEntry.withParent_id none copy, h.same, FileEntry.withParent_id]

theorem Reparented.isForked_eq {entry copy : FileEntry} (h : Reparented entries entry copy) :
    copy.isForked = entry.isForked := by
  rw [← FileEntry.withParent_isForked none copy, h.same, FileEntry.withParent_isForked]

variable (hUnique : UniqueIds entries) (hThreaded : Threaded entries) {entry : FileEntry} {i : Nat}
  {leafId : Option String}
include hUnique hThreaded

theorem mem_copy {copy : FileEntry} (h : copy ∈ forkedBranchEntries entries) :
    ∃ entry ∈ entries, entry.isForked = true ∧ Reparented entries entry copy := by
  obtain ⟨entry, hMem, hCopy⟩ := exists_left_of_mem (forkedBranchEntries_reparented hUnique hThreaded) h
  obtain ⟨hMem, hForked⟩ := List.mem_filter.mp hMem
  exact ⟨entry, hMem, hForked, hCopy⟩

theorem exists_copy (hMem : entry ∈ entries) (hForked : entry.isForked = true) :
    ∃ copy ∈ forkedBranchEntries entries, Reparented entries entry copy :=
  exists_right_of_mem (forkedBranchEntries_reparented hUnique hThreaded) (List.mem_filter.mpr ⟨hMem, hForked⟩)

theorem fork_uniqueIds : UniqueIds (forkedBranchEntries entries) := by
  rw [uniqueIds_iff_pairwise]
  refine pairwise_of_forall₂ (forkedBranchEntries_reparented hUnique hThreaded) ?_
    ((uniqueIds_iff_pairwise.mp hUnique).filter _)
  intro a a' b b' hb hb' hIds id hId
  rw [hb.id_eq] at hId
  rw [hb'.id_eq]
  exact hIds id hId

theorem ancestor_above {i j : Nat} {a b : FileEntry} {id : String} (hAt : entries[i]? = some a)
    (hAt' : entries[j]? = some b) (hAncestor : NearestLive entries a.parentId (some id)) (hId : b.id = some id) :
    j < i := by
  have hRank := Nat.le_trans (nearestLive_rank_le hUnique hThreaded hAncestor) (rank_parent_le hThreaded hAt)
  rw [rank_of_row hUnique (i := j) (by rw [hAt', Option.bind_some, hId])] at hRank
  exact hRank

theorem fork_threaded : Threaded (forkedBranchEntries entries) := by
  refine threaded_of_pairwise ?_ ?_
  · refine pairwise_of_forall₂ (S := fun a b => ∀ id, NearestLive entries a.parentId (some id) → b.id ≠ some id)
      (forkedBranchEntries_reparented hUnique hThreaded) ?_ (List.Pairwise.filter _ ?_)
    · intro a a' b b' hb hb' hApart id hId
      rw [hb'.id_eq]
      exact hApart id (hId ▸ hb.parent)
    · rw [List.pairwise_iff_getElem]
      intro i j hi hj hLt id hAncestor hId
      have := ancestor_above hUnique hThreaded (List.getElem?_eq_getElem hi) (List.getElem?_eq_getElem hj)
        hAncestor hId
      omega
  · intro copy hCopy id hParent hId
    obtain ⟨entry, hMem, _, hReparented⟩ := mem_copy hUnique hThreaded hCopy
    obtain ⟨i, hAt⟩ := List.mem_iff_getElem?.mp hMem
    have := ancestor_above hUnique hThreaded hAt hAt (hParent ▸ hReparented.parent) (hReparented.id_eq ▸ hId)
    omega

theorem fork_ancestry : ∀ {id? answer : Option String}, NearestLive entries id? answer →
    (ancestry (forkedBranchEntries entries) answer).map (·.withParent none)
      = ((ancestry entries id?).filter FileEntry.isForked).map (·.withParent none) := by
  have hForkUnique := fork_uniqueIds hUnique hThreaded
  have hForkThreaded := fork_threaded hUnique hThreaded
  suffices hBound : ∀ bound id? answer, rank entries id? < bound → NearestLive entries id? answer →
      (ancestry (forkedBranchEntries entries) answer).map (·.withParent none)
        = ((ancestry entries id?).filter FileEntry.isForked).map (·.withParent none) from
    fun {_ _} hLive => hBound _ _ _ (Nat.lt_succ_self _) hLive
  intro bound
  induction bound with
  | zero => intro _ _ hRank; omega
  | succ bound ih =>
    intro id? answer hRank hLive
    cases hLive with
    | root => rfl
    | dropped hMem hId hGit hAbove =>
      rename_i id entry
      have hLower := rank_parent_lt hUnique hThreaded hMem hId
      rw [ancestry_of_row hUnique hThreaded hMem hId, List.filter_append,
        List.filter_cons_of_neg (by simp [FileEntry.isForked, hGit]), List.filter_nil, List.append_nil]
      exact ih _ _ (by omega) hAbove
    | live hKept =>
      rename_i id
      by_cases hRow : ∃ entry ∈ entries, entry.id = some id
      · obtain ⟨entry, hMem, hId⟩ := hRow
        have hLower := rank_parent_lt hUnique hThreaded hMem hId
        rw [ancestry_of_row hUnique hThreaded hMem hId, List.filter_append]
        cases hForked : entry.isForked with
        | true =>
          obtain ⟨copy, hCopy, hReparented⟩ := exists_copy hUnique hThreaded hMem hForked
          rw [ancestry_of_row hForkUnique hForkThreaded hCopy (hReparented.id_eq.trans hId),
            List.filter_cons_of_pos hForked, List.filter_nil, List.map_append, List.map_append,
            ih _ _ (by omega) hReparented.parent, List.map_singleton, List.map_singleton, hReparented.same]
        | false =>
          -- a row that is neither copied nor a `git_state` row is the header, which has no parent
          have hGit := hKept entry hMem hId
          have hHeader : entry.isHeader = true := by simpa [FileEntry.isForked, hGit] using hForked
          have hParent : entry.parentId = none := by
            cases entry with
            | header h => rfl
            | _ => cases hHeader
          rw [List.filter_cons_of_neg (by simp [hForked]), hParent, ancestry_of_no_row]
          · rfl
          · intro copy hCopy hCopyId
            obtain ⟨source, hSource, hSourceForked, hReparented⟩ := mem_copy hUnique hThreaded hCopy
            obtain rfl := row_unique hUnique hSource hMem (hReparented.id_eq ▸ hCopyId) hId
            rw [hForked] at hSourceForked
            cases hSourceForked
      · have hNone : ∀ entry ∈ entries, entry.id ≠ some id := fun entry hMem hId => hRow ⟨entry, hMem, hId⟩
        rw [ancestry_of_no_row hNone, ancestry_of_no_row]
        · rfl
        · intro copy hCopy hId
          obtain ⟨source, hSource, _, hReparented⟩ := mem_copy hUnique hThreaded hCopy
          exact hNone source hSource (hReparented.id_eq ▸ hId)

section

variable (hLeaf : leafIndex entries leafId = some i)

include hLeaf

theorem fork_leaf (hAt : entries[i]? = some entry) (hForked : entry.isForked = true) :
    ∃ j copy, leafIndex (forkedBranchEntries entries) leafId = some j ∧
      (forkedBranchEntries entries)[j]? = some copy ∧ Reparented entries entry copy := by
  have hLast : i = entries.length - 1 → ∃ j copy, (if (forkedBranchEntries entries).isEmpty then none
      else some ((forkedBranchEntries entries).length - 1)) = some j ∧
        (forkedBranchEntries entries)[j]? = some copy ∧ Reparented entries entry copy := by
    rintro rfl
    have hSplit : entries = entries.dropLast ++ [entry] := by
      rw [← List.getLast?_eq_getElem?, List.getLast?_eq_some_iff] at hAt
      obtain ⟨rest, rfl⟩ := hAt
      rw [List.dropLast_concat]
    have hKept : entries.filter FileEntry.isForked = entries.dropLast.filter FileEntry.isForked ++ [entry] := by
      conv => lhs; rw [hSplit, List.filter_append, List.filter_cons_of_pos hForked, List.filter_nil]
    obtain ⟨copies, copy, hCopies, hReparented⟩ :=
      forall₂_concat (hKept ▸ forkedBranchEntries_reparented hUnique hThreaded)
    exact ⟨copies.length, copy, by simp [hCopies], by simp [hCopies], hReparented⟩
  unfold leafIndex at hLeaf ⊢
  split at hLeaf
  · split at hLeaf
    · cases hLeaf
    · exact hLast (Option.some.inj hLeaf).symm
  · split at hLeaf
    · cases hLeaf
    · exact hLast (Option.some.inj hLeaf).symm
  · rename_i id _
    have hRow := ((indexById_eq_some_iff entries id i).mp hLeaf).1
    rw [hAt, Option.bind_some] at hRow
    obtain ⟨copy, hCopy, hReparented⟩ := exists_copy hUnique hThreaded (List.mem_of_getElem? hAt) hForked
    obtain ⟨j, hCopyAt, hIdAt⟩ := exists_index_of_mem hCopy (hReparented.id_eq.trans hRow)
    exact ⟨j, copy, lookup_unique (fork_uniqueIds hUnique hThreaded) hIdAt, hCopyAt, hReparented⟩

theorem fork_pathRows (hAt : entries[i]? = some entry) (hForked : entry.isForked = true) :
    (pathRows (forkedBranchEntries entries) leafId).map (·.withParent none)
      = ((pathRows entries leafId).filter FileEntry.isForked).map (·.withParent none) := by
  obtain ⟨j, copy, hLeaf', hAt', hReparented⟩ := fork_leaf hUnique hThreaded hLeaf hAt hForked
  rw [pathRows_of_leaf (fork_threaded hUnique hThreaded) hLeaf' hAt', pathRows_of_leaf hThreaded hLeaf hAt,
    List.filter_append, List.filter_cons_of_pos hForked, List.filter_nil, List.map_append, List.map_append,
    fork_ancestry hUnique hThreaded hReparented.parent, List.map_singleton, List.map_singleton, hReparented.same]

theorem fork_messages (hAt : entries[i]? = some entry) (hForked : entry.isForked = true) :
    (buildSessionContext (forkedBranchEntries entries) leafId).messages
      = rowMessages ((pathRows entries leafId).filter FileEntry.isForked) := by
  rw [buildSessionContext_eq (fork_threaded hUnique hThreaded), contextOfRows]
  rw [← rowMessages_withParent none, fork_pathRows hUnique hThreaded hLeaf hAt hForked, rowMessages_withParent]

end

end Copies

end PrimeAgent
