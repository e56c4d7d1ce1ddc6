import PrimeAgent.Engine.Coverage
import PrimeAgent.Manager.ForkContext

/-! # The context of a fork

A fork's context at a kept leaf is that of its source, unless the newest compaction on the path starts
its window at a row the fork drops.
-/
namespace PrimeAgent

open ParentWalk LastSplit

variable {row : FileEntry} {before after before' after' : List FileEntry} {q : FileEntry → Bool} {x y : FileEntry}
  {payload : CompactionEntry}

theorem appendMessage_of_not_forked (h : row.isForked = false) (keep : Option String) :
    appendMessage keep row = [] := by
  cases row <;> first | rfl | cases h

theorem messagesOf_filter (keep : Option String) (rows : List FileEntry) :
    messagesOf keep (rows.filter FileEntry.isForked) = messagesOf keep rows := by
  induction rows with
  | nil => rfl
  | cons row rows ih =>
    rw [messagesOf, messagesOf] at ih
    rw [messagesOf, messagesOf, List.flatMap_cons]
    cases hForked : row.isForked with
    | true => rw [List.filter_cons_of_pos hForked, List.flatMap_cons, ih]
    | false => rw [List.filter_cons_of_neg (by simp [hForked]), ih, appendMessage_of_not_forked hForked, List.nil_append]

theorem isForked_of_digest (h : isHarnessDigest row = true) : row.isForked = true := by
  cases row <;> first | rfl | cases h

theorem isForked_of_compaction (h : row.isCompaction = true) : row.isForked = true := by
  cases row <;> first | rfl | cases h

theorem filter_position (hSame : before ++ x :: after = before' ++ y :: after') (hx : q x = true)
    (hLt : before.length < before'.length) :
    (before.filter q).length < (before'.filter q).length := by
  rcases List.append_eq_append_iff.mp hSame with ⟨middle, rfl, hRest⟩ | ⟨middle, rfl, _⟩
  · cases middle with
    | nil => simp at hLt
    | cons z middle =>
      obtain ⟨rfl, _⟩ := List.cons.inj hRest
      rw [List.filter_append, List.filter_cons_of_pos hx]
      simp
  · rw [List.length_append] at hLt
    omega

theorem filter_position_iff (hSame : before ++ x :: after = before' ++ y :: after') (hx : q x = true) (hy : q y = true)
    (hNe : x ≠ y) :
    (before.filter q).length < (before'.filter q).length ↔ before.length < before'.length := by
  refine ⟨fun hLt => ?_, filter_position hSame hx⟩
  rcases Nat.lt_trichotomy before.length before'.length with hBelow | hEq | hAbove
  · exact hBelow
  · obtain ⟨_, hRest⟩ := List.append_inj hSame hEq
    exact absurd (List.cons.inj hRest).1 hNe
  · have := filter_position hSame.symm hy hAbove
    omega

theorem digest_ne_compaction (hx : isHarnessDigest x = true) (hy : y.isCompaction = true) : x ≠ y := by
  rintro rfl
  cases x <;> first | cases hx | cases hy

theorem newestDigestId_filter (rows : List FileEntry) :
    newestDigestId (rows.filter FileEntry.isForked) = newestDigestId rows := by
  rw [newestDigestId, newestDigestId, splitAtLast_filter rows fun _ _ => isForked_of_digest]
  cases splitAtLast isHarnessDigest rows <;> rfl

section Boundary

variable {rows before after : List FileEntry} {payload : CompactionEntry} {base : EntryBase}
  (hSplit : splitAtLast FileEntry.isCompaction rows = some (before, .compaction payload base, after))
include hSplit

theorem keptDigestId_filter :
    keptDigestId (rows.filter FileEntry.isForked) payload (before.filter FileEntry.isForked).length
      = keptDigestId rows payload before.length := by
  obtain ⟨hRows, hTest, _⟩ := splitAtLast_eq_some_iff.mp hSplit
  rw [keptDigestId, keptDigestId, newestDigestId_filter, snapshotOutranksDigest, snapshotOutranksDigest,
    splitAtLast_filter rows fun _ _ => isForked_of_digest]
  cases hDigest : splitAtLast isHarnessDigest rows with
  | none => rfl
  | some found =>
    obtain ⟨digestBefore, digest, digestAfter⟩ := found
    obtain ⟨hRows', hTest', _⟩ := splitAtLast_eq_some_iff.mp hDigest
    simp only [Option.map_some, Option.all_some, filter_position_iff (hRows'.symm.trans hRows) (isForked_of_digest hTest')
      (isForked_of_compaction hTest) (digest_ne_compaction hTest' hTest)]

theorem digestAfter_filter :
    digestAfter (rows.filter FileEntry.isForked) (before.filter FileEntry.isForked).length
      = digestAfter rows before.length := by
  obtain ⟨hRows, hTest, _⟩ := splitAtLast_eq_some_iff.mp hSplit
  rw [digestAfter, digestAfter, splitAtLast_filter rows fun _ _ => isForked_of_digest]
  cases hDigest : splitAtLast isHarnessDigest rows with
  | none => rfl
  | some found =>
    obtain ⟨digestBefore, digest, digestAfter⟩ := found
    obtain ⟨hRows', hTest', _⟩ := splitAtLast_eq_some_iff.mp hDigest
    simp only [Option.map_some, Option.any_some, filter_position_iff (hRows.symm.trans hRows') (isForked_of_compaction hTest)
      (isForked_of_digest hTest') (digest_ne_compaction hTest' hTest).symm]

theorem rowMessages_filter :
    rowMessages (rows.filter FileEntry.isForked)
      = summaryMessage payload (.compaction payload base)
          (messagesOf (keptDigestId rows payload before.length)
            (retainedRows payload (before.filter FileEntry.isForked))).length (digestAfter rows before.length)
        :: messagesOf (keptDigestId rows payload before.length)
            (retainedRows payload (before.filter FileEntry.isForked))
          ++ messagesOf (keptDigestId rows payload before.length) after := by
  have hKept := splitAtLast_filter (q := FileEntry.isForked) rows fun _ _ => isForked_of_compaction
  rw [hSplit, Option.map_some] at hKept
  simp only [rowMessages, hKept, compactedMessages, keptDigestId_filter hSplit, digestAfter_filter hSplit,
    messagesOf_filter]

end Boundary

theorem summaryMessage_retained {entry : FileEntry} {n m : Nat} {yields : Bool}
    (h : summaryMessage payload entry n yields = summaryMessage payload entry m yields) : n = m := by
  simpa [summaryMessage] using h

theorem retainedRows_filter {before : List FileEntry}
    (hKept : ∀ row ∈ before, row.id.getD "" = payload.firstKeptEntryId → row.isForked = true) :
    retainedRows payload (before.filter FileEntry.isForked)
      = (retainedRows payload before).filter FileEntry.isForked := by
  rw [retainedRows, retainedRows]
  induction before with
  | nil => rfl
  | cons row before ih =>
    have ih := ih fun r hr => hKept r (List.mem_cons_of_mem row hr)
    by_cases hFirst : row.id.getD "" = payload.firstKeptEntryId
    · have hForked := hKept row List.mem_cons_self hFirst
      rw [List.filter_cons_of_pos hForked, List.dropWhile_cons_of_neg (by simpa using hFirst),
        List.dropWhile_cons_of_neg (by simpa using hFirst), List.filter_cons_of_pos hForked]
    · rw [List.dropWhile_cons_of_pos (by simpa using hFirst), ← ih]
      cases hForked : row.isForked with
      | true => rw [List.filter_cons_of_pos hForked, List.dropWhile_cons_of_pos (by simpa using hFirst)]
      | false => rw [List.filter_cons_of_neg (by simp [hForked])]

theorem retainedRows_filter_of_dropped {before : List FileEntry}
    (hDropped : ∀ row ∈ before, row.id.getD "" = payload.firstKeptEntryId → row.isForked = false) :
    retainedRows payload (before.filter FileEntry.isForked) = [] := by
  rw [retainedRows, List.dropWhile_eq_nil_iff]
  intro row hRow
  obtain ⟨hMem, hForked⟩ := List.mem_filter.mp hRow
  by_contra hFirst
  rw [hDropped row hMem (by simpa using hFirst)] at hForked
  cases hForked

/-- The newest compaction on the path does not start its window at a dropped row, or no row of that
window puts a message into the context. -/
def BoundarySurvives (rows : List FileEntry) : Prop :=
  ∀ before payload base after,
    splitAtLast FileEntry.isCompaction rows = some (before, .compaction payload base, after) →
      (∃ row ∈ before, row.id.getD "" = payload.firstKeptEntryId ∧ row.isForked = false) →
        ∀ row ∈ retainedRows payload before, appendMessage (keptDigestId rows payload before.length) row = []

def IdsApart (rows : List FileEntry) : Prop :=
  (rows.map fun row => row.id.getD "").Nodup

theorem rowMessages_filter_iff {rows : List FileEntry} (hApart : IdsApart rows.dropLast) :
    rowMessages (rows.filter FileEntry.isForked) = rowMessages rows ↔ BoundarySurvives rows := by
  cases hSplit : splitAtLast FileEntry.isCompaction rows with
  | none =>
    have hKept := splitAtLast_filter (q := FileEntry.isForked) rows fun _ _ => isForked_of_compaction
    rw [hSplit, Option.map_none] at hKept
    have hSame : rowMessages (rows.filter FileEntry.isForked) = rowMessages rows := by
      simp only [rowMessages, hKept, hSplit, newestDigestId_filter, messagesOf_filter]
    refine iff_of_true hSame ?_
    intro before payload base after h
    rw [hSplit] at h
    cases h
  | some found =>
    obtain ⟨before, compaction, after⟩ := found
    obtain ⟨hRows, hTest, _⟩ := splitAtLast_eq_some_iff.mp hSplit
    obtain ⟨payload, base, rfl⟩ := exists_compaction hTest
    rw [rowMessages_filter hSplit]
    have hSource : rowMessages rows = compactedMessages rows before payload (.compaction payload base) after := by
      rw [rowMessages, hSplit]
    rw [hSource, compactedMessages]
    by_cases hDropped : ∃ row ∈ before, row.id.getD "" = payload.firstKeptEntryId ∧ row.isForked = false
    · obtain ⟨row, hMem, hFirst, hNot⟩ := hDropped
      have hBefore : IdsApart before := by
        refine List.Nodup.sublist (List.Sublist.map _ ?_) hApart
        rw [hRows, List.dropLast_append_of_ne_nil (by simp)]
        exact List.sublist_append_left before _
      have hOnly : ∀ other ∈ before, other.id.getD "" = payload.firstKeptEntryId → other.isForked = false := by
        intro other hOther hFirst'
        rw [List.inj_on_of_nodup_map hBefore hOther hMem (hFirst'.trans hFirst.symm), hNot]
      rw [retainedRows_filter_of_dropped hOnly]
      constructor
      · intro hSame before' payload' base' after' h _
        rw [hSplit] at h
        obtain ⟨rfl, hRow, rfl⟩ : before = before' ∧ _ ∧ after = after' := by simpa using h
        obtain ⟨rfl, rfl⟩ := hRow
        rw [← List.flatMap_eq_nil_iff]
        exact List.length_eq_zero_iff.mp (summaryMessage_retained (List.cons.inj hSame).1).symm
      · intro hSurvives
        have hEmpty : messagesOf (keptDigestId rows payload before.length) (retainedRows payload before) = [] :=
          List.flatMap_eq_nil_iff.mpr (hSurvives before payload base after hSplit ⟨row, hMem, hFirst, hNot⟩)
        rw [hEmpty]
        rfl
    · have hKept : ∀ row ∈ before, row.id.getD "" = payload.firstKeptEntryId → row.isForked = true := by
        intro row hMem hFirst
        by_contra hNot
        exact hDropped ⟨row, hMem, hFirst, by simpa using hNot⟩
      rw [retainedRows_filter hKept, messagesOf_filter]
      refine iff_of_true rfl ?_
      intro before' payload' base' after' h hRow
      rw [hSplit] at h
      obtain ⟨rfl, hEntry, rfl⟩ : before = before' ∧ _ ∧ after = after' := by simpa using h
      obtain ⟨rfl, rfl⟩ := hEntry
      exact absurd hRow hDropped

section Apart

variable {entries : List FileEntry} (hUnique : UniqueIds entries) (hThreaded : Threaded entries)
include hUnique hThreaded

theorem ancestry_ids (bound : Nat) : ∀ id? : Option String, rank entries id? < bound →
    IdsApart (ancestry entries id?) ∧
      ∀ row ∈ ancestry entries id?, ∃ id, row.id = some id ∧ rank entries (some id) ≤ rank entries id? := by
  induction bound with
  | zero => intro _ hRank; omega
  | succ bound ih =>
    intro id? hRank
    cases id? with
    | none => exact ⟨.nil, fun row hRow => absurd hRow (by simp [ancestry])⟩
    | some id =>
      by_cases hRow : ∃ row ∈ entries, row.id = some id
      · obtain ⟨row, hMem, hId⟩ := hRow
        have hLower := rank_parent_lt hUnique hThreaded hMem hId
        obtain ⟨hApart, hIds⟩ := ih row.parentId (by omega)
        rw [ancestry_of_row hUnique hThreaded hMem hId]
        constructor
        · rw [IdsApart, List.map_append, List.map_singleton, List.nodup_append]
          refine ⟨hApart, List.nodup_singleton _, ?_⟩
          intro a ha b hb hEq
          obtain ⟨above, hAbove, rfl⟩ := List.mem_map.mp ha
          obtain ⟨id', hId', hRank'⟩ := hIds above hAbove
          rw [List.mem_singleton.mp hb, hId, hId', Option.getD_some, Option.getD_some] at hEq
          rw [hEq] at hRank'
          omega
        · intro above hAbove
          rcases List.mem_append.mp hAbove with hAbove | hSelf
          · obtain ⟨id', hId', hRank'⟩ := hIds above hAbove
            exact ⟨id', hId', by omega⟩
          · exact ⟨id, by rw [List.mem_singleton.mp hSelf, hId], Nat.le_refl _⟩
      · rw [ancestry_of_no_row fun row hMem hId => hRow ⟨row, hMem, hId⟩]
        exact ⟨.nil, by simp⟩

theorem ancestry_apart (id? : Option String) : IdsApart (ancestry entries id?) :=
  (ancestry_ids hUnique hThreaded _ id? (Nat.lt_succ_self _)).1

end Apart

/-- What a fork owes its source at a leaf: every row but the header and the `git_state` rows, in order,
each under its nearest live ancestor, and the same messages. -/
structure ForkFaithful (entries : List FileEntry) (leafId : Option String) : Prop where
  dropped : ∀ copy ∈ forkedBranchEntries entries, copy.isHeader = false ∧ copy.isGitState = false
  reparented : List.Forall₂ (fun entry copy => copy.id = entry.id ∧ Reparented entries entry copy)
    (entries.filter fun entry => !entry.isHeader && !entry.isGitState) (forkedBranchEntries entries)
  messages : (buildSessionContext (forkedBranchEntries entries) leafId).messages
    = (buildSessionContext entries leafId).messages

theorem fork_faithful_iff {entries : List FileEntry} {leafId : Option String} {i : Nat} {leaf : FileEntry}
    (hUnique : UniqueIds entries) (hThreaded : Threaded entries) (hLeaf : leafIndex entries leafId = some i)
    (hAt : entries[i]? = some leaf) (hForked : leaf.isForked = true) :
    ForkFaithful entries leafId ↔ BoundarySurvives (pathRows entries leafId) := by
  have hApart : IdsApart (pathRows entries leafId).dropLast := by
    rw [pathRows_of_leaf hThreaded hLeaf hAt, List.dropLast_concat]
    exact ancestry_apart hUnique hThreaded _
  have hMessages : (buildSessionContext (forkedBranchEntries entries) leafId).messages
      = (buildSessionContext entries leafId).messages ↔ BoundarySurvives (pathRows entries leafId) := by
    rw [fork_messages hUnique hThreaded hLeaf hAt hForked, buildSessionContext_eq hThreaded,
      ← rowMessages_filter_iff hApart]
    rfl
  refine ⟨fun h => hMessages.mp h.messages, fun h => ⟨?_, ?_, hMessages.mpr h⟩⟩
  · intro copy hCopy
    obtain ⟨entry, _, hEntry, hReparented⟩ := mem_copy hUnique hThreaded hCopy
    rw [← hReparented.isForked_eq] at hEntry
    simpa [FileEntry.isForked] using hEntry
  · exact (forkedBranchEntries_reparented hUnique hThreaded).imp fun _ _ h => ⟨h.id_eq, h⟩

def repositorySession : List FileEntry :=
  [.header ⟨some 3, "s", "", "/w", none, none, none⟩,
    .message (.user ⟨.text "first", 1⟩) ⟨some "u1", none, none⟩,
    .gitState ⟨⟨some "main", none, none⟩⟩ ⟨some "g1", some "u1", none⟩,
    .message (.user ⟨.text "second", 2⟩) ⟨some "u2", some "g1", none⟩]

def compactedSession (firstKeptEntryId : String) : List FileEntry :=
  repositorySession ++
    [.compaction ⟨"summary", firstKeptEntryId, 0, none, none, none, none, none, none⟩ ⟨some "c1", some "u2", none⟩]

theorem compactedSession_uniqueIds (firstKeptEntryId : String) : UniqueIds (compactedSession firstKeptEntryId) := by
  rw [uniqueIds_iff_pairwise]
  simp [compactedSession, repositorySession, FileEntry.id, FileEntry.base?]

theorem compactedSession_threaded (firstKeptEntryId : String) : Threaded (compactedSession firstKeptEntryId) := by
  refine threaded_of_pairwise ?_ ?_ <;>
    simp [compactedSession, repositorySession, FileEntry.id, FileEntry.parentId, FileEntry.base?]

theorem compactedSession_fork_iff :
    ForkFaithful (compactedSession "u2") (some "c1") ↔ BoundarySurvives (pathRows (compactedSession "u2") (some "c1")) :=
  fork_faithful_iff (i := 4) (compactedSession_uniqueIds "u2") (compactedSession_threaded "u2") (by decide) rfl rfl

theorem compactedSession_fork_loses_message :
    (∃ preparation, prepareCompaction emptyMapSerde repositorySession 1 = .ok preparation ∧
      (repositorySession[preparation.cut.firstKeptEntryIndex]?).bind FileEntry.id = some "g1") ∧
    UniqueIds (compactedSession "g1") ∧ Threaded (compactedSession "g1") ∧
    ¬ ForkFaithful (compactedSession "g1") (some "c1") := by
  refine ⟨⟨_, rfl, by decide⟩, compactedSession_uniqueIds "g1", compactedSession_threaded "g1", fun h => ?_⟩
  have hMessages := h.messages
  revert hMessages
  decide

end PrimeAgent
