import PrimeAgent.Manager.ForkContext

/-! # The context a leaf stands for

What the rows from the root to a leaf say, with one harness digest at most, against
`build_session_context`, which cuts the path by a search over file positions.
-/
namespace PrimeAgent

open ParentWalk BinarySearch LastSplit

structure LeafPath (entries : List FileEntry) (leaf : Nat) (path : List Nat) : Prop where
  last : path.getLast? = some leaf
  chain : path.IsChain fun parent child => parentIndex entries child = some parent
  once : path.Nodup
  ends : ∀ first, path.head? = some first → ∀ parent, parentIndex entries first = some parent → parent ∈ path

def newestDigest (rows : List FileEntry) : Option FileEntry :=
  rows.reverse.find? isHarnessDigest

def theDigest (rows : List FileEntry) : Option FileEntry :=
  match splitAtLast FileEntry.isCompaction rows with
  | some (_, .compaction payload _, after) =>
    if payload.harnessDigest.isSome && !after.any isHarnessDigest then none else newestDigest rows
  | _ => newestDigest rows

def shown (digest : Option FileEntry) (row : FileEntry) : List AgentMessage :=
  if isHarnessDigest row && digest != some row then [] else appendMessage row.id row

def leafMessages (rows : List FileEntry) : List AgentMessage :=
  match splitAtLast FileEntry.isCompaction rows with
  | some (before, .compaction payload base, after) =>
    let retained := (retainedRows payload before).flatMap (shown (theDigest rows))
    summaryMessage payload (.compaction payload base) retained.length (after.any isHarnessDigest)
      :: retained ++ after.flatMap (shown (theDigest rows))
  | _ => rows.flatMap (shown (theDigest rows))

def leafContext (rows : List FileEntry) : SessionContext where
  messages := leafMessages rows
  thinkingLevel := (rowSettings rows).thinkingLevel
  serviceTier := (rowSettings rows).serviceTier
  model := (rowSettings rows).model

structure Named (rows : List FileEntry) : Prop where
  apart : ∀ row ∈ rows, ∀ other ∈ rows, row.id = other.id → row = other
  bare : ∀ row ∈ rows, row.id = none → rows.getLast? = some row

variable {row : FileEntry} {rows : List FileEntry} {digest : FileEntry} {entries : List FileEntry} {path : List Nat}

theorem appendMessage_shown (hNamed : Named rows) {digest : Option FileEntry}
    (hDigest : ∀ found, digest = some found → found ∈ rows)
    (hBare : digest = none → ∀ row ∈ rows, isHarnessDigest row = true → row.id ≠ none) (hRow : row ∈ rows) :
    appendMessage (digest.bind FileEntry.id) row = shown digest row := by
  unfold shown
  cases hTest : isHarnessDigest row with
  | false =>
    cases row with
    | customMessage payload base =>
      have hType : (payload.customType == harnessDigestCustomType) = false := hTest
      simp [appendMessage, hType]
    | _ => rfl
  | true =>
    cases row with
    | customMessage payload base =>
      have hType : (payload.customType == harnessDigestCustomType) = true := hTest
      have hSame : (FileEntry.customMessage payload base).id = digest.bind FileEntry.id ↔
          digest = some (.customMessage payload base) := by
        cases digest with
        | none => exact ⟨fun hNone => absurd hNone (hBare rfl _ hRow hTest), nofun⟩
        | some found =>
          refine ⟨fun hId => ?_, fun hFound => by rw [hFound]; rfl⟩
          rw [hNamed.apart _ hRow _ (hDigest found rfl) hId]
      by_cases hFound : digest = some (.customMessage payload base)
      · rw [← hSame.mpr hFound, hFound]
        simp
      · have hOther : (FileEntry.customMessage payload base).id ≠ digest.bind FileEntry.id := fun hId =>
          hFound (hSame.mp hId)
        simp [appendMessage, hType, hOther, hFound]
    | _ => cases hTest

theorem newestDigest_eq (rows : List FileEntry) :
    newestDigest rows = (splitAtLast isHarnessDigest rows).map fun found => found.2.1 :=
  find?_reverse isHarnessDigest rows

theorem newestDigestId_eq (rows : List FileEntry) : newestDigestId rows = (newestDigest rows).bind FileEntry.id := by
  rw [newestDigest_eq, newestDigestId]
  cases splitAtLast isHarnessDigest rows <;> rfl

theorem newestDigest_mem (hDigest : newestDigest rows = some digest) :
    digest ∈ rows := by
  rw [newestDigest] at hDigest
  exact List.mem_reverse.mp (List.mem_of_find?_eq_some hDigest)

section Compacted

variable {before after : List FileEntry} {payload : CompactionEntry} {base : EntryBase}

theorem digest_split (before after : List FileEntry) (payload : CompactionEntry) (base : EntryBase) :
    (after.any isHarnessDigest = true ∧ ∃ found, splitAtLast isHarnessDigest (before ++ .compaction payload base :: after) =
        some found ∧ before.length < found.1.length) ∨
      (after.any isHarnessDigest = false ∧
        ∀ found, splitAtLast isHarnessDigest (before ++ .compaction payload base :: after) = some found →
          found.1.length < before.length) := by
  have hHere : isHarnessDigest (.compaction payload base) = false := rfl
  rw [splitAtLast_concat, splitAtLast]
  cases hAfter : splitAtLast isHarnessDigest after with
  | some found =>
    obtain ⟨middle, digest, later⟩ := found
    obtain ⟨rfl, hTest, -⟩ := splitAtLast_eq_some_iff.mp hAfter
    refine Or.inl ⟨by simp [hTest], _, rfl, ?_⟩
    simp
  | none =>
    refine Or.inr ⟨by simpa using splitAtLast_eq_none_iff.mp hAfter, fun found hFound => ?_⟩
    simp only [hHere, Bool.false_eq_true, if_false] at hFound
    obtain ⟨earlier, hEarlier, rfl⟩ := Option.map_eq_some_iff.mp hFound
    obtain ⟨rfl, -, -⟩ := splitAtLast_eq_some_iff.mp (show splitAtLast isHarnessDigest before =
      some (earlier.1, earlier.2.1, earlier.2.2) from hEarlier)
    simp

theorem digestAfter_eq (before after : List FileEntry) (payload : CompactionEntry) (base : EntryBase) :
    digestAfter (before ++ .compaction payload base :: after) before.length = after.any isHarnessDigest := by
  rw [digestAfter]
  rcases digest_split before after payload base with ⟨hAny, found, hFound, hLater⟩ | ⟨hAny, hEarlier⟩
  · rw [hFound, hAny, Option.any_some]
    exact decide_eq_true hLater
  · rw [hAny]
    cases hFound : splitAtLast isHarnessDigest (before ++ .compaction payload base :: after) with
    | none => rfl
    | some found =>
      rw [Option.any_some]
      exact decide_eq_false (Nat.not_lt.mpr (Nat.le_of_lt (hEarlier found hFound)))

theorem keptDigestId_eq (hLast : ∀ row ∈ after, row.isCompaction = false) :
    keptDigestId (before ++ .compaction payload base :: after) payload before.length =
      (theDigest (before ++ .compaction payload base :: after)).bind FileEntry.id := by
  have hSplit : splitAtLast FileEntry.isCompaction (before ++ .compaction payload base :: after) =
      some (before, .compaction payload base, after) := splitAtLast_append before rfl hLast
  have hOutranks : snapshotOutranksDigest (before ++ .compaction payload base :: after) payload before.length =
      (payload.harnessDigest.isSome && !after.any isHarnessDigest) := by
    rw [snapshotOutranksDigest]
    congr 1
    rcases digest_split before after payload base with ⟨hAny, found, hFound, hLater⟩ | ⟨hAny, hEarlier⟩
    · rw [hFound, hAny, Option.all_some]
      exact decide_eq_false (Nat.not_lt.mpr (Nat.le_of_lt hLater))
    · rw [hAny]
      cases hFound : splitAtLast isHarnessDigest (before ++ .compaction payload base :: after) with
      | none => rfl
      | some found =>
        rw [Option.all_some]
        exact decide_eq_true (hEarlier found hFound)
  rw [keptDigestId, theDigest, hSplit, hOutranks]
  dsimp only
  split
  · rfl
  · exact newestDigestId_eq _

end Compacted

theorem theDigest_mem (hDigest : theDigest rows = some digest) :
    digest ∈ rows := by
  unfold theDigest at hDigest
  split at hDigest
  · split at hDigest
    · cases hDigest
    · exact newestDigest_mem hDigest
  · exact newestDigest_mem hDigest

theorem theDigest_of_bare (hNamed : Named rows) (hRow : row ∈ rows) (hTest : isHarnessDigest row = true)
    (hId : row.id = none) : theDigest rows ≠ none := by
  have hLast := hNamed.bare row hRow hId
  have hNewest : newestDigest rows ≠ none := by
    rw [newestDigest, Ne, List.find?_eq_none]
    exact fun hNone => hNone row (List.mem_reverse.mpr hRow) hTest
  unfold theDigest
  split
  · rename_i payload base after hSplit
    obtain ⟨rfl, -, -⟩ := splitAtLast_eq_some_iff.mp hSplit
    have hAfter : row ∈ after := by
      rw [List.getLast?_append, List.getLast?_cons, Option.some_or] at hLast
      cases after with
      | nil => cases Option.some.inj hLast; cases hTest
      | cons next after => exact Option.some.inj hLast ▸ List.getLast_mem _
    have hAny : after.any isHarnessDigest = true := List.any_eq_true.mpr ⟨row, hAfter, hTest⟩
    rw [hAny]
    simpa using hNewest
  · exact hNewest

theorem messagesOf_shown (hNamed : Named rows) {part : List FileEntry} (hPart : ∀ row ∈ part, row ∈ rows) :
    messagesOf ((theDigest rows).bind FileEntry.id) part = part.flatMap (shown (theDigest rows)) := by
  refine List.flatMap_congr fun row hRow => appendMessage_shown hNamed (fun _ => theDigest_mem) ?_ (hPart row hRow)
  exact fun hNone other hOther hTest hId => theDigest_of_bare hNamed hOther hTest hId hNone

theorem rowMessages_eq_leafMessages (hNamed : Named rows) :
    rowMessages rows = leafMessages rows := by
  rw [rowMessages, leafMessages]
  cases hSplit : splitAtLast FileEntry.isCompaction rows with
  | none =>
    have hDigest : theDigest rows = newestDigest rows := by rw [theDigest, hSplit]
    dsimp only
    rw [newestDigestId_eq, ← hDigest]
    exact messagesOf_shown hNamed fun _ hRow => hRow
  | some found =>
    obtain ⟨before, compaction, after⟩ := found
    obtain ⟨rfl, hTest, hLast⟩ := splitAtLast_eq_some_iff.mp hSplit
    obtain ⟨payload, base, rfl⟩ := exists_compaction hTest
    have hBefore : ∀ row ∈ retainedRows payload before, row ∈ before ++ .compaction payload base :: after :=
      fun row hRow => List.mem_append_left _ ((List.dropWhile_sublist _).subset hRow)
    have hAfter : ∀ row ∈ after, row ∈ before ++ .compaction payload base :: after :=
      fun row hRow => List.mem_append_right _ (List.mem_cons_of_mem _ hRow)
    simp only [compactedMessages, digestAfter_eq, keptDigestId_eq hLast, messagesOf_shown hNamed hBefore,
      messagesOf_shown hNamed hAfter]

theorem contextPath_leafPath {leafId : Option String} {leaf : Nat} (hLeaf : leafIndex entries leafId = some leaf) :
    LeafPath entries leaf (contextPath entries leafId) := by
  obtain ⟨path, hWalk⟩ := Option.isSome_iff_exists.mp (contextWalk_isSome entries leafId)
  rw [contextPath, hWalk, Option.getD_some]
  rw [contextWalk, hLeaf] at hWalk
  have hCollected := collected_of_followGuarded _ hWalk
  obtain ⟨hStop, hEnds⟩ := followGuarded_ends _ hWalk
  refine ⟨?_, ?_, List.nodup_reverse.mpr hCollected.once, fun first hFirst parent hParent => ?_⟩
  · rw [List.getLast?_reverse]
    cases path with
    | nil => exact absurd (hStop rfl leaf rfl) List.not_mem_nil
    | cons head rest => exact (hCollected.head head rfl).symm
  · rw [List.isChain_reverse]
    exact hCollected.chain
  · rw [List.head?_reverse] at hFirst
    exact List.mem_reverse.mpr ((hEnds first hFirst parent hParent).resolve_left List.not_mem_nil)

theorem LeafPath.named (hUnique : UniqueIds entries) {leaf : Nat} (hPath : LeafPath entries leaf path)
    (hIn : ∀ i ∈ path, i < entries.length) : Named (rowsAt entries path) := by
  have hId : ∀ i ∈ path, (rowAt entries i).id = none → i = leaf := by
    intro i hMem hNone
    obtain ⟨front, back, rfl⟩ := List.append_of_mem hMem
    cases back with
    | nil => simpa using hPath.last
    | cons child back =>
      have hLink : parentIndex entries child = some i :=
        (List.isChain_cons_cons.mp (List.isChain_append.mp hPath.chain).2.1).1
      simp only [parentIndex, Option.bind_eq_some_iff] at hLink
      obtain ⟨_, -, id, -, hIndex⟩ := hLink
      have hSome := ((indexById_eq_some_iff entries id i).mp hIndex).1
      rw [bind_id, hNone] at hSome
      cases hSome
  rw [rowsAt_eq_map hIn]
  constructor
  · intro row hRow other hOther hSame
    obtain ⟨i, hi, rfl⟩ := List.mem_map.mp hRow
    obtain ⟨j, hj, rfl⟩ := List.mem_map.mp hOther
    cases hNone : (rowAt entries i).id with
    | none => rw [hId i hi hNone, hId j hj (hSame ▸ hNone)]
    | some id => rw [hUnique i j id ((bind_id entries i).trans hNone) ((bind_id entries j).trans (hSame ▸ hNone))]
  · intro row hRow hNone
    obtain ⟨i, hi, rfl⟩ := List.mem_map.mp hRow
    rw [List.getLast?_map, hPath.last, hId i hi hNone]
    rfl

def betweenCuts (entries : List FileEntry) (path : List Nat) (found cut : Nat) : List FileEntry :=
  rowsAt entries ((path.take (max found cut)).drop (min found cut))

def retainedBetween (entries : List FileEntry) (path : List Nat) (payload : CompactionEntry) (found cut : Nat) :
    List FileEntry :=
  (retainedRows payload (rowsAt entries (path.take (max found cut)))).drop
    (retainedRows payload (rowsAt entries (path.take (min found cut)))).length

def misplacedRows (entries : List FileEntry) (path : List Nat) : List FileEntry :=
  match splitAtLast (fun i => (rowAt entries i).isCompaction) path with
  | some (before, c, _) => match rowAt entries c with
    | .compaction payload _ =>
      retainedBetween entries path payload (partitionPoint (fun i => decide (i < c)) path) before.length ++
        betweenCuts entries path (partitionPoint (fun i => decide (i ≤ c)) path) (before.length + 1)
    | _ => []
  | none => []

theorem flatMap_prefix_iff {α β : Type} (f : α → List β) {short long : List α} (hPrefix : short <+: long) :
    long.flatMap f = short.flatMap f ↔ ∀ x ∈ long.drop short.length, f x = [] := by
  obtain ⟨more, rfl⟩ := hPrefix
  rw [List.flatMap_append, List.drop_left, List.append_right_eq_self, List.flatMap_eq_nil_iff]

theorem retainedRows_mono (entries : List FileEntry) (path : List Nat) (payload : CompactionEntry) {less more : Nat}
    (hLe : less ≤ more) : retainedRows payload (rowsAt entries (path.take less)) <+:
      retainedRows payload (rowsAt entries (path.take more)) := by
  have hTake : path.take more = path.take less ++ (path.take more).drop less := by
    conv => lhs; rw [← List.take_append_drop less (path.take more), List.take_take, Nat.min_eq_left hLe]
  rw [hTake, rowsAt_append, retainedRows, retainedRows, List.dropWhile_append]
  split
  · rename_i hNone
    rw [List.isEmpty_iff.mp hNone]
    exact List.nil_prefix
  · exact List.prefix_append _ _

theorem retained_same_iff (entries : List FileEntry) (path : List Nat) (payload : CompactionEntry)
    (f : FileEntry → List AgentMessage) (found cut : Nat) :
    (retainedRows payload (rowsAt entries (path.take found))).flatMap f =
        (retainedRows payload (rowsAt entries (path.take cut))).flatMap f ↔
      ∀ row ∈ retainedBetween entries path payload found cut, f row = [] := by
  rw [retainedBetween]
  rcases Nat.le_total found cut with hLe | hLe
  · rw [Nat.max_eq_right hLe, Nat.min_eq_left hLe, ← flatMap_prefix_iff f (retainedRows_mono entries path payload hLe)]
    exact eq_comm
  · rw [Nat.max_eq_left hLe, Nat.min_eq_right hLe, flatMap_prefix_iff f (retainedRows_mono entries path payload hLe)]

theorem later_same_iff (entries : List FileEntry) (path : List Nat) (f : FileEntry → List AgentMessage)
    (found cut : Nat) :
    (rowsAt entries (path.drop found)).flatMap f = (rowsAt entries (path.drop cut)).flatMap f ↔
      ∀ row ∈ betweenCuts entries path found cut, f row = [] := by
  have hSplit : ∀ less more, less ≤ more → path.drop less = (path.take more).drop less ++ path.drop more := by
    intro less more hLe
    conv => lhs; rw [← List.take_append_drop more path]
    rcases Nat.le_total more path.length with hIn | hOut
    · rw [List.drop_append_of_le_length (by simp; omega)]
    · rw [List.drop_of_length_le hOut, List.append_nil, List.append_nil]
  have hSame : ∀ less more, less ≤ more →
      ((rowsAt entries (path.drop less)).flatMap f = (rowsAt entries (path.drop more)).flatMap f ↔
        ∀ row ∈ rowsAt entries ((path.take more).drop less), f row = []) := by
    intro less more hLe
    rw [hSplit less more hLe, rowsAt_append, List.flatMap_append, List.append_left_eq_self, List.flatMap_eq_nil_iff]
  rw [betweenCuts]
  rcases Nat.le_total found cut with hLe | hLe
  · rw [Nat.max_eq_right hLe, Nat.min_eq_left hLe, hSame found cut hLe]
  · rw [Nat.max_eq_left hLe, Nat.min_eq_right hLe, ← hSame cut found hLe]
    exact eq_comm

theorem windowMessages_inj {keep : Option String} {yieldsSnapshot : Bool} {payload : CompactionEntry}
    {compaction : FileEntry} {retained retained' after after' : List FileEntry} :
    windowMessages keep yieldsSnapshot payload compaction retained after =
        windowMessages keep yieldsSnapshot payload compaction retained' after' ↔
      messagesOf keep retained = messagesOf keep retained' ∧ messagesOf keep after = messagesOf keep after' := by
  constructor
  · intro hSame
    obtain ⟨hSummary, hRest⟩ := List.cons.inj hSame
    have hLength : (messagesOf keep retained).length = (messagesOf keep retained').length := by
      simpa [summaryMessage] using hSummary
    exact List.append_inj hRest hLength
  · rintro ⟨hRetained, hAfter⟩
    rw [windowMessages, windowMessages, hRetained, hAfter]

theorem contextPath_in_range (entries : List FileEntry) (leafId : Option String) :
    ∀ i ∈ contextPath entries leafId, i < entries.length := by
  obtain ⟨path, hWalk⟩ := Option.isSome_iff_exists.mp (contextWalk_isSome entries leafId)
  rw [contextPath, hWalk, Option.getD_some]
  intro i hMem
  rcases (collected_of_followGuarded _ hWalk).reached i (List.mem_reverse.mp hMem) with hLeaf | ⟨child, hParent⟩
  · exact leafIndex_lt hLeaf
  · exact parentIndex_lt hParent

theorem rowsAt_subset {part path : List Nat} (hPart : ∀ i ∈ part, i ∈ path) :
    ∀ row ∈ rowsAt entries part, row ∈ rowsAt entries path := by
  intro row hRow
  obtain ⟨i, hi, hAt⟩ := List.mem_filterMap.mp hRow
  exact List.mem_filterMap.mpr ⟨i, hPart i hi, hAt⟩

theorem contextOnPath_iff (hOnce : path.Nodup) (hIn : ∀ i ∈ path, i < entries.length)
    (hNamed : Named (rowsAt entries path)) :
    contextOnPath entries path = leafContext (rowsAt entries path) ↔
      ∀ row ∈ misplacedRows entries path, shown (theDigest (rowsAt entries path)) row = [] := by
  have hShown : ∀ part : List FileEntry, (∀ row ∈ part, row ∈ rowsAt entries path) →
      messagesOf ((theDigest (rowsAt entries path)).bind FileEntry.id) part =
        part.flatMap (shown (theDigest (rowsAt entries path))) := fun part hPart => messagesOf_shown hNamed hPart
  have hContext : ∀ messages, ({ contextOfRows (rowsAt entries path) with messages := messages } : SessionContext) =
      leafContext (rowsAt entries path) ↔ messages = rowMessages (rowsAt entries path) := by
    intro messages
    rw [rowMessages_eq_leafMessages hNamed]
    constructor
    · exact fun hSame => congrArg SessionContext.messages hSame
    · rintro rfl
      rfl
  rw [contextOnPath_searched hOnce hIn, hContext, misplacedRows]
  cases hSplit : splitAtLast (fun i => (rowAt entries i).isCompaction) path with
  | none => simp
  | some found =>
    obtain ⟨before, c, after⟩ := found
    obtain ⟨hPath, hTest, hLast⟩ := splitAtLast_eq_some_iff.mp hSplit
    obtain ⟨payload, base, hRow⟩ := exists_compaction hTest
    have hTake : path.take before.length = before := by rw [hPath, List.take_left]
    have hDrop : path.drop (before.length + 1) = after := by
      rw [hPath, ← List.drop_drop, List.drop_left]
      rfl
    have hRows : ∀ part : List Nat, (∀ i ∈ part, i ∈ path) → rowsAt entries part = part.map (rowAt entries) :=
      fun part hPart => rowsAt_eq_map fun i hi => hIn i (hPart i hi)
    have hKept : keptDigestId (rowsAt entries path) payload before.length =
        (theDigest (rowsAt entries path)).bind FileEntry.id := by
      have hAll : rowsAt entries path =
          before.map (rowAt entries) ++ .compaction payload base :: after.map (rowAt entries) := by
        rw [hRows path fun _ h => h, hPath, List.map_append, List.map_cons, hRow]
      have hAfter : ∀ row ∈ after.map (rowAt entries), row.isCompaction = false := by
        intro row hMem
        obtain ⟨i, hi, rfl⟩ := List.mem_map.mp hMem
        exact hLast i hi
      rw [hAll, ← List.length_map (rowAt entries), keptDigestId_eq hAfter]
    have hRetained : ∀ cut, messagesOf ((theDigest (rowsAt entries path)).bind FileEntry.id)
        (retainedRows payload (rowsAt entries (path.take cut))) =
          (retainedRows payload (rowsAt entries (path.take cut))).flatMap (shown (theDigest (rowsAt entries path))) :=
      fun cut => hShown _ fun row hMem =>
        rowsAt_subset (fun _ => List.mem_of_mem_take) row ((List.dropWhile_sublist _).subset hMem)
    have hLater : ∀ cut, messagesOf ((theDigest (rowsAt entries path)).bind FileEntry.id) (rowsAt entries (path.drop cut)) =
        (rowsAt entries (path.drop cut)).flatMap (shown (theDigest (rowsAt entries path))) :=
      fun cut => hShown _ fun row hMem => rowsAt_subset (fun _ => List.mem_of_mem_drop) row hMem
    have hWindow := rowMessages_split hIn hSplit hRow
    rw [hKept, show rowsAt entries before = rowsAt entries (path.take before.length) by rw [hTake],
      show rowsAt entries after = rowsAt entries (path.drop (before.length + 1)) by rw [hDrop]] at hWindow
    simp only [hRow] at hWindow ⊢
    rw [hWindow, searchedMessages, hRow, hKept, windowMessages_inj, hRetained, hRetained, hLater, hLater,
      retained_same_iff, later_same_iff, List.forall_mem_append]

/-- The context is the leaf's own exactly when no row on the wrong side of the last compaction has a message. -/
theorem buildSessionContext_iff {entries : List FileEntry} (hUnique : UniqueIds entries) (leafId : Option String) :
    ∃ path, (∀ leaf, leafIndex entries leafId = some leaf → LeafPath entries leaf path) ∧
      (leafIndex entries leafId = none → path = []) ∧
      (buildSessionContext entries leafId = leafContext (rowsAt entries path) ↔
        ∀ row ∈ misplacedRows entries path, shown (theDigest (rowsAt entries path)) row = []) := by
  refine ⟨contextPath entries leafId, fun leaf => contextPath_leafPath, contextPath_of_none, ?_⟩
  rw [buildSessionContext]
  cases hLeaf : leafIndex entries leafId with
  | none =>
    rw [contextPath_of_none hLeaf]
    exact ⟨fun _ row hMem => absurd hMem List.not_mem_nil, fun _ => rfl⟩
  | some leaf =>
    have hPath := contextPath_leafPath hLeaf
    have hIn := contextPath_in_range entries leafId
    exact contextOnPath_iff hPath.once hIn (hPath.named hUnique hIn)

def noteRow (id : String) (parentId : Option String) : FileEntry :=
  .customMessage ⟨"note", .text id, none, true⟩ ⟨some id, parentId, none⟩

def mergedRows : List FileEntry :=
  [noteRow "u2" (some "c1"), noteRow "u1" none,
    .compaction ⟨"so far", "u1", 0, none, none, none, none, none, none⟩ ⟨some "c1", some "u1", none⟩]

theorem mergedRows_uniqueIds : UniqueIds mergedRows := by
  rw [uniqueIds_iff_pairwise]
  simp [mergedRows, noteRow, FileEntry.id, FileEntry.base?]

theorem mergedRows_context : ∃ path, (∀ leaf, leafIndex mergedRows (some "c1") = some leaf → LeafPath mergedRows leaf path) ∧
    (leafIndex mergedRows (some "c1") = none → path = []) ∧
    (buildSessionContext mergedRows (some "c1") = leafContext (rowsAt mergedRows path) ↔
      ∀ row ∈ misplacedRows mergedRows path, shown (theDigest (rowsAt mergedRows path)) row = []) :=
  buildSessionContext_iff mergedRows_uniqueIds (some "c1")

theorem merged_row_lost :
    ¬ ∀ (entries : List FileEntry) (leafId : Option String) (leaf : Nat) (path : List Nat), UniqueIds entries →
      leafIndex entries leafId = some leaf → LeafPath entries leaf path →
      buildSessionContext entries leafId = leafContext (rowsAt entries path) := by
  intro hContext
  have hPath : LeafPath mergedRows 0 [1, 2, 0] := by
    refine ⟨rfl, ?_, by decide, fun first hFirst parent hParent => ?_⟩
    · exact List.isChain_cons_cons.mpr ⟨by decide, List.isChain_cons_cons.mpr ⟨by decide, List.isChain_singleton 0⟩⟩
    · cases hFirst
      have hRoot : parentIndex mergedRows 1 = none := by decide
      cases hRoot.symm.trans hParent
  have hMessages := congrArg (fun context => context.messages.length)
    (hContext mergedRows (some "u2") 0 [1, 2, 0] mergedRows_uniqueIds (by decide) hPath)
  revert hMessages
  decide

end PrimeAgent
