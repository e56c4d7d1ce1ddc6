import PrimeAgent.Session.Context

/-! # The context as a function of the ancestor rows

Where every parent comes before its child, positions no longer matter: the context is a function of
the rows on the path, oldest first.
-/
namespace PrimeAgent

open ParentWalk BinarySearch LastSplit

def Threaded (entries : List FileEntry) : Prop :=
  ∀ i j, parentIndex entries i = some j → j < i

def ancestry (entries : List FileEntry) (id? : Option String) : List FileEntry :=
  match id?.bind (indexById entries).get with
  | none => []
  | some i => rowsAt entries (ascent (parentIndex entries) i)

def pathRows (entries : List FileEntry) (leafId : Option String) : List FileEntry :=
  rowsAt entries (contextPath entries leafId)

def newestDigestId (rows : List FileEntry) : Option String :=
  (splitAtLast isHarnessDigest rows).bind fun (_, digest, _) => digest.id

def digestAfter (rows : List FileEntry) (position : Nat) : Bool :=
  (splitAtLast isHarnessDigest rows).any fun (before, _, _) => decide (position < before.length)

def snapshotOutranksDigest (rows : List FileEntry) (payload : CompactionEntry) (position : Nat) : Bool :=
  payload.harnessDigest.isSome &&
    (splitAtLast isHarnessDigest rows).all fun (before, _, _) => decide (before.length < position)

def keptDigestId (rows : List FileEntry) (payload : CompactionEntry) (position : Nat) : Option String :=
  if snapshotOutranksDigest rows payload position then none else newestDigestId rows

def retainedRows (payload : CompactionEntry) (before : List FileEntry) : List FileEntry :=
  before.dropWhile fun row => row.id.getD "" != payload.firstKeptEntryId

def messagesOf (keepDigestEntryId : Option String) (rows : List FileEntry) : List AgentMessage :=
  rows.flatMap (appendMessage keepDigestEntryId)

def compactedMessages (rows before : List FileEntry) (payload : CompactionEntry) (compaction : FileEntry)
    (after : List FileEntry) : List AgentMessage :=
  let keep := keptDigestId rows payload before.length
  let retained := messagesOf keep (retainedRows payload before)
  summaryMessage payload compaction retained.length (digestAfter rows before.length)
    :: retained ++ messagesOf keep after

def rowMessages (rows : List FileEntry) : List AgentMessage :=
  match splitAtLast FileEntry.isCompaction rows with
  | some (before, .compaction payload base, after) =>
    compactedMessages rows before payload (.compaction payload base) after
  | _ => messagesOf (newestDigestId rows) rows

def rowSettings (rows : List FileEntry) : PathSettings :=
  rows.foldl PathSettings.apply PathSettings.initial

def contextOfRows (rows : List FileEntry) : SessionContext where
  messages := rowMessages rows
  thinkingLevel := (rowSettings rows).thinkingLevel
  serviceTier := (rowSettings rows).serviceTier
  model := (rowSettings rows).model

def rowAt (entries : List FileEntry) (i : Nat) : FileEntry :=
  (entries[i]?).getD (.unknown [])

variable {entries : List FileEntry} {path : List Nat} {i : Nat} {leafId : Option String} {entry : FileEntry}

theorem rowsAt_eq_map (hIn : ∀ i ∈ path, i < entries.length) :
    rowsAt entries path = path.map (rowAt entries) := by
  induction path with
  | nil => rfl
  | cons i path ih =>
    have hi := hIn i List.mem_cons_self
    rw [rowsAt, List.filterMap_cons_some (List.getElem?_eq_getElem hi), List.map_cons, ← ih fun j hj =>
      hIn j (List.mem_cons_of_mem i hj)]
    simp [rowAt, rowsAt, hi]

theorem any_isCompaction (entries : List FileEntry) (i : Nat) :
    (entries[i]?).any FileEntry.isCompaction = (rowAt entries i).isCompaction := by
  rw [rowAt]
  cases entries[i]? <;> rfl

theorem any_isHarnessDigest (entries : List FileEntry) (i : Nat) :
    (entries[i]?).any isHarnessDigest = isHarnessDigest (rowAt entries i) := by
  rw [rowAt]
  cases entries[i]? <;> rfl

theorem bind_id (entries : List FileEntry) (i : Nat) : (entries[i]?).bind FileEntry.id = (rowAt entries i).id := by
  rw [rowAt]
  cases entries[i]? <;> rfl

theorem findIdx?_of_nodup {before after : List Nat} {c : Nat} (hOnce : (before ++ c :: after).Nodup) :
    (before ++ c :: after).findIdx? (· == c) = some before.length := by
  rw [List.findIdx?_append, List.findIdx?_cons]
  have hNone : before.findIdx? (· == c) = none := by
    rw [List.findIdx?_eq_none_iff]
    intro b hb
    have hNe := (List.nodup_append.mp hOnce).2.2 b hb c List.mem_cons_self
    simpa using hNe
  simp [hNone]

theorem exists_compaction {row : FileEntry} (h : row.isCompaction = true) :
    ∃ payload base, row = .compaction payload base := by
  cases row with
  | compaction payload base => exact ⟨payload, base, rfl⟩
  | _ => cases h

def windowMessages (keep : Option String) (yieldsSnapshot : Bool) (payload : CompactionEntry) (compaction : FileEntry)
    (retained after : List FileEntry) : List AgentMessage :=
  summaryMessage payload compaction (messagesOf keep retained).length yieldsSnapshot
    :: messagesOf keep retained ++ messagesOf keep after

/-- The messages of a path whose last compaction is at position `c`, with the rows the two searches cut off. -/
def searchedMessages (entries : List FileEntry) (path before : List Nat) (c : Nat) (payload : CompactionEntry) :
    List AgentMessage :=
  windowMessages (keptDigestId (rowsAt entries path) payload before.length)
    (digestAfter (rowsAt entries path) before.length) payload (rowAt entries c)
    (retainedRows payload (rowsAt entries (path.take (partitionPoint (fun i => decide (i < c)) path))))
    (rowsAt entries (path.drop (partitionPoint (fun i => decide (i ≤ c)) path)))

theorem contextOnPath_searched (hOnce : path.Nodup) (hIn : ∀ i ∈ path, i < entries.length) :
    contextOnPath entries path =
      { contextOfRows (rowsAt entries path) with
        messages := match splitAtLast (fun i => (rowAt entries i).isCompaction) path with
          | some (before, c, _) => match rowAt entries c with
            | .compaction payload _ => searchedMessages entries path before c payload
            | _ => rowMessages (rowsAt entries path)
          | none => rowMessages (rowsAt entries path) } := by
  have hRows : ∀ part : List Nat, (∀ i ∈ part, i ∈ path) → rowsAt entries part = part.map (rowAt entries) :=
    fun part hPart => rowsAt_eq_map fun i hi => hIn i (hPart i hi)
  have hDigest : splitAtLast isHarnessDigest (path.map (rowAt entries)) = _ := splitAtLast_map _ _ path
  have hCompaction : splitAtLast FileEntry.isCompaction (path.map (rowAt entries)) = _ := splitAtLast_map _ _ path
  simp only [contextOnPath, contextOfRows, rowSettings, rowMessages, any_isCompaction, any_isHarnessDigest, bind_id,
    hRows path fun _ h => h, hCompaction]
  congr 1
  cases hLast : splitAtLast (fun i => (rowAt entries i).isCompaction) path with
  | none =>
    simp only [Option.map_none, messagesOf, newestDigestId, hDigest]
    cases splitAtLast (fun i => isHarnessDigest (rowAt entries i)) path <;> rfl
  | some found =>
    obtain ⟨before, c, after⟩ := found
    obtain ⟨rfl, hTest, _⟩ := splitAtLast_eq_some_iff.mp hLast
    obtain ⟨payload, base, hRow⟩ := exists_compaction hTest
    have hAt : entries[c]? = some (.compaction payload base) := by
      rw [← hRow, rowAt, List.getElem?_eq_getElem (hIn c (by simp)), Option.getD_some]
    have hTake := fun n => hRows ((before ++ c :: after).take n) fun i hi => List.mem_of_mem_take hi
    have hDrop := fun n => hRows ((before ++ c :: after).drop n) fun i hi => List.mem_of_mem_drop hi
    have hKept := fun n => hRows
      (((before ++ c :: after).take n).dropWhile fun i => (rowAt entries i).id.getD "" != payload.firstKeptEntryId)
      fun i hi => List.mem_of_mem_take ((List.dropWhile_sublist _).subset hi)
    simp only [Option.map_some, Option.bind_some, hAt, findIdx?_of_nodup hOnce, hRow, searchedMessages, windowMessages,
      keptDigestId, snapshotOutranksDigest, newestDigestId, digestAfter, messagesOf, retainedRows, Option.any_some,
      hRows _ fun _ h => h, hTake, hDrop, hKept, hDigest, List.dropWhile_map, Option.getD_some]
    cases splitAtLast (fun i => isHarnessDigest (rowAt entries i)) (before ++ c :: after) with
    | none => rfl
    | some digest =>
      simp only [Option.map_some, Option.any_some, Option.all_some, Option.bind_some, List.length_map]
      rfl

theorem rowMessages_split {path before after : List Nat} {c : Nat} {payload : CompactionEntry} {base : EntryBase}
    (hIn : ∀ i ∈ path, i < entries.length)
    (hSplit : splitAtLast (fun i => (rowAt entries i).isCompaction) path = some (before, c, after))
    (hRow : rowAt entries c = .compaction payload base) :
    rowMessages (rowsAt entries path) =
      windowMessages (keptDigestId (rowsAt entries path) payload before.length)
        (digestAfter (rowsAt entries path) before.length) payload (rowAt entries c)
        (retainedRows payload (rowsAt entries before)) (rowsAt entries after) := by
  have hRows : ∀ part : List Nat, (∀ i ∈ part, i ∈ path) → rowsAt entries part = part.map (rowAt entries) :=
    fun part hPart => rowsAt_eq_map fun i hi => hIn i (hPart i hi)
  obtain ⟨hPath, -, -⟩ := splitAtLast_eq_some_iff.mp hSplit
  have hCompaction : splitAtLast FileEntry.isCompaction (path.map (rowAt entries)) = _ := splitAtLast_map _ _ path
  rw [hSplit, Option.map_some] at hCompaction
  rw [rowMessages, hRows path fun _ h => h, hCompaction, hRow, hRows before fun i hi => hPath ▸ List.mem_append_left _ hi,
    hRows after fun i hi => hPath ▸ List.mem_append_right _ (List.mem_cons_of_mem c hi)]
  simp only [compactedMessages, windowMessages, List.length_map]

theorem contextOnPath_eq (hSorted : path.Pairwise (· < ·)) (hIn : ∀ i ∈ path, i < entries.length) :
    contextOnPath entries path = contextOfRows (rowsAt entries path) := by
  rw [contextOnPath_searched (hSorted.imp Nat.ne_of_lt) hIn]
  cases hSplit : splitAtLast (fun i => (rowAt entries i).isCompaction) path with
  | none => rfl
  | some found =>
    obtain ⟨before, c, after⟩ := found
    obtain ⟨rfl, hTest, -⟩ := splitAtLast_eq_some_iff.mp hSplit
    obtain ⟨payload, base, hRow⟩ := exists_compaction hTest
    have hMessages := rowMessages_split hIn hSplit hRow
    simp only [hRow, searchedMessages, take_partitionPoint_lt hSorted, drop_partitionPoint_le hSorted]
    rw [hRow] at hMessages
    rw [← hMessages]
    rfl

theorem contextPath_eq_ascent (hThreaded : Threaded entries) (hLeaf : leafIndex entries leafId = some i) :
    contextPath entries leafId = ascent (parentIndex entries) i := by
  rw [contextPath, contextWalk, hLeaf, followGuarded_eq_follow hThreaded _ _ _ (by simp),
    follow_eq_ascent hThreaded i _ (Nat.lt_succ_of_lt (leafIndex_lt hLeaf)), Option.getD_some, List.reverse_reverse]

theorem contextPath_of_none (hLeaf : leafIndex entries leafId = none) : contextPath entries leafId = [] := by
  rw [contextPath, contextWalk, hLeaf, followGuarded_none]
  rfl

theorem ascent_in_range (hThreaded : Threaded entries) (hi : i < entries.length) :
    ∀ j ∈ ascent (parentIndex entries) i, j < entries.length :=
  fun j hj => Nat.lt_of_le_of_lt ((ascent_sorted hThreaded i).2 j hj) hi

theorem buildSessionContext_eq (hThreaded : Threaded entries) (leafId : Option String) :
    buildSessionContext entries leafId = contextOfRows (pathRows entries leafId) := by
  rw [buildSessionContext, pathRows]
  cases hLeaf : leafIndex entries leafId with
  | none => rw [contextPath_of_none hLeaf]; rfl
  | some i =>
    rw [contextPath_eq_ascent hThreaded hLeaf]
    exact contextOnPath_eq (ascent_sorted hThreaded i).1 (ascent_in_range hThreaded (leafIndex_lt hLeaf))

theorem rowsAt_append (entries : List FileEntry) (path path' : List Nat) :
    rowsAt entries (path ++ path') = rowsAt entries path ++ rowsAt entries path' :=
  List.filterMap_append

theorem ancestry_of_none {id : String} (hIndex : (indexById entries).get id = none) :
    ancestry entries (some id) = [] := by
  rw [ancestry, Option.bind_some, hIndex]

theorem rowsAt_ascent (hThreaded : Threaded entries) (hAt : entries[i]? = some entry) :
    rowsAt entries (ascent (parentIndex entries) i) = ancestry entries entry.parentId ++ [entry] := by
  have hSelf : rowsAt entries [i] = [entry] := by simp [rowsAt, hAt]
  have hParent : parentIndex entries i = entry.parentId.bind (indexById entries).get := by
    rw [parentIndex, hAt, Option.bind_some]
  rw [ancestry, ← hParent]
  cases hNext : parentIndex entries i with
  | none => rw [ascent_of_none hThreaded hNext, hSelf, List.nil_append]
  | some j => rw [ascent_of_some hThreaded hNext, rowsAt_append, hSelf]

theorem pathRows_of_leaf (hThreaded : Threaded entries) (hLeaf : leafIndex entries leafId = some i)
    (hAt : entries[i]? = some entry) :
    pathRows entries leafId = ancestry entries entry.parentId ++ [entry] := by
  rw [pathRows, contextPath_eq_ascent hThreaded hLeaf, rowsAt_ascent hThreaded hAt]

end PrimeAgent
