import PrimeAgent.Session.PathContext

/-! # The branch copy of a fork

`forked_branch_entries` drops the header and the `git_state` rows of a session and links every child
of a dropped row to its nearest kept ancestor, through a memo table.
-/
namespace PrimeAgent

open ParentWalk LastSplit

namespace FileEntry

/-- `{ ...entry, parentId }`, through the entry's own JSON, which keeps every other field. -/
def withParent (parentId : Option String) : FileEntry → FileEntry
  | .unknown rest => .unknown (JsonMap.set "parentId" (parentId.elim .null .string) rest)
  | entry => match entry.base? with
    | some base => entry.setBase { base with parentId := parentId }
    | none => entry

def isForked (entry : FileEntry) : Bool :=
  !entry.isHeader && !entry.isGitState

end FileEntry

/-- `dropped_parent`: each `git_state` row's id with its parent. -/
def droppedParents (entries : List FileEntry) : KeyMap String (Option String) :=
  KeyMap.ofPairs (entries.filterMap fun entry =>
    if entry.isGitState then entry.id.map (·, entry.parentId) else none)

def memoize (resolved : KeyMap String (Option String)) (path : List String) (answer : Option String) :
    KeyMap String (Option String) :=
  path.foldl (fun memo node => memo.insert node answer) resolved

/-- The loop of `resolve_dropped_ancestor`. The ids seen so far are those on `path`; each turn adds
another dropped id, so there are never more turns than rows. -/
def resolveDroppedAncestor (dropped : KeyMap String (Option String)) :
    Nat → KeyMap String (Option String) → List String → Option String → KeyMap String (Option String) × Option String
  | 0, resolved, _, current => (resolved, current)
  | _ + 1, resolved, path, none => (memoize resolved path none, none)
  | fuel + 1, resolved, path, some id =>
    match resolved.get id with
    | some answer => (memoize resolved path answer, answer)
    | none =>
      if id ∈ path then (resolved, some id)
      else match dropped.get id with
        | some next => resolveDroppedAncestor dropped fuel resolved (path ++ [id]) next
        | none => (memoize resolved path (some id), some id)

/-- `live`: a dropped parent is resolved, a kept one stays. -/
def liveParent (dropped : KeyMap String (Option String)) (fuel : Nat) (resolved : KeyMap String (Option String))
    (parentId : Option String) : KeyMap String (Option String) × Option String :=
  match parentId with
  | some id =>
    if dropped.contains id then resolveDroppedAncestor dropped fuel resolved [] (some id) else (resolved, some id)
  | none => (resolved, none)

/-- The `map` over the kept rows, with the memo table it carries along. -/
def forkRows (dropped : KeyMap String (Option String)) (fuel : Nat) :
    KeyMap String (Option String) → List FileEntry → List FileEntry
  | _, [] => []
  | resolved, entry :: rest =>
    let live := liveParent dropped fuel resolved entry.parentId
    (if entry.parentId = live.2 then entry else entry.withParent live.2) :: forkRows dropped fuel live.1 rest

def forkedBranchEntries (entries : List FileEntry) : List FileEntry :=
  forkRows (droppedParents entries) (entries.length + 2) KeyMap.empty (entries.filter FileEntry.isForked)

def UniqueIds (entries : List FileEntry) : Prop :=
  ∀ (i j : Nat) (id : String), (entries[i]?).bind FileEntry.id = some id → (entries[j]?).bind FileEntry.id = some id → i = j

/-- The nearest ancestor that is no `git_state` row. -/
inductive NearestLive (entries : List FileEntry) : Option String → Option String → Prop
  | root : NearestLive entries none none
  | live {id : String} : (∀ entry ∈ entries, entry.id = some id → entry.isGitState = false) →
      NearestLive entries (some id) (some id)
  | dropped {id : String} {entry : FileEntry} {answer : Option String} : entry ∈ entries → entry.id = some id →
      entry.isGitState = true → NearestLive entries entry.parentId answer → NearestLive entries (some id) answer

structure Reparented (entries : List FileEntry) (entry copy : FileEntry) : Prop where
  same : copy.withParent none = entry.withParent none
  parent : NearestLive entries entry.parentId copy.parentId

namespace FileEntry

theorem set_set (key : String) (value value' : Json) (members : JsonMap) :
    JsonMap.set key value (JsonMap.set key value' members) = JsonMap.set key value members := by
  induction members with
  | nil => simp [JsonMap.set]
  | cons member members ih =>
    obtain ⟨k, v⟩ := member
    simp only [JsonMap.set]
    split
    · rename_i hKey
      simp [JsonMap.set, hKey]
    · rename_i hKey
      simp [JsonMap.set, hKey, ih]

@[simp] theorem withParent_id (parentId : Option String) (entry : FileEntry) : (entry.withParent parentId).id = entry.id := by
  cases entry with
  | unknown rest => simp only [withParent, id, JsonMap.lookup_set_of_ne (show "id" ≠ "parentId" by decide)]
  | _ => rfl

theorem withParent_parentId {entry : FileEntry} (hForked : entry.isForked = true) (parentId : Option String) :
    (entry.withParent parentId).parentId = parentId := by
  cases entry with
  | header h => cases hForked
  | unknown rest =>
    simp only [withParent, FileEntry.parentId, JsonMap.lookup_set_self, Option.bind_some]
    cases parentId <;> rfl
  | _ => rfl

@[simp] theorem withParent_withParent (parentId parentId' : Option String) (entry : FileEntry) :
    (entry.withParent parentId').withParent parentId = entry.withParent parentId := by
  cases entry with
  | unknown rest => simp only [withParent, set_set]
  | _ => rfl

@[simp] theorem withParent_isCompaction (parentId : Option String) (entry : FileEntry) :
    (entry.withParent parentId).isCompaction = entry.isCompaction := by
  cases entry <;> rfl

@[simp] theorem withParent_isForked (parentId : Option String) (entry : FileEntry) :
    (entry.withParent parentId).isForked = entry.isForked := by
  cases entry <;> rfl

@[simp] theorem withParent_isHarnessDigest (parentId : Option String) (entry : FileEntry) :
    isHarnessDigest (entry.withParent parentId) = isHarnessDigest entry := by
  cases entry <;> rfl

@[simp] theorem appendMessage_withParent (keep parentId : Option String) (entry : FileEntry) :
    appendMessage keep (entry.withParent parentId) = appendMessage keep entry := by
  cases entry <;> rfl

end FileEntry

section Resolve

variable {entries : List FileEntry} {i : Nat} {id : String} {entry : FileEntry}
  {resolved : KeyMap String (Option String)}

theorem lookup_unique (hUnique : UniqueIds entries) (hAt : (entries[i]?).bind FileEntry.id = some id) :
    (indexById entries).get id = some i := by
  rw [indexById_eq_some_iff]
  refine ⟨hAt, fun j hLt hj => ?_⟩
  have := hUnique i j id hAt hj
  omega

def rank (entries : List FileEntry) (id? : Option String) : Nat :=
  match id?.bind (indexById entries).get with
  | some i => i + 1
  | none => 0

theorem rank_of_row (hUnique : UniqueIds entries) (hAt : (entries[i]?).bind FileEntry.id = some id) :
    rank entries (some id) = i + 1 := by
  rw [rank, Option.bind_some, lookup_unique hUnique hAt]

theorem rank_parent_le (hThreaded : Threaded entries) (hAt : entries[i]? = some entry) :
    rank entries entry.parentId ≤ i := by
  rw [rank]
  split
  · rename_i j hj
    have hParent : parentIndex entries i = some j := by rw [parentIndex, hAt, Option.bind_some, hj]
    have := hThreaded i j hParent
    omega
  · omega

theorem exists_index_of_mem (hMem : entry ∈ entries) (hId : entry.id = some id) :
    ∃ i : Nat, entries[i]? = some entry ∧ (entries[i]?).bind FileEntry.id = some id := by
  obtain ⟨i, hAt⟩ := List.mem_iff_getElem?.mp hMem
  exact ⟨i, hAt, by rw [hAt, Option.bind_some, hId]⟩

theorem rank_parent_lt (hUnique : UniqueIds entries) (hThreaded : Threaded entries) (hMem : entry ∈ entries)
    (hId : entry.id = some id) : rank entries entry.parentId < rank entries (some id) := by
  obtain ⟨i, hAt, hIdAt⟩ := exists_index_of_mem hMem hId
  rw [rank_of_row hUnique hIdAt]
  exact Nat.lt_succ_of_le (rank_parent_le hThreaded hAt)

theorem droppedParents_some {parent : Option String} (h : (droppedParents entries).get id = some parent) :
    ∃ entry ∈ entries, entry.isGitState = true ∧ entry.id = some id ∧ entry.parentId = parent := by
  rw [droppedParents, KeyMap.get_ofPairs_eq_some_iff] at h
  obtain ⟨before, after, hPairs, _⟩ := h
  have hMem : (id, parent) ∈ entries.filterMap fun entry =>
      if entry.isGitState then entry.id.map (·, entry.parentId) else none := by rw [hPairs]; simp
  rw [List.mem_filterMap] at hMem
  obtain ⟨entry, hEntry, hPair⟩ := hMem
  split at hPair
  · rename_i hGit
    rw [Option.map_eq_some_iff] at hPair
    obtain ⟨id', hId, hEq⟩ := hPair
    obtain ⟨rfl, rfl⟩ := Prod.mk.inj hEq
    exact ⟨entry, hEntry, hGit, hId, rfl⟩
  · cases hPair

theorem droppedParents_none (h : (droppedParents entries).get id = none) :
    ∀ entry ∈ entries, entry.id = some id → entry.isGitState = false := by
  rw [droppedParents, KeyMap.get_ofPairs_eq_none_iff] at h
  intro entry hEntry hId
  by_contra hGit
  refine h (id, entry.parentId) (List.mem_filterMap.mpr ⟨entry, hEntry, ?_⟩) rfl
  rw [if_pos (by simpa using hGit), hId, Option.map_some]

def MemoCorrect (entries : List FileEntry) (resolved : KeyMap String (Option String)) : Prop :=
  ∀ id answer, resolved.get id = some answer → NearestLive entries (some id) answer

theorem memoCorrect_empty : MemoCorrect entries KeyMap.empty := by
  intro id answer h
  cases h

theorem memoize_correct (hMemo : MemoCorrect entries resolved) {answer : Option String} :
    ∀ {path : List String}, (∀ node ∈ path, NearestLive entries (some node) answer) →
      MemoCorrect entries (memoize resolved path answer) := by
  intro path hPath
  induction path generalizing resolved with
  | nil => exact hMemo
  | cons node path ih =>
    refine ih ?_ fun n hn => hPath n (List.mem_cons_of_mem node hn)
    intro id answer' h
    rw [KeyMap.get_insert] at h
    split at h
    · rename_i hId
      obtain rfl := Option.some.inj h
      rw [hId]
      exact hPath node List.mem_cons_self
    · exact hMemo id answer' h

theorem resolveDroppedAncestor_correct (hUnique : UniqueIds entries) (hThreaded : Threaded entries) (fuel : Nat) :
    ∀ (resolved : KeyMap String (Option String)) (path : List String) (current : Option String),
      MemoCorrect entries resolved →
      (∀ node ∈ path, ∀ answer, NearestLive entries current answer → NearestLive entries (some node) answer) →
      (∀ node ∈ path, rank entries current < rank entries (some node)) → rank entries current < fuel →
      MemoCorrect entries (resolveDroppedAncestor (droppedParents entries) fuel resolved path current).1 ∧
        NearestLive entries current
          (resolveDroppedAncestor (droppedParents entries) fuel resolved path current).2 := by
  induction fuel with
  | zero => intro _ _ _ _ _ _ hFuel; omega
  | succ fuel ih =>
    intro resolved path current hMemo hShare hAbove hFuel
    cases current with
    | none => exact ⟨memoize_correct hMemo fun node hn => hShare node hn none .root, .root⟩
    | some id =>
      rw [resolveDroppedAncestor]
      cases hResolved : resolved.get id with
      | some answer =>
        have hAnswer := hMemo id answer hResolved
        exact ⟨memoize_correct hMemo fun node hn => hShare node hn answer hAnswer, hAnswer⟩
      | none =>
        have hFresh : id ∉ path := fun h => Nat.lt_irrefl _ (hAbove id h)
        simp only [if_neg hFresh]
        cases hDropped : (droppedParents entries).get id with
        | none =>
          have hLive : NearestLive entries (some id) (some id) := .live (droppedParents_none hDropped)
          exact ⟨memoize_correct hMemo fun node hn => hShare node hn _ hLive, hLive⟩
        | some next =>
          obtain ⟨entry, hMem, hGit, hId, rfl⟩ := droppedParents_some hDropped
          have hStep : ∀ answer, NearestLive entries entry.parentId answer → NearestLive entries (some id) answer :=
            fun answer h => .dropped hMem hId hGit h
          have hLower := rank_parent_lt hUnique hThreaded hMem hId
          obtain ⟨hMemo', hAnswer⟩ := ih resolved (path ++ [id]) entry.parentId hMemo
            (by
              intro node hn answer h
              rcases List.mem_append.mp hn with hn | hn
              · exact hShare node hn answer (hStep answer h)
              · rw [List.mem_singleton.mp hn]
                exact hStep answer h)
            (by
              intro node hn
              rcases List.mem_append.mp hn with hn | hn
              · exact Nat.lt_trans hLower (hAbove node hn)
              · rw [List.mem_singleton.mp hn]
                exact hLower)
            (by omega)
          exact ⟨hMemo', hStep _ hAnswer⟩

theorem rank_le_length (id? : Option String) : rank entries id? ≤ entries.length := by
  rw [rank]
  split
  · rename_i i hi
    rw [Option.bind_eq_some_iff] at hi
    obtain ⟨_, _, hIndex⟩ := hi
    exact indexById_lt hIndex
  · omega

theorem liveParent_correct (hUnique : UniqueIds entries) (hThreaded : Threaded entries) {fuel : Nat}
    (hFuel : entries.length < fuel) (hMemo : MemoCorrect entries resolved) (parentId : Option String) :
    MemoCorrect entries (liveParent (droppedParents entries) fuel resolved parentId).1 ∧
      NearestLive entries parentId (liveParent (droppedParents entries) fuel resolved parentId).2 := by
  cases parentId with
  | none => exact ⟨hMemo, .root⟩
  | some id =>
    rw [liveParent]
    split
    · exact resolveDroppedAncestor_correct hUnique hThreaded fuel resolved [] (some id) hMemo (by simp) (by simp)
        (Nat.lt_of_le_of_lt (rank_le_length _) hFuel)
    · rename_i hKept
      have hNone : (droppedParents entries).get id = none := by simpa [KeyMap.contains] using hKept
      exact ⟨hMemo, .live (droppedParents_none hNone)⟩

theorem forkRows_reparented (hUnique : UniqueIds entries) (hThreaded : Threaded entries) {fuel : Nat}
    (hFuel : entries.length < fuel) : ∀ (rows : List FileEntry) (resolved : KeyMap String (Option String)),
      MemoCorrect entries resolved → (∀ row ∈ rows, row.isForked = true) →
      List.Forall₂ (Reparented entries) rows (forkRows (droppedParents entries) fuel resolved rows) := by
  intro rows
  induction rows with
  | nil => exact fun _ _ _ => .nil
  | cons row rows ih =>
    intro resolved hMemo hForked
    have hRow := hForked row List.mem_cons_self
    have hRows : ∀ r ∈ rows, r.isForked = true := fun r hr => hForked r (List.mem_cons_of_mem row hr)
    obtain ⟨hMemo', hLive⟩ := liveParent_correct hUnique hThreaded hFuel hMemo row.parentId
    rw [forkRows]
    refine .cons ?_ (ih _ hMemo' hRows)
    split
    · rename_i hSame
      exact ⟨rfl, by rwa [← hSame] at hLive⟩
    · exact ⟨FileEntry.withParent_withParent none _ row, by rwa [FileEntry.withParent_parentId hRow]⟩

theorem forkedBranchEntries_reparented (hUnique : UniqueIds entries) (hThreaded : Threaded entries) :
    List.Forall₂ (Reparented entries) (entries.filter FileEntry.isForked) (forkedBranchEntries entries) :=
  forkRows_reparented hUnique hThreaded (by omega) _ _ memoCorrect_empty fun _ h => (List.mem_filter.mp h).2

end Resolve

end PrimeAgent
