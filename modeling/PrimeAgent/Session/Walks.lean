import PrimeAgent.Manager.State
import PrimeAgent.Types.Decode

/-! # The ancestor walks

The six loops that follow parent links, and what makes them end: two keep a visited set, the other
four follow whatever the file says. They resolve a repeated id to its last row, its last row that is
no header, or its first row.
-/
namespace PrimeAgent

open ParentWalk

/-- `SessionTree::path_to`. -/
def SessionTree.pathTo (entries : List FileEntry) (fuel : Nat) (leafId : String) : Option (List Nat) :=
  (follow (parentIndex entries) fuel ((indexById entries).get leafId)).map List.reverse

/-- `entries.iter().find(|entry| entry.id() == Some(id))`, as a position. -/
def firstIndexById (entries : List FileEntry) (id : String) : Option Nat :=
  entries.findIdx? (·.id == some id)

def firstParentIndex (entries : List FileEntry) (index : Nat) : Option Nat :=
  (entries[index]?).bind fun entry => entry.parentId.bind (firstIndexById entries)

/-- `parent_path`. -/
def parentPath (entries : List FileEntry) (fuel : Nat) (leafId : String) : Option (List String) :=
  (follow (firstParentIndex entries) fuel (firstIndexById entries leafId)).map fun path =>
    path.filterMap fun index => (entries[index]?).bind FileEntry.id

structure CollectEntriesResult where
  entries : List FileEntry
  commonAncestorId : Option String

/-- The last loop of `collect_entries_for_branch_summary`, which stops at the common ancestor. -/
def collectWalk (entries : List FileEntry) (commonAncestorId : Option String) :
    Nat → Option String → Option (List FileEntry)
  | _, none => some []
  | 0, some _ => none
  | fuel + 1, some id =>
    if some id = commonAncestorId then some []
    else match firstIndexById entries id with
      | none => some []
      | some index => match entries[index]? with
        | none => some []
        | some entry => (collectWalk entries commonAncestorId fuel entry.parentId).map (entry :: ·)

def collectEntriesForBranchSummary (entries : List FileEntry) (fuel : Nat) (oldLeafId : Option String)
    (targetId : String) : Option CollectEntriesResult :=
  match oldLeafId with
  | none => some ⟨[], none⟩
  | some oldLeafId => do
    let oldPath ← parentPath entries fuel oldLeafId
    let targetPath ← parentPath entries fuel targetId
    let commonAncestorId := targetPath.reverse.find? (· ∈ oldPath)
    let collected ← collectWalk entries commonAncestorId fuel (some oldLeafId)
    some ⟨collected.reverse, commonAncestorId⟩

def indexedParentIndex (entries : List FileEntry) (index : Nat) : Option Nat :=
  (entries[index]?).bind fun entry => entry.parentId.bind (EntryIndex.ofEntries entries).byId.get

structure AncestorWalksEnd (entries : List FileEntry) : Prop where
  contextWalk : ∀ leafId, Halts fun fuel => contextWalk entries fuel leafId
  activeBranchWalk : ∀ (m : SessionManager) leafId, m.fileEntries = entries →
    Halts fun fuel => ({ m.buildIndex with leafId := leafId } : SessionManager).activeBranchWalk fuel
  getBranch : ∀ (m : SessionManager) leafId fromId, m.fileEntries = entries →
    Halts fun fuel => ({ m.buildIndex with leafId := leafId } : SessionManager).getBranch fuel fromId
  pathTo : ∀ leafId, Halts fun fuel => SessionTree.pathTo entries fuel leafId
  parentPath : ∀ leafId, Halts fun fuel => parentPath entries fuel leafId
  collectEntries : ∀ oldLeafId targetId,
    Halts fun fuel => collectEntriesForBranchSummary entries fuel oldLeafId targetId

structure NoRowItsOwnAncestor (entries : List FileEntry) : Prop where
  lastRow : Acyclic (parentIndex entries)
  lastTreeRow : Acyclic (indexedParentIndex entries)
  firstRow : Acyclic (firstParentIndex entries)

variable {entries : List FileEntry}

theorem indexedParentIndex_lt {i j : Nat} (h : indexedParentIndex entries i = some j) :
    j < entries.length := by
  simp only [indexedParentIndex, Option.bind_eq_some_iff] at h
  obtain ⟨_, _, _, _, hIndex⟩ := h
  exact EntryIndex.ofEntries_lt hIndex

theorem firstIndexById_lt {id : String} {i : Nat} (h : firstIndexById entries id = some i) : i < entries.length :=
  (List.findIdx?_eq_some_iff_getElem.mp h).1

theorem firstParentIndex_lt {i j : Nat} (h : firstParentIndex entries i = some j) :
    j < entries.length := by
  simp only [firstParentIndex, Option.bind_eq_some_iff] at h
  obtain ⟨_, _, _, _, hIndex⟩ := h
  exact firstIndexById_lt hIndex

theorem buildIndex_parentPosition (m : SessionManager) (leafId : Option String) :
    ({ m.buildIndex with leafId := leafId } : SessionManager).parentPosition = indexedParentIndex m.fileEntries := rfl

theorem halts_map_iff {α β : Type} {loop : Nat → Option α} (f : α → β) :
    (Halts fun fuel => (loop fuel).map f) ↔ Halts loop := by
  simp only [Halts, Option.isSome_map]

theorem collectWalk_isSome (entries : List FileEntry) (commonAncestorId : Option String) (fuel : Nat) :
    ∀ current : Option String, (follow (firstParentIndex entries) fuel (current.bind (firstIndexById entries))).isSome →
      ∀ extra, (collectWalk entries commonAncestorId (fuel + 1 + extra) current).isSome := by
  induction fuel with
  | zero =>
    intro current h extra
    cases current with
    | none => cases extra <;> rfl
    | some id =>
      have hNone : firstIndexById entries id = none := by
        cases hFind : firstIndexById entries id with
        | none => rfl
        | some i => simp [hFind, follow] at h
      rw [Nat.zero_add, Nat.add_comm, collectWalk, hNone]
      split <;> rfl
  | succ fuel ih =>
    intro current h extra
    cases current with
    | none => rw [show fuel + 1 + 1 + extra = (fuel + 1 + extra) + 1 by omega]; rfl
    | some id =>
      rw [show fuel + 1 + 1 + extra = (fuel + 1 + extra) + 1 by omega, collectWalk]
      split
      · rfl
      · cases hFind : firstIndexById entries id with
        | none => rfl
        | some i =>
          cases hAt : entries[i]? with
          | none => simp [hAt]
          | some entry =>
            rw [Option.bind_some, hFind, follow, Option.isSome_map] at h
            simp only [hAt, Option.isSome_map]
            refine ih entry.parentId ?_ extra
            simpa [firstParentIndex, hAt] using h

theorem follow_isSome_add {α : Type} (next : α → Option α) {fuel : Nat} {current : Option α}
    (h : (follow next fuel current).isSome) (extra : Nat) : (follow next (fuel + extra) current).isSome := by
  rw [follow_fuel_irrel next fuel extra current h]
  exact h

theorem collectEntries_halts {oldLeafId targetId : String} (hOld : Halts fun fuel => parentPath entries fuel oldLeafId)
    (hTarget : Halts fun fuel => parentPath entries fuel targetId) :
    Halts fun fuel => collectEntriesForBranchSummary entries fuel (some oldLeafId) targetId := by
  obtain ⟨f, hf⟩ := hOld
  obtain ⟨g, hg⟩ := hTarget
  simp only [parentPath, Option.isSome_map] at hf hg
  refine ⟨f + 1 + g, ?_⟩
  obtain ⟨oldPath, hOldPath⟩ := Option.isSome_iff_exists.mp (follow_isSome_add _ hf (1 + g))
  obtain ⟨targetPath, hTargetPath⟩ := Option.isSome_iff_exists.mp (follow_isSome_add _ hg (f + 1))
  rw [← Nat.add_assoc] at hOldPath
  rw [Nat.add_comm g] at hTargetPath
  simp only [collectEntriesForBranchSummary, parentPath, hOldPath, hTargetPath, Option.map_some,
    Option.bind_eq_bind, Option.bind_some]
  have hCollect := collectWalk_isSome entries
    ((targetPath.filterMap fun index => (entries[index]?).bind FileEntry.id).reverse.find?
      (· ∈ oldPath.filterMap fun index => (entries[index]?).bind FileEntry.id)) f (some oldLeafId) hf g
  obtain ⟨collected, hCollected⟩ := Option.isSome_iff_exists.mp hCollect
  rw [hCollected]
  rfl

theorem noRowItsOwnAncestor_of_end (hEnd : AncestorWalksEnd entries) :
    NoRowItsOwnAncestor entries := by
  obtain ⟨_, _, hBranch, hPath, hParent, _⟩ := hEnd
  refine ⟨acyclic_of_halts fun a b hab => ?_, acyclic_of_halts fun a b hab => ?_,
    acyclic_of_halts fun a b hab => ?_⟩
  · simp only [parentIndex, Option.bind_eq_some_iff] at hab
    obtain ⟨_, _, id, _, hId⟩ := hab
    have h := (halts_map_iff _).mp (hPath id)
    rwa [hId] at h
  · simp only [indexedParentIndex, Option.bind_eq_some_iff] at hab
    obtain ⟨_, _, id, _, hId⟩ := hab
    let m : SessionManager :=
      ⟨"", none, "", "", false, false, false, entries, KeyMap.empty, KeyMap.empty, KeyMap.empty, none⟩
    have h := (halts_map_iff _).mp (hBranch m none (some id) rfl)
    simp only [SessionManager.branchWalk, buildIndex_parentPosition] at h
    have hStart : m.buildIndex.byId.get id = some b := hId
    rwa [Option.orElse_eq_orElse, Option.orElse_eq_or, Option.some_or, Option.bind_some, hStart] at h
  · simp only [firstParentIndex, Option.bind_eq_some_iff] at hab
    obtain ⟨_, _, id, _, hId⟩ := hab
    have h := (halts_map_iff _).mp (hParent id)
    rwa [hId] at h

theorem ancestorWalks_end (hNone : NoRowItsOwnAncestor entries) :
    AncestorWalksEnd entries := by
  obtain ⟨hLast, hTree, hFirst⟩ := hNone
  have hParents : ∀ leafId, Halts fun fuel => parentPath entries fuel leafId := fun leafId =>
    (halts_map_iff _).mpr (halts_of_acyclic (Finset.range entries.length)
      (fun a b h => Finset.mem_range.mpr (firstParentIndex_lt h)) hFirst _)
  refine ⟨fun leafId => ⟨_, contextWalk_isSome entries leafId⟩, ?_, ?_, fun leafId => ?_, hParents, ?_⟩
  · rintro m leafId rfl
    refine ⟨m.fileEntries.length + 1, followGuarded_isSome (Finset.range m.fileEntries.length)
      (fun a b h => Finset.mem_range.mpr (indexedParentIndex_lt h)) _ _ _ ?_ (by simp)⟩
    intro a h
    rw [Option.bind_eq_some_iff] at h
    obtain ⟨_, _, hIndex⟩ := h
    exact Finset.mem_range.mpr (EntryIndex.ofEntries_lt hIndex)
  · rintro m leafId fromId rfl
    exact (halts_map_iff _).mpr (halts_of_acyclic (Finset.range m.fileEntries.length)
      (fun a b h => Finset.mem_range.mpr (indexedParentIndex_lt h)) hTree _)
  · exact (halts_map_iff _).mpr (halts_of_acyclic (Finset.range entries.length)
      (fun a b h => Finset.mem_range.mpr (parentIndex_lt h)) hLast _)
  · intro oldLeafId targetId
    cases oldLeafId with
    | none => exact ⟨0, rfl⟩
    | some oldLeafId => exact collectEntries_halts (hParents oldLeafId) (hParents targetId)

theorem ancestorWalksEnd_iff (entries : List FileEntry) :
    AncestorWalksEnd entries ↔ NoRowItsOwnAncestor entries :=
  ⟨noRowItsOwnAncestor_of_end, ancestorWalks_end⟩

def mutualParentRows : List FileEntry :=
  [Json.object [("type", .string "session"), ("version", .number (.posInt 3)), ("id", .string "s"),
      ("timestamp", .string ""), ("cwd", .string "/w")],
    Json.object [("type", .string "custom"), ("id", .string "a"), ("parentId", .string "b"),
      ("customType", .string "x")],
    Json.object [("type", .string "custom"), ("id", .string "b"), ("parentId", .string "a"),
      ("customType", .string "x")]].filterMap FileEntry.ofValue

theorem mutual_parents_never_end : ¬ AncestorWalksEnd mutualParentRows :=
  fun hEnd => (noRowItsOwnAncestor_of_end hEnd).lastRow 1 2 (by decide) (by decide)

end PrimeAgent
