import PrimeAgent.AgentsForest.Nesting

/-! # The forest of the agents view

With every line expanded the rows show a record exactly when the parents the rows take lead from it to a
root that is shown. Whether they show all records rests on how far those parents agree with the lineage.
-/
namespace PrimeAgent.AgentsForest

open ParentWalk ParentForest

section

variable {records : List UnifiedRecord} {view : View} {index parent : Nat}

theorem identityOf_inj (hDistinct : (records.map UnifiedRecord.identity).Nodup) {index other : Nat}
    (hIndex : index < records.length) (hOther : other < records.length)
    (hSame : identityOf records index = identityOf records other) : index = other := by
  have hAt {index : Nat} (hIndex : index < records.length) :
      (records.map UnifiedRecord.identity)[index]? = some (identityOf records index) := by
    simp [identityOf, hIndex]
  refine (List.getElem?_inj (by simpa using hIndex) hDistinct).mp ?_
  rw [hAt hIndex, hAt hOther, hSame]

theorem rowParent_parent_lt {scope : Option AgentsViewScope} (hParent : rowParent records scope index = some parent) :
    parent < records.length := by
  obtain ⟨record, -, hRow⟩ := Option.bind_eq_some_iff.mp hParent
  dsimp only at hRow
  split at hRow
  · exact resolve_lt (Option.filter_eq_some_iff.mp hRow).1
  · cases hRow

theorem rollupParent_lt (hParent : rollupParent records index = some parent) :
    index < records.length ∧ parent < records.length := by
  obtain ⟨hFound, -⟩ := Option.filter_eq_some_iff.mp hParent
  obtain ⟨record, -, hResolve⟩ := Option.bind_eq_some_iff.mp hFound
  exact ⟨findParentIndex_lt hFound, resolve_lt hResolve⟩

theorem iter_lt {steps index root : Nat} (hWalk : iter (rowParent records view.scope) steps index = some root)
    (hIndex : index < records.length) : root < records.length := by
  cases steps with
  | zero => exact Option.some.inj hWalk ▸ hIndex
  | succ steps =>
    rw [iter_succ, Option.bind_eq_some_iff] at hWalk
    obtain ⟨_, -, hNext⟩ := hWalk
    exact rowParent_parent_lt hNext

/-! ### The records that are shown -/

def Rooted (records : List UnifiedRecord) (view : View) (index : Nat) : Prop :=
  ∃ steps root, iter (rowParent records view.scope) steps index = some root ∧
    rowParent records view.scope root = none ∧ some root ≠ rowScopeRoot records view.scope

def shown (records : List UnifiedRecord) (view : View) : List Nat :=
  (visibleRoots records view).flatMap (listing (shownKids records view) (records.length + 1))

theorem mem_visibleRoots {root : Nat} : root ∈ visibleRoots records view ↔
    root < records.length ∧ rowParent records view.scope root = none ∧ some root ≠ rowScopeRoot records view.scope := by
  simp [visibleRoots, (List.mergeSort_perm _ _).mem_iff]

theorem shown_nodup (records : List UnifiedRecord) (view : View) : (shown records view).Nodup := by
  refine nodup_forest (shownKids_kids records view) _ ?_ fun root hRoot => (mem_visibleRoots.mp hRoot).2.1
  exact (List.mergeSort_perm _ _).nodup_iff.mpr (List.nodup_range.filter _)

theorem shown_lt {index : Nat} (hShown : index ∈ shown records view) : index < records.length := by
  obtain ⟨root, hRoot, hBelow⟩ := List.mem_flatMap.mp hShown
  obtain ⟨steps, -, hWalk⟩ := (mem_listing (shownKids_kids records view)).mp hBelow
  cases steps with
  | zero => exact Option.some.inj hWalk ▸ (mem_visibleRoots.mp hRoot).1
  | succ steps =>
    obtain ⟨_, hNext, -⟩ := Option.bind_eq_some_iff.mp hWalk
    exact rowParent_lt hNext

theorem steps_lt {steps index root : Nat} (hRoot : rowParent records view.scope root = none)
    (hWalk : iter (rowParent records view.scope) steps index = some root) : steps < records.length + 1 := by
  have hLe := @steps_le _ (rowParent records view.scope) (List.range records.length)
    (fun child parent hNext => List.mem_range.mpr (rowParent_lt hNext)) root (root_grounded hRoot) steps index hWalk
  rw [List.length_range] at hLe
  omega

theorem mem_shown {index : Nat} (hIndex : index < records.length) :
    index ∈ shown records view ↔ Rooted records view index := by
  rw [shown, List.mem_flatMap]
  constructor
  · rintro ⟨root, hRoot, hBelow⟩
    obtain ⟨steps, -, hWalk⟩ := (mem_listing (shownKids_kids records view)).mp hBelow
    exact ⟨steps, root, hWalk, (mem_visibleRoots.mp hRoot).2⟩
  · rintro ⟨steps, root, hWalk, hNone, hScope⟩
    exact ⟨root, mem_visibleRoots.mpr ⟨iter_lt hWalk hIndex, hNone, hScope⟩,
      (mem_listing (shownKids_kids records view)).mpr ⟨steps, steps_lt hNone hWalk, hWalk⟩⟩

theorem sessionsOf_buildRows (hExpanded : ∀ identity, view.expanded identity) :
    sessionsOf (buildRows records view) = (shown records view).map (identityOf records) := by
  rw [buildRows, sessionsOf_flatMap, shown, List.map_flatMap]
  simp only [sessionsOf_emit hExpanded]

theorem countP_sessions (rows : List AgentsViewRow) (identity : String) :
    rows.countP (fun row => row.isSession && row.identity == identity) = (sessionsOf rows).count identity := by
  rw [sessionsOf, List.count, List.countP_map, List.countP_filter]
  exact List.countP_congr fun row _ => by simp [and_comm]

theorem one_row_iff (hDistinct : (records.map UnifiedRecord.identity).Nodup)
    (hExpanded : ∀ identity, view.expanded identity) {index : Nat} (hIndex : index < records.length) :
    (buildRows records view).countP (fun row => row.isSession && row.identity == identityOf records index) = 1 ↔
      Rooted records view index := by
  rw [countP_sessions, sessionsOf_buildRows hExpanded, ← mem_shown hIndex]
  constructor
  · intro hOne
    have hMem : identityOf records index ∈ (shown records view).map (identityOf records) :=
      List.count_pos_iff.mp (by omega)
    obtain ⟨other, hShown, hSame⟩ := List.mem_map.mp hMem
    exact identityOf_inj hDistinct (shown_lt hShown) hIndex hSame ▸ hShown
  · intro hShown
    refine List.count_eq_one_of_mem (List.Nodup.map_on ?_ (shown_nodup records view)) (List.mem_map_of_mem hShown)
    exact fun other hOther another hAnother hSame =>
      identityOf_inj hDistinct (shown_lt hOther) (shown_lt hAnother) hSame

/-! ### The nesting that is shown -/

theorem under_of_rooted (hExpanded : ∀ identity, view.expanded identity)
    (hNext : rowParent records view.scope index = some parent) (hRooted : Rooted records view index) :
    Under (buildRows records view) (identityOf records parent) (identityOf records index) := by
  obtain ⟨steps, root, hWalk, hNone, hScope⟩ := hRooted
  cases steps with
  | zero =>
    cases hWalk
    rw [hNone] at hNext
    cases hNext
  | succ steps =>
    have hRoot : root ∈ visibleRoots records view :=
      mem_visibleRoots.mpr ⟨iter_lt hWalk (rowParent_lt hNext), hNone, hScope⟩
    have hLt := steps_lt hNone hWalk
    rw [iter, hNext, Option.bind_some] at hWalk
    obtain ⟨before, after, hRows⟩ := flatMap_split hRoot fun root => emit records view (records.length + 1) root 0 none
    rw [buildRows, hRows]
    exact (emit_under hExpanded hNext records.length (Nat.lt_of_succ_lt_succ hLt) hWalk).within _ _

theorem parent_of_under (hDistinct : (records.map UnifiedRecord.identity).Nodup)
    (hExpanded : ∀ identity, view.expanded identity) (hIndex : index < records.length)
    (hParent : parent < records.length)
    (hUnder : Under (buildRows records view) (identityOf records parent) (identityOf records index)) :
    rowParent records view.scope index = some parent := by
  obtain ⟨before, above, between, below, after, hRows, -, -, hSession, hIdentity, hNamed, -⟩ := hUnder
  have hMem : below ∈ buildRows records view := by simp [hRows]
  obtain ⟨root, hRoot, hRow⟩ := List.mem_flatMap.mp hMem
  obtain ⟨hLt, hNone, -⟩ := mem_visibleRoots.mp hRoot
  obtain ⟨-, hOrigin⟩ := emit_rows hExpanded _ (by rw [hNone, Option.map_none]) hLt below hRow
  obtain ⟨other, hOther, hSame, hHeld⟩ := hOrigin hSession
  cases identityOf_inj hDistinct hOther hIndex (hSame.symm.trans hIdentity)
  obtain ⟨held, hNext, hEq⟩ := Option.map_eq_some_iff.mp (hHeld.symm.trans hNamed)
  rw [hNext, identityOf_inj hDistinct (rowParent_parent_lt hNext) hParent hEq]

end

/-- The rows show every record once and below its parent exactly when their parents lead every record to a
shown root and are those of the lineage; the rollups are right for acyclic references in any case. -/
theorem forest_holds_iff {M : Type*} [AddCommMonoid M] (asCost : Json → Option M) (records : List UnifiedRecord)
    (view : View) (hDistinct : (records.map UnifiedRecord.identity).Nodup)
    (hExpanded : ∀ identity, view.expanded identity) :
    (RowsHold records view ∧ (AcyclicParents records → ∀ index record, records[index]? = some record →
      RollupHolds asCost records index record)) ↔ Agrees records view := by
  constructor
  · rintro ⟨hRows, -⟩
    refine ⟨fun index hIndex hOther => (one_row_iff hDistinct hExpanded hIndex).mp (hRows.once index hIndex hOther), ?_⟩
    intro index parent hOther hOtherParent hRollup
    obtain ⟨hIndex, hParent⟩ := rollupParent_lt hRollup
    exact parent_of_under hDistinct hExpanded hIndex hParent (hRows.under index parent hOther hOtherParent hRollup)
  · intro hAgrees
    refine ⟨⟨?_, ?_⟩, fun hAcyclic index record hRecord => rollups_hold hAcyclic hRecord⟩
    · exact fun index hIndex hOther => (one_row_iff hDistinct hExpanded hIndex).mpr (hAgrees.rooted index hIndex hOther)
    · intro index parent hOther hOtherParent hRollup
      have hNext := hAgrees.lineage index parent hOther hOtherParent hRollup
      exact under_of_rooted hExpanded hNext (hAgrees.rooted index (rollupParent_lt hRollup).1 hOther)

def savedRecord (id : String) (parentPath : Option String) : UnifiedRecord where
  daemon := none
  saved := some (.object ([("id", .string id), ("path", .string (id ++ ".jsonl")), ("rlmDepth",
    .number (.posInt (if parentPath.isSome then 1 else 0)))] ++
    parentPath.toList.map fun path => ("parentSessionPath", .string path)))
  identity := "file:" ++ id ++ ".jsonl"
  aliases := ["file:" ++ id ++ ".jsonl", "session:" ++ id]
  rowSection := .inactive

def family : List UnifiedRecord := [savedRecord "p" none, savedRecord "c" (some "p.jsonl")]

def openView (scope : Option AgentsViewScope) : View where
  scope := scope
  expanded := fun _ => true
  programShown := fun _ => false
  before := fun index other => index ≤ other

theorem family_forest : RowsHold family (openView none) ∧ (AcyclicParents family → ∀ index record,
    family[index]? = some record → RollupHolds (fun _ => some 1) family index record) := by
  refine (@forest_holds_iff Nat _ _ family (openView none) (by decide +kernel) fun _ => rfl).mpr ⟨?_, ?_⟩
  · intro index hIndex _
    have hLt : index < 2 := hIndex
    obtain rfl | rfl : index = 0 ∨ index = 1 := by omega
    · exact ⟨0, 0, by decide +kernel⟩
    · exact ⟨1, 0, by decide +kernel⟩
  · intro index parent _ _ hRollup
    have hLt : index < 2 := (rollupParent_lt hRollup).1
    have hSame : ∀ index < 2, rowParent family none index = rollupParent family index := by decide +kernel
    exact (hSame index hLt).trans hRollup

theorem scoped_row_missing : (([savedRecord "a" none, savedRecord "b" none]).map UnifiedRecord.identity).Nodup ∧
    named [savedRecord "a" none, savedRecord "b" none] (openView (some ⟨some "b", none⟩)) = some 1 ∧
    ¬ RowsHold [savedRecord "a" none, savedRecord "b" none] (openView (some ⟨some "b", none⟩)) := by
  have hDistinct : (([savedRecord "a" none, savedRecord "b" none]).map UnifiedRecord.identity).Nodup := by
    decide +kernel
  have hNamed : named [savedRecord "a" none, savedRecord "b" none] (openView (some ⟨some "b", none⟩)) = some 1 := by
    decide +kernel
  refine ⟨hDistinct, hNamed, fun hRows => ?_⟩
  have hOnce := hRows.once 0 (by decide) (by rw [hNamed]; decide)
  obtain ⟨steps, root, hWalk, -, hScope⟩ := (one_row_iff hDistinct (fun _ => rfl) (by decide)).mp hOnce
  have hRoot : rowParent [savedRecord "a" none, savedRecord "b" none] (some ⟨some "b", none⟩) 0 = none := by
    decide +kernel
  have hTaken : rowScopeRoot [savedRecord "a" none, savedRecord "b" none] (some ⟨some "b", none⟩) = some 0 := by
    decide +kernel
  cases steps with
  | zero =>
    cases hWalk
    exact hScope hTaken.symm
  | succ steps =>
    rw [iter] at hWalk
    exact absurd (hRoot ▸ hWalk) (by simp)

end PrimeAgent.AgentsForest
