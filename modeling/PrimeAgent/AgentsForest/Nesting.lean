import PrimeAgent.AgentsForest.Lineage
import PrimeAgent.Session.Timestamp

/-! # Rows

`build_rows` without an active search. A subagent row nests under the row its parent keys lead to, each
agent carries one summary line, and an expanded line is followed by the children. The order of siblings
is a parameter.
-/
namespace PrimeAgent.AgentsForest

inductive RowKind where
  | agent | subagentSummary | subagent | code
deriving DecidableEq

structure AgentsViewRow where
  kind : RowKind
  rowSection : RowSection
  identity : String
  parentIdentity : Option String
  depth : Nat
  expanded : Bool
  hasSpawnCode : Bool
deriving DecidableEq

/-- What the view is asked to show: `expanded` and `programShown` by row identity, and `before` for the
order of two rows. -/
structure View where
  scope : Option AgentsViewScope
  expanded : String → Bool
  programShown : String → Bool
  before : Nat → Nat → Bool

section

variable (records : List UnifiedRecord)

def identityOf (index : Nat) : String :=
  (records[index]?.map UnifiedRecord.identity).getD ""

def sectionOf (index : Nat) : RowSection :=
  (records[index]?.map UnifiedRecord.rowSection).getD .inactive

def summaryAt (index : Nat) : Json :=
  (records[index]?.map summaryForRecord).getD .null

/-- The record the rows take for the root of the scope: the first that agrees in one of the two ids, an
absent one with an absent one. -/
def rowScopeRoot (scope : Option AgentsViewScope) : Option Nat :=
  scope.bind fun scope => records.findIdx? fun record =>
    scope.session_id == strAt "sessionId" (summaryForRecord record) ||
      scope.active_session_id == strAt "activeSessionId" (summaryForRecord record)

def isDirectScopeChild (scope : Option AgentsViewScope) (summary : Json) : Bool :=
  match (rowScopeRoot records scope).bind fun root => records[root]? with
  | some root => (summaryParentKeys summary).any fun key => root.aliases.contains key
  | none => false

def startsSubagent (scope : Option AgentsViewScope) (summary : Json) : Bool :=
  !isDirectScopeChild records scope summary &&
    (isSubagentSummary summary || records.any (depthConsistentParent summary))

def rowParent (scope : Option AgentsViewScope) (index : Nat) : Option Nat :=
  records[index]?.bind fun record =>
    let summary := summaryForRecord record
    if startsSubagent records scope summary then
      (resolve (fun record => summaryIdentityKeys (summaryForRecord record)) records (summaryParentKeys summary)
        index).filter fun parent => rollsUp records index parent
    else none

def rowChildren (scope : Option AgentsViewScope) (parent : Nat) : List Nat :=
  (List.range records.length).filter fun index => rowParent records scope index = some parent

/-! ### The lines below a row -/

def spawnCode (summary : Json) : Option String :=
  (strAt "spawnCode" summary).filter fun code => trim code.toList ≠ []

def orderedChildren (view : View) (index : Nat) : List Nat :=
  let sorted := (rowChildren records view.scope index).mergeSort view.before
  sorted.filter (fun child => sectionOf records child = .running) ++
    sorted.filter (fun child => !decide (sectionOf records child = .running))

def addToGroup (code : Option String) (child : Nat) : List (Option String × List Nat) → List (Option String × List Nat)
  | [] => [(code, [child])]
  | (held, kids) :: rest =>
    if held = code then (held, kids ++ [child]) :: rest else (held, kids) :: addToGroup code child rest

def groupsOf (view : View) (index : Nat) : List (Option String × List Nat) :=
  let ordered := orderedChildren records view index
  if view.programShown (identityOf records index) then
    ordered.foldl (fun groups child => addToGroup (spawnCode (summaryAt records child)) child groups) []
  else [(none, ordered)]

def MAX_SPAWN_CODE_LINES : Nat := 10

def codeLineNames (code : String) : List String :=
  let lines := ((trimEnd code.toList).splitOn '\n').length
  let shown := (List.range (min lines MAX_SPAWN_CODE_LINES)).map Nat.repr
  ["pad-top"] ++ shown ++ (if MAX_SPAWN_CODE_LINES < lines then ["more"] else []) ++ ["pad-bottom"]

def spawnCodeRows (index : Nat) (code : String) (depth group : Nat) : List AgentsViewRow :=
  (codeLineNames code).map fun name =>
    { kind := .code, rowSection := sectionOf records index
      identity := "code:" ++ identityOf records index ++ ":" ++ Nat.repr group ++ ":" ++ name
      parentIdentity := some (identityOf records index), depth, expanded := false, hasSpawnCode := false }

def programRows (index : Nat) (code : Option String) (depth group : Nat) : List AgentsViewRow :=
  match code with
  | some code => spawnCodeRows records index code depth group
  | none => []

def SUMMARY_ROW_PREFIX : String := "subagents:"

def agentsRow (view : View) (index depth : Nat) (parentIdentity : Option String) : AgentsViewRow :=
  { kind := if (rowParent records view.scope index).isSome then .subagent else .agent
    rowSection := sectionOf records index, identity := identityOf records index, parentIdentity, depth
    expanded := false, hasSpawnCode := false }

def mergedSummaryRow (view : View) (index depth : Nat) (expanded : Bool) : AgentsViewRow :=
  { kind := .subagentSummary, rowSection := sectionOf records index
    identity := SUMMARY_ROW_PREFIX ++ identityOf records index
    parentIdentity := some (identityOf records index), depth, expanded
    hasSpawnCode := (rowChildren records view.scope index).any fun child =>
      (spawnCode (summaryAt records child)).isSome }

def emit (view : View) : Nat → Nat → Nat → Option String → List AgentsViewRow
  | 0, _, _, _ => []
  | fuel + 1, index, depth, parentIdentity =>
    agentsRow records view index depth parentIdentity ::
      if rowChildren records view.scope index = [] then []
      else mergedSummaryRow records view index (depth + 1) (view.expanded (identityOf records index)) ::
        if view.expanded (identityOf records index) then
          (groupsOf records view index).zipIdx.flatMap fun entry =>
            programRows records index entry.1.1 (depth + 1) entry.2 ++
              entry.1.2.flatMap fun child => emit view fuel child (depth + 1) (some (identityOf records index))
        else []

def visibleRoots (view : View) : List Nat :=
  ((List.range records.length).filter fun index =>
    (rowParent records view.scope index).isNone && decide (some index ≠ rowScopeRoot records view.scope)).mergeSort
      view.before

def buildRows (view : View) : List AgentsViewRow :=
  (visibleRoots records view).flatMap fun root => emit records view (records.length + 1) root 0 none

end

/-! ### What the rows should show -/

def AgentsViewRow.isSession (row : AgentsViewRow) : Bool :=
  row.kind = .agent ∨ row.kind = .subagent

def Under (rows : List AgentsViewRow) (parent child : String) : Prop :=
  ∃ before above between below after, rows = before ++ above :: between ++ below :: after ∧
    above.isSession ∧ above.identity = parent ∧ below.isSession ∧ below.identity = child ∧
    below.parentIdentity = some parent ∧ below.depth = above.depth + 1 ∧ ∀ row ∈ between, above.depth < row.depth

def named (records : List UnifiedRecord) (view : View) : Option Nat :=
  view.scope.bind (scopeRootIndex records)

/-- Every record but the one the scope names has one row, below its parent's where it is a subagent. -/
structure RowsHold (records : List UnifiedRecord) (view : View) : Prop where
  once : ∀ index, index < records.length → some index ≠ named records view →
    (buildRows records view).countP (fun row => row.isSession && row.identity == identityOf records index) = 1
  under : ∀ index parent, some index ≠ named records view → some parent ≠ named records view →
    rollupParent records index = some parent →
    Under (buildRows records view) (identityOf records parent) (identityOf records index)

/-- From every record but the named one the rows' parents lead to a root that is shown, and they are the
parents of the lineage. -/
structure Agrees (records : List UnifiedRecord) (view : View) : Prop where
  rooted : ∀ index, index < records.length → some index ≠ named records view →
    ∃ steps root, ParentWalk.iter (rowParent records view.scope) steps index = some root ∧
      rowParent records view.scope root = none ∧ some root ≠ rowScopeRoot records view.scope
  lineage : ∀ index parent, some index ≠ named records view → some parent ≠ named records view →
    rollupParent records index = some parent → rowParent records view.scope index = some parent

end PrimeAgent.AgentsForest

/-! ## The forest the rows make

The rows of all records that lead to a shown root stand in the order of a walk down the forest, each once
and below its parent's.
-/
namespace PrimeAgent.AgentsForest

open ParentWalk ParentForest

section

variable {records : List UnifiedRecord} {view : View} {fuel index depth : Nat}

theorem rowParent_lt {scope : Option AgentsViewScope} {index parent : Nat}
    (hParent : rowParent records scope index = some parent) : index < records.length := by
  obtain ⟨record, hRecord, -⟩ := Option.bind_eq_some_iff.mp hParent
  exact (List.getElem?_eq_some_iff.mp hRecord).1

theorem rowChildren_kids (records : List UnifiedRecord) (scope : Option AgentsViewScope) :
    Kids (rowParent records scope) (rowChildren records scope) := by
  refine ⟨fun parent child => ?_, fun parent => List.nodup_range.filter _⟩
  simp only [rowChildren, List.mem_filter, List.mem_range, decide_eq_true_eq]
  exact ⟨And.right, fun hParent => ⟨rowParent_lt hParent, hParent⟩⟩

/-! ### The children in the order they are shown -/

def shownKids (records : List UnifiedRecord) (view : View) (index : Nat) : List Nat :=
  (groupsOf records view index).flatMap Prod.snd

theorem addToGroup_perm (code : Option String) (child : Nat) (groups : List (Option String × List Nat)) :
    ((addToGroup code child groups).flatMap Prod.snd).Perm (groups.flatMap Prod.snd ++ [child]) := by
  induction groups with
  | nil => exact List.Perm.refl _
  | cons group rest ih =>
    obtain ⟨held, kids⟩ := group
    rw [addToGroup]
    split
    · simp only [List.flatMap_cons, List.append_assoc]
      exact (List.perm_append_comm).append_left kids
    · simp only [List.flatMap_cons, List.append_assoc]
      exact ih.append_left kids

theorem shownKids_perm (records : List UnifiedRecord) (view : View) (index : Nat) :
    (shownKids records view index).Perm (rowChildren records view.scope index) := by
  have hOrdered : (orderedChildren records view index).Perm (rowChildren records view.scope index) :=
    (List.filter_append_perm _ _).trans (List.mergeSort_perm _ _)
  have hGroups (children : List Nat) (groups : List (Option String × List Nat)) :
      ((children.foldl (fun groups child => addToGroup (spawnCode (summaryAt records child)) child groups)
        groups).flatMap Prod.snd).Perm (groups.flatMap Prod.snd ++ children) := by
    induction children generalizing groups with
    | nil => simp
    | cons child children ih =>
      rw [List.foldl_cons, List.append_cons]
      exact (ih _).trans ((addToGroup_perm _ child groups).append_right children)
  rw [shownKids, groupsOf]
  split
  · exact (hGroups _ []).trans (by simpa using hOrdered)
  · simpa using hOrdered

theorem shownKids_kids (records : List UnifiedRecord) (view : View) :
    Kids (rowParent records view.scope) (shownKids records view) := by
  have hKids := rowChildren_kids records view.scope
  exact ⟨fun parent child => (shownKids_perm records view parent).mem_iff.trans (hKids.mem parent child),
    fun parent => (shownKids_perm records view parent).nodup_iff.mpr (hKids.nodup parent)⟩

/-! ### Session rows -/

def sessionsOf (rows : List AgentsViewRow) : List String :=
  (rows.filter AgentsViewRow.isSession).map AgentsViewRow.identity

theorem sessionsOf_append (rows more : List AgentsViewRow) :
    sessionsOf (rows ++ more) = sessionsOf rows ++ sessionsOf more := by
  simp [sessionsOf]

theorem sessionsOf_flatMap {α : Type} (list : List α) (f : α → List AgentsViewRow) :
    sessionsOf (list.flatMap f) = list.flatMap fun x => sessionsOf (f x) := by
  induction list with
  | nil => rfl
  | cons x list ih => rw [List.flatMap_cons, List.flatMap_cons, sessionsOf_append, ih]

theorem sessionsOf_program (index : Nat) (code : Option String) (depth group : Nat) :
    sessionsOf (programRows records index code depth group) = [] := by
  cases code with
  | none => rfl
  | some code =>
    rw [sessionsOf, List.map_eq_nil_iff, List.filter_eq_nil_iff]
    intro row hRow
    obtain ⟨name, -, rfl⟩ := List.mem_map.mp hRow
    simp [AgentsViewRow.isSession]

theorem isSession_agentsRow (index depth : Nat) (parentIdentity : Option String) :
    (agentsRow records view index depth parentIdentity).isSession := by
  simp only [agentsRow, AgentsViewRow.isSession]
  split <;> rfl

def groupRows (records : List UnifiedRecord) (view : View) (fuel index depth : Nat) : List AgentsViewRow :=
  (groupsOf records view index).zipIdx.flatMap fun entry =>
    programRows records index entry.1.1 (depth + 1) entry.2 ++
      entry.1.2.flatMap fun child => emit records view fuel child (depth + 1) (some (identityOf records index))

theorem emit_succ (hExpanded : ∀ identity, view.expanded identity) (fuel index depth : Nat)
    (parentIdentity : Option String) :
    emit records view (fuel + 1) index depth parentIdentity =
      agentsRow records view index depth parentIdentity ::
        if rowChildren records view.scope index = [] then []
        else mergedSummaryRow records view index (depth + 1) true :: groupRows records view fuel index depth := by
  rw [emit, groupRows]
  simp only [hExpanded, if_true]

theorem zipIdx_flatMap {α β : Type} (list : List α) (f : α → List β) (start : Nat) :
    ((list.zipIdx start).flatMap fun entry => f entry.1) = list.flatMap f := by
  induction list generalizing start with
  | nil => rfl
  | cons x list ih => rw [List.zipIdx_cons, List.flatMap_cons, List.flatMap_cons, ih]

theorem sessionsOf_emit (hExpanded : ∀ identity, view.expanded identity) (fuel index depth : Nat)
    (parentIdentity : Option String) :
    sessionsOf (emit records view fuel index depth parentIdentity) =
      (listing (shownKids records view) fuel index).map (identityOf records) := by
  induction fuel generalizing index depth parentIdentity with
  | zero => rfl
  | succ fuel ih =>
    have hHead : sessionsOf [agentsRow records view index depth parentIdentity] = [identityOf records index] := by
      rw [sessionsOf, List.filter_singleton, isSession_agentsRow]
      rfl
    have hSummary : sessionsOf [mergedSummaryRow records view index (depth + 1) true] = [] := rfl
    have hEntry (entry : (Option String × List Nat) × Nat) :
        sessionsOf (programRows records index entry.1.1 (depth + 1) entry.2 ++ entry.1.2.flatMap fun child =>
            emit records view fuel child (depth + 1) (some (identityOf records index))) =
          (entry.1.2.flatMap (listing (shownKids records view) fuel)).map (identityOf records) := by
      rw [sessionsOf_append, sessionsOf_program, List.nil_append, sessionsOf_flatMap, List.map_flatMap]
      simp only [ih]
    have hGroups : sessionsOf (groupRows records view fuel index depth) =
        ((shownKids records view index).flatMap (listing (shownKids records view) fuel)).map (identityOf records) := by
      rw [groupRows, sessionsOf_flatMap]
      simp only [hEntry]
      rw [zipIdx_flatMap (groupsOf records view index)
        (fun group => (group.2.flatMap (listing (shownKids records view) fuel)).map (identityOf records)) 0,
        shownKids, List.map_flatMap, List.flatMap_assoc]
      simp only [List.map_flatMap]
    rw [emit_succ hExpanded, ← List.singleton_append, sessionsOf_append, hHead, listing, List.map_cons, ← hGroups,
      List.singleton_append]
    congr 1
    split
    · rename_i hNone
      have hNil : shownKids records view index = [] := (hNone ▸ shownKids_perm records view index).eq_nil
      rw [hGroups, hNil]
      rfl
    · rw [← List.singleton_append, sessionsOf_append, hSummary, List.nil_append]

/-! ### Depths and parents -/

theorem groupRows_cases {row : AgentsViewRow} (hRow : row ∈ groupRows records view fuel index depth) :
    (¬ row.isSession ∧ row.depth = depth + 1) ∨
      ∃ child, rowParent records view.scope child = some index ∧
        row ∈ emit records view fuel child (depth + 1) (some (identityOf records index)) := by
  obtain ⟨entry, hEntry, hRow⟩ := List.mem_flatMap.mp hRow
  obtain hRow | hRow := List.mem_append.mp hRow
  · left
    cases hCode : entry.1.1 with
    | none =>
      rw [hCode] at hRow
      cases hRow
    | some code =>
      rw [hCode] at hRow
      obtain ⟨name, -, rfl⟩ := List.mem_map.mp hRow
      exact ⟨by simp [AgentsViewRow.isSession], rfl⟩
  · obtain ⟨child, hChild, hRow⟩ := List.mem_flatMap.mp hRow
    have hKid : child ∈ shownKids records view index :=
      List.mem_flatMap.mpr ⟨entry.1, List.fst_mem_of_mem_zipIdx hEntry, hChild⟩
    exact .inr ⟨child, ((shownKids_kids records view).mem index child).mp hKid, hRow⟩

theorem emit_rows (hExpanded : ∀ identity, view.expanded identity) (fuel : Nat) :
    ∀ {index depth : Nat} {parentIdentity : Option String},
      parentIdentity = (rowParent records view.scope index).map (identityOf records) → index < records.length →
      ∀ row ∈ emit records view fuel index depth parentIdentity, depth ≤ row.depth ∧ (row.isSession →
        ∃ other, other < records.length ∧ row.identity = identityOf records other ∧
          row.parentIdentity = (rowParent records view.scope other).map (identityOf records)) := by
  induction fuel with
  | zero => exact fun {index depth parentIdentity} _ _ row hRow => absurd hRow List.not_mem_nil
  | succ fuel ih =>
    intro index depth parentIdentity hParent hIndex row hRow
    rw [emit_succ hExpanded] at hRow
    obtain rfl | hRow := List.mem_cons.mp hRow
    · exact ⟨le_rfl, fun _ => ⟨index, hIndex, rfl, hParent⟩⟩
    · split at hRow
      · cases hRow
      obtain rfl | hRow := List.mem_cons.mp hRow
      · exact ⟨Nat.le_succ depth, fun hSession => absurd hSession (by simp [mergedSummaryRow, AgentsViewRow.isSession])⟩
      obtain ⟨hCode, hDepth⟩ | ⟨child, hNext, hRow⟩ := groupRows_cases hRow
      · exact ⟨by omega, fun hSession => absurd hSession hCode⟩
      · obtain ⟨hDepth, hOrigin⟩ := ih (by rw [hNext, Option.map_some]) (rowParent_lt hNext) row hRow
        exact ⟨Nat.le_of_succ_le hDepth, hOrigin⟩

theorem groupRows_depth (hExpanded : ∀ identity, view.expanded identity) :
    ∀ row ∈ groupRows records view fuel index depth, depth < row.depth := by
  intro row hRow
  obtain ⟨-, hDepth⟩ | ⟨child, hNext, hRow⟩ := groupRows_cases hRow
  · omega
  · exact (emit_rows hExpanded fuel (by rw [hNext, Option.map_some]) (rowParent_lt hNext) row hRow).1

/-! ### Nesting -/

theorem flatMap_split {α β : Type} {list : List α} {x : α} (hMem : x ∈ list) (f : α → List β) :
    ∃ before after, list.flatMap f = before ++ f x ++ after := by
  obtain ⟨front, back, rfl⟩ := List.append_of_mem hMem
  refine ⟨front.flatMap f, back.flatMap f, ?_⟩
  rw [List.flatMap_append, List.flatMap_cons, List.append_assoc]

theorem Under.within {rows : List AgentsViewRow} {parent child : String} (hUnder : Under rows parent child)
    (before after : List AgentsViewRow) : Under (before ++ rows ++ after) parent child := by
  obtain ⟨front, above, between, below, back, rfl, hRest⟩ := hUnder
  refine ⟨before ++ front, above, between, below, back ++ after, ?_, hRest⟩
  simp only [List.append_assoc, List.cons_append]

theorem child_rows (records : List UnifiedRecord) (view : View) (fuel depth : Nat) {index child : Nat}
    (hKid : child ∈ shownKids records view index) :
    ∃ before after, groupRows records view fuel index depth =
      before ++ emit records view fuel child (depth + 1) (some (identityOf records index)) ++ after := by
  obtain ⟨group, hGroup, hChild⟩ := List.mem_flatMap.mp hKid
  obtain ⟨groupIndex, hLt, hAt⟩ := List.mem_iff_getElem.mp hGroup
  have hEntry : (group, groupIndex) ∈ (groupsOf records view index).zipIdx := by
    rw [List.mk_mem_zipIdx_iff_getElem?, List.getElem?_eq_getElem hLt, hAt]
  obtain ⟨front, back, hOuter⟩ := flatMap_split hEntry fun entry =>
    programRows records index entry.1.1 (depth + 1) entry.2 ++
      entry.1.2.flatMap fun child => emit records view fuel child (depth + 1) (some (identityOf records index))
  obtain ⟨front', back', hInner⟩ := flatMap_split hChild fun child =>
    emit records view fuel child (depth + 1) (some (identityOf records index))
  refine ⟨front ++ (programRows records index group.1 (depth + 1) groupIndex ++ front'), back' ++ back, ?_⟩
  rw [groupRows, hOuter]
  dsimp only
  rw [hInner]
  simp only [List.append_assoc]

theorem emit_under (hExpanded : ∀ identity, view.expanded identity) {index parent : Nat}
    (hNext : rowParent records view.scope index = some parent) (fuel : Nat) :
    ∀ {steps root depth : Nat} {parentIdentity : Option String}, steps < fuel →
      iter (rowParent records view.scope) steps parent = some root →
      Under (emit records view (fuel + 1) root depth parentIdentity) (identityOf records parent) (identityOf records index) := by
  induction fuel with
  | zero => exact fun {steps root depth parentIdentity} hLt => absurd hLt (Nat.not_lt_zero steps)
  | succ fuel ih =>
    intro steps root depth parentIdentity hLt hWalk
    have hStep {child : Nat} (hChild : rowParent records view.scope child = some root) :
        ∃ before after, emit records view (fuel + 2) root depth parentIdentity =
          agentsRow records view root depth parentIdentity :: before ++
            emit records view (fuel + 1) child (depth + 1) (some (identityOf records root)) ++ after ∧
          ∀ row ∈ before, depth < row.depth := by
      have hKid := ((shownKids_kids records view).mem root child).mpr hChild
      obtain ⟨before, after, hRows⟩ := child_rows records view (fuel + 1) depth hKid
      have hSome : rowChildren records view.scope root ≠ [] := fun hNone =>
        absurd (((rowChildren_kids records view.scope).mem root child).mpr hChild) (by rw [hNone]; exact List.not_mem_nil)
      refine ⟨mergedSummaryRow records view root (depth + 1) true :: before, after, ?_, ?_⟩
      · rw [emit_succ hExpanded, if_neg hSome, hRows]
        simp only [List.cons_append, List.append_assoc]
      · intro row hRow
        obtain rfl | hRow := List.mem_cons.mp hRow
        · exact Nat.lt_succ_self depth
        · exact groupRows_depth hExpanded row (hRows ▸ List.mem_append_left _ (List.mem_append_left _ hRow))
    cases steps with
    | zero =>
      cases hWalk
      obtain ⟨before, after, hRows, hDeeper⟩ := hStep hNext
      rw [emit_succ hExpanded fuel index, List.append_assoc] at hRows
      exact ⟨[], _, before, _, _, hRows, isSession_agentsRow .., rfl, isSession_agentsRow .., rfl, rfl, rfl, hDeeper⟩
    | succ steps =>
      rw [iter_succ, Option.bind_eq_some_iff] at hWalk
      obtain ⟨child, hWalk, hChild⟩ := hWalk
      obtain ⟨before, after, hRows, -⟩ := hStep hChild
      rw [hRows]
      exact (ih (Nat.lt_of_succ_lt_succ hLt) hWalk).within _ _

end

end PrimeAgent.AgentsForest
