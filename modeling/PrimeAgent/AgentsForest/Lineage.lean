import PrimeAgent.Lib.ParentWalk
import PrimeAgent.Types.Json

/-! # Unified session records

The records of the agents view, the summary a row shows of one, and the keys by which a record names its
parent and is named as one.
-/
namespace PrimeAgent.AgentsForest

/-- The `Section` of a record. -/
inductive RowSection where
  | running | idle | inactive
deriving DecidableEq

structure UnifiedRecord where
  daemon : Option JsonMap
  saved : Option Json
  identity : String
  aliases : List String
  rowSection : RowSection

structure AgentsViewScope where
  session_id : Option String
  active_session_id : Option String
deriving DecidableEq

def strAt (field : String) (value : Json) : Option String :=
  (value.get field).bind Json.asStr

def getStr (field : String) (value : Json) : Option String :=
  (strAt field value).filter (· ≠ "")

def u64At (field : String) (value : Json) : Option Nat :=
  (value.get field).bind Json.asU64

/-! ### Summaries -/

def enrich (field : String) (source : Option Json) (merged : JsonMap) : JsonMap :=
  if (merged.lookup field).all (· = .null) then
    match source with
    | some value => if value = .null then merged else JsonMap.set field value merged
    | none => merged
  else merged

def jsonModel (model : Json) : Json :=
  .object [("id", (model.get "modelId").getD .null), ("provider", (model.get "provider").getD .null)]

def enrichModel (model : Option Json) (merged : JsonMap) : JsonMap :=
  if (merged.lookup "model").all (· = .null) then
    match model with
    | some model => JsonMap.set "model" (jsonModel model) merged
    | none => merged
  else merged

def mergedSummary (daemon : JsonMap) (saved : Json) : JsonMap :=
  let named := enrich "sessionName" (saved.get "name") daemon
  let filled := ["firstMessage", "usage", "sessionFile", "parentSessionPath", "created", "modified"].foldl
    (fun merged field => enrich field (saved.get field) merged) named
  let active := enrich "lastActivityAt" (saved.get "modified") filled
  enrich "thinkingLevel" (saved.get "thinkingLevel") (enrichModel (saved.get "model") active)

def savedSummary (saved : Json) : JsonMap :=
  let field (key : String) := (saved.get key).getD .null
  let text (key : String) := Json.string ((getStr key saved).getD "")
  let depth := (u64At "rlmDepth" saved).getD (if (saved.get "parentSessionPath").isSome then 1 else 0)
  [("id", text "id"), ("sessionId", text "id"), ("lifecycle", .string "archived"), ("activity", .string "idle"),
    ("isSessionActive", .bool false), ("runtimeKind", .string (if depth > 0 then "subagent" else "top-level")),
    ("cwd", field "cwd"), ("sessionFile", field "path"), ("parentSessionPath", field "parentSessionPath"),
    ("rlmDepth", field "rlmDepth"), ("sessionName", field "name"), ("isStreaming", .bool false),
    ("isCompacting", .bool false), ("attachedClients", .number (.posInt 0)), ("messageCount", field "messageCount"),
    ("created", text "created"), ("modified", text "modified"), ("lastActivityAt", text "modified"),
    ("firstMessage", field "firstMessage"), ("model", jsonModel (field "model"))] ++
  (if field "thinkingLevel" = .null then [] else [("thinkingLevel", field "thinkingLevel")])

def summaryForRecord (record : UnifiedRecord) : Json :=
  match record.daemon, record.saved with
  | some daemon, some saved => .object (mergedSummary daemon saved)
  | some daemon, none => .object daemon
  | none, saved => .object (savedSummary (saved.getD .null))

def isSubagentSummary (summary : Json) : Bool :=
  match strAt "runtimeKind" summary with
  | some kind => kind == "subagent"
  | none => ["rlmChildId", "rlmParentNodeId", "parentActiveSessionId", "parentSessionId", "parentSessionPath"].any
      fun field => (getStr field summary).isSome

/-! ### Keys -/

def keysFor (fields : List (String × String)) (summary : Json) : List String :=
  fields.filterMap fun (label, field) => (getStr field summary).map (label ++ ·)

def summaryParentKeys (summary : Json) : List String :=
  keysFor [("active:", "parentActiveSessionId"), ("session:", "parentSessionId"), ("file:", "parentSessionPath")] summary

def summaryIdentityKeys (summary : Json) : List String :=
  keysFor [("active:", "activeSessionId"), ("session:", "sessionId"), ("file:", "sessionFile")] summary

def ownerOf (keysOf : UnifiedRecord → List String) (records : List UnifiedRecord) (key : String) : Option Nat :=
  (List.range records.length).reverse.find? fun index => (records[index]?.map keysOf).any fun keys => keys.contains key

variable {keysOf : UnifiedRecord → List String} {records : List UnifiedRecord}

theorem ownerOf_lt {key : String} {index : Nat} (hOwner : ownerOf keysOf records key = some index) :
    index < records.length := by
  have hMem := List.mem_of_find?_eq_some hOwner
  simpa using hMem

def resolve (keysOf : UnifiedRecord → List String) (records : List UnifiedRecord) (keys : List String) (index : Nat) :
    Option Nat :=
  (keys.findSome? (ownerOf keysOf records)).filter (· ≠ index)

theorem resolve_lt {keys : List String} {index parent : Nat}
    (hResolve : resolve keysOf records keys index = some parent) : parent < records.length := by
  obtain ⟨hFound, -⟩ := Option.filter_eq_some_iff.mp hResolve
  obtain ⟨key, -, hOwner⟩ := List.exists_of_findSome?_eq_some hFound
  exact ownerOf_lt hOwner

def parentRecordFile (parent : UnifiedRecord) : Option String :=
  (parent.daemon.bind fun daemon => strAt "sessionFile" (.object daemon)).or (parent.saved.bind (strAt "path"))

def recordDepth (record : UnifiedRecord) : Option Nat :=
  (record.daemon.bind fun daemon => u64At "rlmDepth" (.object daemon)).or (record.saved.bind (u64At "rlmDepth"))

def depthConsistentParent (daemon : Json) (parent : UnifiedRecord) : Bool :=
  match (u64At "rlmDepth" daemon).filter (0 < ·), getStr "parentSessionPath" daemon with
  | some depth, some path => parentRecordFile parent = some path ∧ recordDepth parent = some (depth - 1)
  | _, _ => false

def isSubagentDescendant (child parent : UnifiedRecord) : Bool :=
  match child.daemon with
  | some daemon => isSubagentSummary (.object daemon) || depthConsistentParent (.object daemon) parent
  | none => decide ((recordDepth parent).getD 0 < (child.saved.bind (u64At "rlmDepth")).getD 0)

end PrimeAgent.AgentsForest

/-! ## Lineage

`find_parent_index`, `compute_rollups` and `scope_root_index`. Costs are exact: `asCost` reads a number
as an element of a commutative monoid.
-/
namespace PrimeAgent.AgentsForest

open ParentWalk ParentForest

def parentReferences (record : UnifiedRecord) : List String :=
  ((record.daemon.map fun daemon => summaryParentKeys (.object daemon)).getD []) ++
    ((record.saved.bind (getStr "parentSessionPath")).map ("file:" ++ ·)).toList

def findParentIndex (records : List UnifiedRecord) (index : Nat) : Option Nat :=
  records[index]?.bind fun record => resolve UnifiedRecord.aliases records (parentReferences record) index

def childrenByParent (records : List UnifiedRecord) (parent : Nat) : List Nat :=
  (List.range records.length).filter fun index => findParentIndex records index = some parent

def rollsUp (records : List UnifiedRecord) (child parent : Nat) : Bool :=
  match records[child]?, records[parent]? with
  | some child, some parent => isSubagentDescendant child parent
  | _, _ => false

structure Rollup (M : Type*) where
  cost : M
  descendants : M
  descendantCount : Nat

section

variable {M : Type*} [AddCommMonoid M] (asCost : Json → Option M) (records : List UnifiedRecord)

def usageCost (value : Json) : Option M :=
  ((value.get "usage").bind (Json.get "cost")).bind asCost

def deletedDescendants (record : UnifiedRecord) : M :=
  (((record.saved.bind (Json.get "deletedDescendantUsage")).bind (Json.get "cost")).bind asCost).getD 0

def ownCost (record : UnifiedRecord) : M :=
  ((record.daemon.bind fun daemon => usageCost asCost (.object daemon)).or
    (record.saved.bind (usageCost asCost))).getD 0 + deletedDescendants asCost record

def rollingChildren (parent : Nat) : List Nat :=
  (childrenByParent records parent).filter fun child => rollsUp records child parent

def costAt (index : Nat) : M :=
  (records[index]?.map (ownCost asCost)).getD 0

def rollup (parent : Nat) (rollups : Nat → Rollup M) : Rollup M :=
  let deleted := (records[parent]?.map (deletedDescendants asCost)).getD 0
  (rollingChildren records parent).foldl
    (fun sum child =>
      { cost := sum.cost + (rollups child).cost
        descendants := sum.descendants + (rollups child).cost
        descendantCount := sum.descendantCount + (1 + (rollups child).descendantCount) })
    ⟨costAt asCost records parent, deleted, 0⟩

def sweepOrder : List Nat :=
  sweep (childrenByParent records) records.length
    ((List.range records.length).filter fun index => (findParentIndex records index).isNone)

def rollupTable : Nat → Rollup M :=
  tabulate (rollup asCost records) (fun _ => ⟨0, 0, 0⟩) (sweepOrder records)

def computeRollups : List (String × Rollup M) :=
  records.mapIdx fun index record => (record.identity, rollupTable asCost records index)

end

def scopeRootIndex (records : List UnifiedRecord) (scope : AgentsViewScope) : Option Nat :=
  (scope.active_session_id.bind fun active =>
      records.findIdx? fun record => strAt "activeSessionId" (summaryForRecord record) == some active).or
    (scope.session_id.bind fun session =>
      records.findIdx? fun record => strAt "sessionId" (summaryForRecord record) == some session)

/-! ### What the rollups are -/

theorem findParentIndex_lt {records : List UnifiedRecord} {index parent : Nat}
    (hParent : findParentIndex records index = some parent) : index < records.length := by
  obtain ⟨record, hRecord, -⟩ := Option.bind_eq_some_iff.mp hParent
  exact (List.getElem?_eq_some_iff.mp hRecord).1

theorem childrenByParent_kids (records : List UnifiedRecord) :
    Kids (findParentIndex records) (childrenByParent records) := by
  refine ⟨fun parent child => ?_, fun parent => List.nodup_range.filter _⟩
  simp only [childrenByParent, List.mem_filter, List.mem_range, decide_eq_true_eq]
  exact ⟨And.right, fun hParent => ⟨findParentIndex_lt hParent, hParent⟩⟩

def rollupParent (records : List UnifiedRecord) (index : Nat) : Option Nat :=
  (findParentIndex records index).filter fun parent => rollsUp records index parent

theorem rollingChildren_kids (records : List UnifiedRecord) :
    Kids (rollupParent records) (rollingChildren records) := by
  refine ⟨fun parent child => ?_, fun parent => ((childrenByParent_kids records).nodup parent).filter _⟩
  rw [rollingChildren, List.mem_filter, (childrenByParent_kids records).mem, rollupParent, Option.filter_eq_some_iff]

def subagents (records : List UnifiedRecord) (index : Nat) : List Nat :=
  (rollingChildren records index).flatMap (listing (rollingChildren records) records.length)

def AcyclicParents (records : List UnifiedRecord) : Prop :=
  ∀ index, Grounded (findParentIndex records) index

/-- A record's rollup is its own cost and that of all subagents below it, each counted once. -/
structure RollupHolds {M : Type*} [AddCommMonoid M] (asCost : Json → Option M) (records : List UnifiedRecord)
    (index : Nat) (record : UnifiedRecord) : Prop where
  entry : (computeRollups asCost records)[index]? = some (record.identity, rollupTable asCost records index)
  nodup : (subagents records index).Nodup
  members : ∀ other, other ∈ subagents records index ↔
    ∃ steps, 0 < steps ∧ iter (rollupParent records) steps other = some index
  cost : (rollupTable asCost records index).cost =
    costAt asCost records index + ((subagents records index).map (costAt asCost records)).sum
  count : (rollupTable asCost records index).descendantCount = (subagents records index).length

section

variable {M : Type*} [AddCommMonoid M] {asCost : Json → Option M} {records : List UnifiedRecord}

theorem rollup_adds (parent : Nat) (rollups : Nat → Rollup M) :
    (rollup asCost records parent rollups).cost =
        costAt asCost records parent + ((rollingChildren records parent).map fun child => (rollups child).cost).sum ∧
      (rollup asCost records parent rollups).descendantCount =
        ((rollingChildren records parent).map fun child => 1 + (rollups child).descendantCount).sum := by
  have hFold (children : List Nat) (start : Rollup M) :
      let total := children.foldl (fun sum child =>
        { cost := sum.cost + (rollups child).cost
          descendants := sum.descendants + (rollups child).cost
          descendantCount := sum.descendantCount + (1 + (rollups child).descendantCount) : Rollup M }) start
      total.cost = start.cost + (children.map fun child => (rollups child).cost).sum ∧
        total.descendantCount = start.descendantCount + (children.map fun child => 1 + (rollups child).descendantCount).sum := by
    induction children generalizing start with
    | nil => simp
    | cons child children ih =>
      simp only [List.foldl_cons, List.map_cons, List.sum_cons, ih]
      exact ⟨add_assoc _ _ _, Nat.add_assoc _ _ _⟩
  have hTotal := hFold (rollingChildren records parent)
    ⟨costAt asCost records parent, (records[parent]?.map (deletedDescendants asCost)).getD 0, 0⟩
  rw [Nat.zero_add] at hTotal
  exact hTotal

theorem rollup_local (parent : Nat) (f g : Nat → Rollup M) (hSame : ∀ child ∈ childrenByParent records parent, f child = g child) :
    rollup asCost records parent f = rollup asCost records parent g := by
  rw [rollup, rollup]
  refine List.foldl_ext _ _ _ fun sum child hChild => ?_
  rw [hSame child (List.mem_of_mem_filter hChild)]

theorem sweepOrder_spec (hAcyclic : AcyclicParents records) :
    (sweepOrder records).Nodup ∧ KidsAfter (childrenByParent records) (sweepOrder records) ∧
      ∀ index, index < records.length → index ∈ sweepOrder records := by
  have hKids := childrenByParent_kids records
  have hAll : ∀ child parent, findParentIndex records child = some parent → child ∈ List.range records.length :=
    fun child parent hParent => List.mem_range.mpr (findParentIndex_lt hParent)
  have hStart : Sweeping (findParentIndex records) (List.range records.length) []
      ((List.range records.length).filter fun index => (findParentIndex records index).isNone) := by
    refine ⟨?_, ?_, ?_⟩
    · exact List.nodup_range.filter _
    · exact List.filter_subset_self _
    · exact fun index hMem => .inl (Option.isNone_iff_eq_none.mp (List.mem_filter.mp hMem).2)
  obtain ⟨hNodup, hRoots, hAfter, -⟩ := sweep_spec hKids hAll records.length hStart (by simp)
  refine ⟨hNodup, hAfter, fun index hIndex => ?_⟩
  refine @mem_of_grounded _ _ _ hKids _ (fun other => other < records.length) ?_ ?_ hAfter _ hIndex (hAcyclic index)
  · exact fun root hRoot hNone => hRoots (List.mem_filter.mpr ⟨List.mem_range.mpr hRoot, by simp [hNone]⟩)
  · exact fun child parent hParent => (Option.bind_eq_some_iff.mp hParent).elim fun _ h => resolve_lt h.2

theorem rollups_hold (hAcyclic : AcyclicParents records) {index : Nat} {record : UnifiedRecord}
    (hRecord : records[index]? = some record) : RollupHolds asCost records index record := by
  obtain ⟨hNodup, hAfter, hComplete⟩ := sweepOrder_spec hAcyclic
  have hKids := rollingChildren_kids records
  have hSub : ∀ child parent, rollupParent records child = some parent → findParentIndex records child = some parent :=
    fun child parent hParent => (Option.filter_eq_some_iff.mp hParent).1
  have hGrounded (index : Nat) : Grounded (rollupParent records) index := (hAcyclic index).mono hSub
  have hSteps : ∀ other steps, iter (rollupParent records) steps other = some index → steps < records.length + 1 := by
    intro other steps hWalk
    have hAll : ∀ child parent, rollupParent records child = some parent → child ∈ List.range records.length :=
      fun child parent hParent => List.mem_range.mpr (findParentIndex_lt (hSub child parent hParent))
    have hLe := steps_le hAll (hGrounded index) hWalk
    rw [List.length_range] at hLe
    exact Nat.lt_succ_of_le hLe
  have hTable : ∀ index, index < records.length →
      rollupTable asCost records index = rollup asCost records index (rollupTable asCost records) :=
    fun index hIndex => tabulate_eq rollup_local hNodup hAfter index (hComplete index hIndex)
  have hDom : ∀ parent child, parent < records.length → child ∈ rollingChildren records parent → child < records.length :=
    fun parent child _ hChild => findParentIndex_lt (hSub child parent ((hKids.mem parent child).mp hChild))
  have hIndex : index < records.length := (List.getElem?_eq_some_iff.mp hRecord).1
  have hListing : listing (rollingChildren records) (records.length + 1) index = index :: subagents records index := rfl
  refine ⟨?_, ?_, ?_, ?_, ?_⟩
  · simp [computeRollups, hRecord]
  · have hNodupBelow := nodup_listing hKids (records.length + 1) (hGrounded index)
    rw [hListing] at hNodupBelow
    exact (List.nodup_cons.mp hNodupBelow).2
  · intro other
    have hMem : other ∈ listing (rollingChildren records) (records.length + 1) index ↔
        ∃ steps, steps < records.length + 1 ∧ iter (rollupParent records) steps other = some index := mem_listing hKids
    have hSelf := (List.nodup_cons.mp (hListing ▸ nodup_listing hKids (records.length + 1) (hGrounded index))).1
    rw [hListing, List.mem_cons] at hMem
    constructor
    · intro hOther
      obtain ⟨steps, -, hWalk⟩ := hMem.mp (.inr hOther)
      refine ⟨steps, Nat.pos_of_ne_zero ?_, hWalk⟩
      rintro rfl
      cases hWalk
      exact hSelf hOther
    · rintro ⟨steps, hPos, hWalk⟩
      obtain rfl | hOther := hMem.mpr ⟨steps, hSteps other steps hWalk, hWalk⟩
      · exact absurd ((hGrounded other).no_cycle hWalk) (Nat.ne_of_gt hPos)
      · exact hOther
  · have hSum := @value_eq_sum _ _ _ _ _ hKids (costAt asCost records)
      (fun index => (rollupTable asCost records index).cost) _ hDom
      (fun parent hParent => by rw [hTable parent hParent]; exact (rollup_adds parent _).1) (records.length + 1) _ hIndex hSteps
    rw [hListing, List.map_cons, List.sum_cons] at hSum
    exact hSum
  · have hSum := @value_eq_sum _ _ _ _ _ hKids (fun _ => 1)
      (fun index => 1 + (rollupTable asCost records index).descendantCount) _ hDom
      (fun parent hParent => by rw [hTable parent hParent, (rollup_adds parent _).2]) (records.length + 1) _ hIndex hSteps
    rw [hListing, List.map_cons, List.sum_cons] at hSum
    simpa using hSum

end

end PrimeAgent.AgentsForest
