import PrimeAgent.Lib.HashMap
import PrimeAgent.Lib.PostOrder
import PrimeAgent.RlmLedger.Ledger
import Mathlib.Algebra.Order.Field.Power
import Mathlib.Tactic.Positivity

/-! # What deleted descendants have used

The first tombstoned edge of a path claims it for its parent, and the usage of the claimed paths is folded up to the
parents. Costs are exact numbers here.
-/
namespace PrimeAgent.RlmLedger

open SessionStore (SessionUsageSummary)

/-- A `u64`, whose addition saturates. -/
@[ext] structure U64 where
  value : Nat
  bounded : value ≤ 2 ^ 64 - 1
deriving DecidableEq

def U64.ofNat (n : Nat) : U64 :=
  ⟨min n (2 ^ 64 - 1), Nat.min_le_right _ _⟩

instance : Zero U64 := ⟨⟨0, Nat.zero_le _⟩⟩

instance : Add U64 := ⟨fun a b => .ofNat (a.value + b.value)⟩

theorem U64.value_add (a b : U64) : (a + b).value = min (a.value + b.value) (2 ^ 64 - 1) := rfl

theorem U64.value_zero : (0 : U64).value = 0 := rfl

instance : AddCommMonoid U64 where
  add_assoc a b c := by
    ext
    simp only [U64.value_add]
    omega
  zero_add a := by
    have hBounded := a.bounded
    ext
    rw [U64.value_add, U64.value_zero]
    omega
  add_zero a := by
    have hBounded := a.bounded
    ext
    rw [U64.value_add, U64.value_zero]
    omega
  add_comm a b := by
    ext
    rw [U64.value_add, U64.value_add, Nat.add_comm]
  nsmul := nsmulRec

def magnitude (x : F64) : ℚ :=
  let significand : ℚ := (x.bits.toNat % 2 ^ 52 : Nat)
  if exponentBits x = 0 then significand * 2 ^ (-1074 : ℤ)
  else (2 ^ 52 + significand) * 2 ^ ((exponentBits x : ℤ) - 1075)

def exactCost (x : F64) : ℚ :=
  if isSignNegative x then -magnitude x else magnitude x

@[ext] structure ExactUsage where
  inputTokens : U64
  outputTokens : U64
  cost : ℚ
deriving DecidableEq

instance : Zero ExactUsage := ⟨⟨0, 0, 0⟩⟩

instance : Add ExactUsage := ⟨fun left right =>
  ⟨left.inputTokens + right.inputTokens, left.outputTokens + right.outputTokens, left.cost + right.cost⟩⟩

instance : AddCommMonoid ExactUsage where
  add_assoc a b c := ExactUsage.ext (add_assoc _ _ _) (add_assoc _ _ _) (add_assoc _ _ _)
  zero_add a := ExactUsage.ext (zero_add _) (zero_add _) (zero_add _)
  add_zero a := ExactUsage.ext (add_zero _) (add_zero _) (add_zero _)
  add_comm a b := ExactUsage.ext (add_comm _ _) (add_comm _ _) (add_comm _ _)
  nsmul := nsmulRec

def exactUsage (usage : SessionUsageSummary) : ExactUsage :=
  ⟨.ofNat usage.inputTokens, .ofNat usage.outputTokens, exactCost usage.cost⟩

structure Transcripts (canonicalSessionPath : String → String) where
  isFile : String → Bool
  readOwnUsageSummary : String → Option SessionUsageSummary
  gone : ∀ path, isFile path = false → readOwnUsageSummary (canonicalSessionPath path) = none

structure Claims where
  childrenByParent : HashMap String (List String)
  snapshotByPath : HashMap String (Option SessionUsageSummary)

def Claims.empty : Claims :=
  ⟨∅, ∅⟩

def Claims.children (claims : Claims) (parent : String) : List String :=
  (claims.childrenByParent.lookup parent).getD []

section Definitions

variable (canonicalSessionPath : String → String) (disk : Transcripts canonicalSessionPath)

def livePaths (edges : List RlmLedgerEdge) : List String :=
  (edges.filter (·.deleted = none)).map (canonicalSessionPath ·.child)

def Claims.edge (live : List String) (claims : Claims) (edge : RlmLedgerEdge) : Claims :=
  if edge.deleted = none then claims
  else
    let child := canonicalSessionPath edge.child
    if child ∈ live ∨ (claims.snapshotByPath.lookup child).isSome then claims
    else if disk.isFile edge.child then claims
    else
      let parent := canonicalSessionPath edge.parent
      { snapshotByPath := claims.snapshotByPath.insert child edge.deletedUsage
        childrenByParent := claims.childrenByParent.insert parent (claims.children parent ++ [child]) }

def claimsOf (edges : List RlmLedgerEdge) : Claims :=
  edges.foldl (Claims.edge canonicalSessionPath disk (livePaths canonicalSessionPath edges)) .empty

def tombstoneUsage (claims : Claims) (path : String) : ExactUsage :=
  match (claims.snapshotByPath.lookup path).join with
  | some snapshot => exactUsage snapshot
  | none => ((disk.readOwnUsageSummary path).map exactUsage).getD 0

def Billable (total : ExactUsage) : Prop :=
  0 < total.inputTokens.value ∨ 0 < total.outputTokens.value ∨ 0 < total.cost

instance (total : ExactUsage) : Decidable (Billable total) :=
  inferInstanceAs (Decidable (_ ∨ _ ∨ _))

def putTotal (contribution : KeyMap String ExactUsage) (bucket : HashMap String ExactUsage)
    (entry : String × List String) :
    HashMap String ExactUsage :=
  let total := PostOrder.addFolded contribution 0 entry.2
  if Billable total then bucket.insert entry.1 total else bucket

def bucketOf (contribution : KeyMap String ExactUsage) (entries : List (String × List String)) :
    HashMap String ExactUsage :=
  entries.foldl (putTotal contribution) ∅

def deletedDescendantUsageByParent (order : IterationOrder) (edges : List RlmLedgerEdge) :
    Option (HashMap String ExactUsage) :=
  let claims := claimsOf canonicalSessionPath disk edges
  let roots := (HashMap.values order claims.childrenByParent).flatten
  let fuel := 2 * claims.snapshotByPath.keys.length + 1
  (PostOrder.walkAll claims.children (tombstoneUsage canonicalSessionPath disk claims) fuel roots .start).map
    fun walk =>
    bucketOf walk.contribution (HashMap.walk order claims.childrenByParent)

def billed (bucket : HashMap String ExactUsage) (parent : String) : ExactUsage :=
  (bucket.lookup parent).getD 0

def claimedChildren (edges : List RlmLedgerEdge) (parent : String) : List String :=
  (claimsOf canonicalSessionPath disk edges).children parent

def ownUsage (edges : List RlmLedgerEdge) (path : String) : ExactUsage :=
  tombstoneUsage canonicalSessionPath disk (claimsOf canonicalSessionPath disk edges) path

def Gone (edges : List RlmLedgerEdge) (path : String) : Prop :=
  path ∉ livePaths canonicalSessionPath edges ∧
    ∃ edge ∈ edges, edge.deleted ≠ none ∧ canonicalSessionPath edge.child = path ∧ disk.isFile edge.child = false

def AcyclicEdges (edges : List RlmLedgerEdge) : Prop :=
  ∀ path, ¬ Relation.TransGen (fun parent child => ∃ edge ∈ edges, edge.deleted ≠ none ∧
    canonicalSessionPath edge.parent = parent ∧ canonicalSessionPath edge.child = child) path path

/-- The edge that claims a path: the first that is tombstoned and has no transcript, unless a live edge has the path. -/
def claimant (live : List String) (edges : List RlmLedgerEdge) (path : String) : Option RlmLedgerEdge :=
  if path ∈ live then none
  else edges.find? fun edge => edge.deleted ≠ none ∧ disk.isFile edge.child = false ∧
    canonicalSessionPath edge.child = path

end Definitions

section Claims

variable {canonicalSessionPath : String → String} {disk : Transcripts canonicalSessionPath} {live : List String}
  {edges : List RlmLedgerEdge} {claims : Claims} {path : String}

/-- The claims after the edges: every claimed path has its snapshot and stands with its one parent. -/
structure Claimed (disk : Transcripts canonicalSessionPath) (live : List String) (edges : List RlmLedgerEdge)
    (claims : Claims) :
    Prop where
  snapshots : ∀ path, claims.snapshotByPath.lookup path =
    (claimant canonicalSessionPath disk live edges path).map (·.deletedUsage)
  counts : ∀ parent path, (claims.children parent).count path =
    if (claimant canonicalSessionPath disk live edges path).map (canonicalSessionPath ·.parent) = some parent
      then 1 else 0

theorem claimant_concat (edge : RlmLedgerEdge) (path : String) :
    claimant canonicalSessionPath disk live (edges ++ [edge]) path =
      (claimant canonicalSessionPath disk live edges path).or
        (claimant canonicalSessionPath disk live [edge] path) := by
  rw [claimant, claimant, claimant]
  split
  · rfl
  · exact List.find?_append

theorem claimant_single (edge : RlmLedgerEdge) (path : String) : claimant canonicalSessionPath disk live [edge] path =
    if path ∉ live ∧ edge.deleted ≠ none ∧ disk.isFile edge.child = false ∧
      canonicalSessionPath edge.child = path then some edge
    else none := by
  rw [claimant, List.find?_singleton]
  simp only [decide_eq_true_eq]
  split_ifs <;> grind

theorem children_insert (snapshots : HashMap String (Option SessionUsageSummary)) (parent child other : String) :
    Claims.children ⟨claims.childrenByParent.insert parent (claims.children parent ++ [child]), snapshots⟩ other =
      if other = parent then claims.children parent ++ [child] else claims.children other := by
  rw [Claims.children]
  split
  next hSame =>
    subst hSame
    rw [AList.lookup_insert]
    rfl
  next hOther =>
    rw [AList.lookup_insert_ne hOther]
    rfl

theorem Claimed.edge (hClaimed : Claimed disk live edges claims) (edge : RlmLedgerEdge) :
    Claimed disk live (edges ++ [edge]) (claims.edge canonicalSessionPath disk live edge) := by
  have hSnapshot := hClaimed.snapshots (canonicalSessionPath edge.child)
  -- The edge changes nothing where it is live, where its path is taken, or where the transcript is there.
  have hKeep : (∀ path, (claimant canonicalSessionPath disk live edges path).or
      (claimant canonicalSessionPath disk live [edge] path) = claimant canonicalSessionPath disk live edges path) →
      Claimed disk live (edges ++ [edge]) claims := fun hSame =>
    ⟨fun path => by rw [claimant_concat, hSame, hClaimed.snapshots],
      fun parent path => by rw [claimant_concat, hSame, hClaimed.counts]⟩
  rw [Claims.edge]
  split
  next hLive =>
    exact hKeep fun path => by rw [claimant_single, if_neg (fun h => h.2.1 hLive), Option.or_none]
  next hDeleted =>
    dsimp only
    split
    next hTaken =>
      refine hKeep fun path => ?_
      rw [claimant_single]
      split
      next hClaims =>
        obtain ⟨hOut, -, -, rfl⟩ := hClaims
        have hSome := hTaken.resolve_left hOut
        rw [hSnapshot, Option.isSome_map] at hSome
        exact Option.or_of_isSome hSome
      next => exact Option.or_none
    next hFree =>
      split
      next hFile =>
        exact hKeep fun path => by rw [claimant_single, if_neg (fun h => by rw [hFile] at h; cases h.2.2.1),
          Option.or_none]
      next hFile =>
        obtain ⟨hOut, hNone⟩ := not_or.mp hFree
        have hUnclaimed : claimant canonicalSessionPath disk live edges (canonicalSessionPath edge.child) = none := by
          rw [hSnapshot, Option.isSome_map] at hNone
          exact Option.not_isSome_iff_eq_none.mp hNone
        have hHere : claimant canonicalSessionPath disk live [edge] (canonicalSessionPath edge.child) = some edge := by
          rw [claimant_single, if_pos ⟨hOut, hDeleted, Bool.not_eq_true _ ▸ hFile, rfl⟩]
        have hElse : ∀ path, path ≠ canonicalSessionPath edge.child →
            claimant canonicalSessionPath disk live [edge] path = none := fun path hOther => by
          rw [claimant_single, if_neg fun h => hOther h.2.2.2.symm]
        constructor
        · intro path
          rw [claimant_concat]
          by_cases hPath : path = canonicalSessionPath edge.child
          · rw [hPath, AList.lookup_insert, hUnclaimed, hHere]
            rfl
          · rw [AList.lookup_insert_ne hPath, hElse path hPath, Option.or_none, hClaimed.snapshots]
        · intro parent path
          rw [claimant_concat, children_insert]
          by_cases hPath : path = canonicalSessionPath edge.child
          · have hZero := hClaimed.counts parent path
            rw [hPath] at hZero ⊢
            rw [hUnclaimed] at hZero
            rw [hUnclaimed, hHere]
            split
            next hParent =>
              rw [hParent] at hZero ⊢
              rw [List.count_append, hZero, List.count_singleton_self]
              exact (if_pos rfl).symm
            next hParent =>
              rw [hZero]
              exact (if_neg fun hSame => hParent (Option.some.inj hSame).symm).symm
          · rw [hElse path hPath, Option.or_none, ← hClaimed.counts]
            split
            next hParent =>
              rw [hParent, List.count_append, List.count_singleton, if_neg (by simpa using Ne.symm hPath), Nat.add_zero]
            next => rfl

theorem claimed_claimsOf (edges : List RlmLedgerEdge) : Claimed disk (livePaths canonicalSessionPath edges) edges
    (claimsOf canonicalSessionPath disk edges) := by
  rw [claimsOf]
  generalize livePaths canonicalSessionPath edges = live
  induction edges using List.reverseRecOn with
  | nil =>
    refine ⟨fun path => ?_, fun parent path => ?_⟩
    · rw [claimant]
      split <;> rfl
    · rw [claimant]
      split <;> rfl
  | append_singleton edges edge ih =>
    rw [List.foldl_append]
    exact ih.edge edge

theorem Claimed.forest (hClaimed : Claimed disk live edges claims) : PostOrder.Forest claims.children where
  once parent := by
    refine List.nodup_iff_count_le_one.mpr fun path => ?_
    rw [hClaimed.counts]
    split
    · exact le_rfl
    · exact Nat.zero_le _
  alone first second child hFirst hSecond := by
    have hParent : ∀ parent, child ∈ claims.children parent →
        (claimant canonicalSessionPath disk live edges child).map (canonicalSessionPath ·.parent) = some parent := by
      intro parent hMem
      have hPos := List.count_pos_iff.mpr hMem
      rw [hClaimed.counts] at hPos
      split at hPos
      next hSame => exact hSame
      next => cases hPos
    exact Option.some.inj ((hParent first hFirst).symm.trans (hParent second hSecond))

theorem Claimed.child (hClaimed : Claimed disk live edges claims) {parent child : String}
    (hMem : child ∈ claims.children parent) :
    ∃ edge, claimant canonicalSessionPath disk live edges child = some edge ∧
      canonicalSessionPath edge.parent = parent := by
  have hPos := List.count_pos_iff.mpr hMem
  rw [hClaimed.counts] at hPos
  split at hPos
  next hSame => exact Option.map_eq_some_iff.mp hSame
  next => cases hPos

theorem claimant_some {edge : RlmLedgerEdge}
    (hClaimant : claimant canonicalSessionPath disk live edges path = some edge) :
    edge ∈ edges ∧ edge.deleted ≠ none ∧ disk.isFile edge.child = false ∧ canonicalSessionPath edge.child = path := by
  rw [claimant] at hClaimant
  split at hClaimant
  next => cases hClaimant
  next => exact ⟨List.mem_of_find?_eq_some hClaimant, of_decide_eq_true (List.find?_some hClaimant :)⟩

theorem Claimed.acyclic (hClaimed : Claimed disk live edges claims)
    (hAcyclic : AcyclicEdges canonicalSessionPath edges) :
    PostOrder.Acyclic claims.children := by
  intro path hCycle
  refine hAcyclic path (Relation.TransGen.mono (fun parent child hMem => ?_) path path hCycle)
  obtain ⟨edge, hClaimant, hParent⟩ := hClaimed.child hMem
  obtain ⟨hEdge, hDeleted, -, hChild⟩ := claimant_some hClaimant
  exact ⟨edge, hEdge, hDeleted, hParent, hChild⟩

theorem gone_once (hGone : Gone canonicalSessionPath disk edges path) : ∃ parent, ∀ other,
    ((claimsOf canonicalSessionPath disk edges).children other).count path = if other = parent then 1 else 0 := by
  obtain ⟨hLive, edge, hEdge, hDeleted, hChild, hFile⟩ := hGone
  obtain ⟨first, hFirst⟩ : ∃ first, claimant canonicalSessionPath disk (livePaths canonicalSessionPath edges)
    edges path =
      some first := by
    rw [claimant, if_neg hLive, ← Option.isSome_iff_exists, List.find?_isSome]
    exact ⟨edge, hEdge, decide_eq_true ⟨hDeleted, hFile, hChild⟩⟩
  refine ⟨canonicalSessionPath first.parent, fun other => ?_⟩
  rw [(claimed_claimsOf edges).counts, hFirst]
  exact if_congr (Option.some_inj.trans eq_comm) rfl rfl

end Claims

section Costs

variable {canonicalSessionPath : String → String} {disk : Transcripts canonicalSessionPath} {edges : List RlmLedgerEdge}
  {usage : SessionUsageSummary} {value : Json} {state : ReplayState}

theorem exactCost_nonneg {x : F64} (hSign : isSignNegative x = false) : 0 ≤ exactCost x := by
  rw [exactCost, hSign, if_neg Bool.false_ne_true, magnitude]
  split <;> positivity

def costly : AddSubmonoid ExactUsage where
  carrier := {usage | 0 ≤ usage.cost}
  zero_mem' := le_refl (0 : ℚ)
  add_mem' {left right} hLeft hRight := by
    change 0 ≤ left.cost + right.cost
    exact add_nonneg hLeft hRight

def Priced (edge : RlmLedgerEdge) : Prop :=
  ∀ usage, edge.deletedUsage = some usage → isSignNegative usage.cost = false

theorem parseDeletedUsage_priced {lineNo : Nat} (hParsed : parseDeletedUsage value lineNo = .ok usage) :
    isSignNegative usage.cost = false := by
  rw [parseDeletedUsage] at hParsed
  split at hParsed
  next =>
    split at hParsed
    next => cases hParsed
    next hSign =>
      obtain rfl := Except.ok.inj hParsed
      exact Bool.not_eq_true _ ▸ (not_or.mp hSign).2
  next => cases hParsed

theorem parse_priced {index : Nat} {childId child : String} {reason : RlmLedgerDeleteReason}
    (hParsed : parseLedgerLine value index = .ok
      (some (.delete childId child reason (some usage)))) :
    isSignNegative usage.cost = false := by
  rw [parseLedgerLine] at hParsed
  split_ifs at hParsed
  split at hParsed
  next =>
    split at hParsed
    next => split_ifs at hParsed; cases hParsed
    next => cases hParsed
  next =>
    split at hParsed
    next => cases hParsed
    next => cases hParsed
  next =>
    split at hParsed
    next =>
      split at hParsed
      next => cases hParsed
      next block _ =>
        cases hBlock : parseDeletedUsage block (index + 1) with
        | error message =>
          rw [hBlock] at hParsed
          cases hParsed
        | ok parsed =>
          rw [hBlock] at hParsed
          cases hParsed
          exact parseDeletedUsage_priced hBlock
    next => cases hParsed
  next => cases hParsed

theorem forall_modify {α : Type} {p : α → Prop} {f : α → α} (hKeeps : ∀ a, p a → p (f a)) {items : List α}
    (hItems : ∀ a ∈ items, p a) (i : Nat) : ∀ a ∈ items.modify i f, p a := by
  intro a hMem
  obtain ⟨j, hAt⟩ := List.mem_iff_getElem?.mp hMem
  rw [List.getElem?_modify] at hAt
  obtain ⟨b, hBefore, rfl⟩ := Option.map_eq_some_iff.mp hAt
  have hB := hItems b (List.mem_of_getElem? hBefore)
  split
  · exact hKeeps b hB
  · exact hB

theorem apply_priced (hState : ∀ edge ∈ state.edges, Priced edge) {record : LedgerRecord}
    (hRecord : ∀ childId child reason usage, record = .delete childId child reason (some usage) →
      isSignNegative usage.cost = false) :
    ∀ edge ∈ (state.apply canonicalSessionPath record).edges, Priced edge := by
  have hChange : ∀ (f : RlmLedgerEdge → RlmLedgerEdge), (∀ edge, Priced edge → Priced (f edge)) → ∀ childId child,
      ∀ edge ∈ (state.change canonicalSessionPath childId child f).edges, Priced edge := by
    intro f hKeeps childId child
    rw [ReplayState.change]
    split
    · exact forall_modify hKeeps hState _
    · exact hState
  cases record with
  | spawn input =>
    have hInput : Priced input.edge := fun usage hUsage => nomatch hUsage
    rw [ReplayState.apply]
    split
    · exact forall_modify (fun _ _ => hInput) hState _
    · intro edge hMem
      rcases List.mem_append.mp hMem with hOld | hNew
      · exact hState edge hOld
      · rw [List.mem_singleton.mp hNew]
        exact hInput
  | rename childId child name => exact hChange (.rename name) (fun _ hPriced => hPriced) childId child
  | delete childId child reason usage =>
    refine hChange (.delete reason usage) (fun edge hPriced known hKnown => ?_) childId child
    cases usage with
    | none => exact hPriced known hKnown
    | some fresh =>
      obtain rfl := Option.some.inj hKnown
      exact hRecord childId child reason fresh rfl

theorem replayLines_priced : ∀ (lines : List Json) (state : ReplayState) (index : Nat) (state' : ReplayState),
    (∀ edge ∈ state.edges, Priced edge) → replayLines canonicalSessionPath state index lines = .ok state' →
      ∀ edge ∈ state'.edges, Priced edge := by
  intro lines
  induction lines with
  | nil =>
    rintro state index _ hState ⟨⟩
    exact hState
  | cons line rest ih =>
    intro state index state' hState hReplay
    rw [replayLines] at hReplay
    split at hReplay
    next => cases hReplay
    next =>
      split at hReplay
      next => cases hReplay
      next => exact ih state (index + 1) state' hState hReplay
      next record hParsed =>
        refine ih _ (index + 1) state' (apply_priced hState ?_) hReplay
        rintro childId child reason usage rfl
        exact parse_priced hParsed

theorem replay_priced {env : Env} {s : Ledger} (hReplay : s.replay env = .ok state) :
    ∀ edge ∈ state.edges, Priced edge := by
  rw [Ledger.replay] at hReplay
  split at hReplay
  next lines _ => exact replayLines_priced lines .empty 0 state (fun _ hMem => nomatch hMem) hReplay
  next =>
    cases hReplay
    exact fun _ hMem => nomatch hMem

theorem tombstoneUsage_costly (hPriced : ∀ edge ∈ edges, Priced edge) {parent path : String}
    (hMem : path ∈ (claimsOf canonicalSessionPath disk edges).children parent) :
    tombstoneUsage canonicalSessionPath disk (claimsOf canonicalSessionPath disk edges) path ∈ costly := by
  have hClaimed := @claimed_claimsOf canonicalSessionPath disk edges
  obtain ⟨edge, hClaimant, -⟩ := hClaimed.child hMem
  obtain ⟨hEdge, -, hFile, hChild⟩ := claimant_some hClaimant
  rw [tombstoneUsage, hClaimed.snapshots, hClaimant, Option.map_some, Option.join_some]
  cases hUsage : edge.deletedUsage with
  | some usage => exact exactCost_nonneg (hPriced edge hEdge usage hUsage)
  | none =>
    rw [← hChild, disk.gone edge.child hFile]
    exact costly.zero_mem

end Costs

section Buckets

variable {contribution : KeyMap String ExactUsage} {total : ExactUsage} {parent : String}
  {entries : List (String × List String)}

theorem zero_of_not_billable (hCostly : total ∈ costly) (hNot : ¬ Billable total) : total = 0 := by
  obtain ⟨hInput, hRest⟩ := not_or.mp hNot
  obtain ⟨hOutput, hCost⟩ := not_or.mp hRest
  refine ExactUsage.ext (U64.ext ?_) (U64.ext ?_) (le_antisymm (not_lt.mp hCost) hCostly)
  · exact Nat.eq_zero_of_not_pos hInput
  · exact Nat.eq_zero_of_not_pos hOutput

theorem not_billable_zero : ¬ Billable 0 := by
  rintro (h | h | h)
  · exact absurd h (Nat.lt_irrefl 0)
  · exact absurd h (Nat.lt_irrefl 0)
  · exact absurd h (lt_irrefl (0 : ℚ))

theorem putTotal_other {entry : String × List String} (hOther : parent ≠ entry.1) (bucket : HashMap String ExactUsage) :
    (putTotal contribution bucket entry).lookup parent = bucket.lookup parent := by
  rw [putTotal]
  split
  · exact AList.lookup_insert_ne hOther
  · rfl

theorem foldl_putTotal_other : ∀ (entries : List (String × List String)) (bucket : HashMap String ExactUsage),
    parent ∉ entries.map Prod.fst → (entries.foldl (putTotal contribution) bucket).lookup parent = bucket.lookup parent
  | [], _, _ => rfl
  | entry :: entries, bucket, hNot => by
    obtain ⟨hFirst, hRest⟩ := not_or.mp (mt List.mem_cons.mpr hNot)
    rw [List.foldl_cons, foldl_putTotal_other entries _ hRest, putTotal_other hFirst]

theorem bucketOf_lookup (hKeys : (entries.map Prod.fst).Nodup) {children : List String}
    (hMem : (parent, children) ∈ entries) : (bucketOf contribution entries).lookup parent =
      if Billable (PostOrder.addFolded contribution 0 children) then some (PostOrder.addFolded contribution 0 children)
      else none := by
  obtain ⟨before, after, rfl⟩ := List.append_of_mem hMem
  rw [List.map_append, List.map_cons, List.nodup_append] at hKeys
  obtain ⟨-, hAfter, hApart⟩ := hKeys
  have hBefore : parent ∉ before.map Prod.fst := fun hIn => hApart parent hIn parent List.mem_cons_self rfl
  have hNone : (before.foldl (putTotal contribution) ∅).lookup parent = none := foldl_putTotal_other before ∅ hBefore
  have hSplit : bucketOf contribution (before ++ (parent, children) :: after) =
      after.foldl (putTotal contribution) (putTotal contribution (before.foldl (putTotal contribution) ∅) (parent,
        children)) :=
    List.foldl_append.trans rfl
  rw [hSplit, foldl_putTotal_other after _ (List.nodup_cons.mp hAfter).1, putTotal]
  split
  · exact AList.lookup_insert _
  · exact hNone

theorem bucketOf_none (hNot : parent ∉ entries.map Prod.fst) :
    (bucketOf contribution entries).lookup parent = none :=
  foldl_putTotal_other entries ∅ hNot

theorem bucket_lookup (order : IterationOrder) (claims : Claims) (contribution : KeyMap String ExactUsage)
    (parent : String) :
    (bucketOf contribution (HashMap.walk order claims.childrenByParent)).lookup parent =
      if Billable (PostOrder.addFolded contribution 0 (claims.children parent)) then
        some (PostOrder.addFolded contribution 0 (claims.children parent))
      else none := by
  rw [Claims.children]
  cases hChildren : claims.childrenByParent.lookup parent with
  | some children => exact bucketOf_lookup (HashMap.walk_nodup order) ((HashMap.mem_walk order).mpr hChildren)
  | none =>
    have hNot : parent ∉ (HashMap.walk order claims.childrenByParent).map Prod.fst := by
      intro hMem
      obtain ⟨⟨key, children⟩, hEntry, rfl⟩ := List.mem_map.mp hMem
      rw [(HashMap.mem_walk order).mp hEntry] at hChildren
      cases hChildren
    rw [bucketOf_none hNot]
    exact (if_neg not_billable_zero).symm

end Buckets

section Result

variable {canonicalSessionPath : String → String} {disk : Transcripts canonicalSessionPath} {edges : List RlmLedgerEdge}
  {order : IterationOrder}

theorem deleted_walk (order : IterationOrder) (edges : List RlmLedgerEdge) : ∃ walk : PostOrder.Walk String ExactUsage,
    deletedDescendantUsageByParent canonicalSessionPath disk order edges =
      some (bucketOf walk.contribution
        (HashMap.walk order (claimsOf canonicalSessionPath disk edges).childrenByParent)) ∧
    PostOrder.Ended (claimsOf canonicalSessionPath disk edges).children
      (tombstoneUsage canonicalSessionPath disk (claimsOf canonicalSessionPath disk edges)) .start walk ∧
    ∀ parent, ∀ child ∈ (claimsOf canonicalSessionPath disk edges).children parent,
      (walk.contribution.get child).isSome = true := by
  have hClaimed := @claimed_claimsOf canonicalSessionPath disk edges
  rw [deletedDescendantUsageByParent]
  generalize claimsOf canonicalSessionPath disk edges = claims at hClaimed ⊢
  have hPaths : ∀ parent, ∀ child ∈ claims.children parent, child ∈ claims.snapshotByPath.keys.toFinset := by
    intro parent child hMem
    obtain ⟨edge, hClaimant, -⟩ := hClaimed.child hMem
    rw [List.mem_toFinset, ← AList.mem_keys, ← AList.lookup_isSome, hClaimed.snapshots, hClaimant]
    rfl
  have hFuel : 2 * claims.snapshotByPath.keys.toFinset.card + 1 ≤ 2 * claims.snapshotByPath.keys.length + 1 := by
    have hCard := List.toFinset_card_le claims.snapshotByPath.keys
    omega
  have hRoots : ∀ child, child ∈ (HashMap.values order claims.childrenByParent).flatten ↔
      ∃ parent, child ∈ claims.children parent := by
    intro child
    rw [List.mem_flatten]
    constructor
    · rintro ⟨children, hValue, hMem⟩
      obtain ⟨parent, hLookup⟩ := (HashMap.mem_values order).mp hValue
      exact ⟨parent, by rw [Claims.children, hLookup]; exact hMem⟩
    · rintro ⟨parent, hMem⟩
      rw [Claims.children] at hMem
      cases hLookup : claims.childrenByParent.lookup parent with
      | none =>
        rw [hLookup] at hMem
        cases hMem
      | some children =>
        rw [hLookup] at hMem
        exact ⟨children, (HashMap.mem_values order).mpr ⟨parent, hLookup⟩, hMem⟩
  have hStart : PostOrder.Sound claims.children (tombstoneUsage canonicalSessionPath disk claims) .start :=
    PostOrder.sound_start
  obtain ⟨walk, hWalk, hEnded, hAll⟩ := PostOrder.walkAll_ends hClaimed.forest hPaths hFuel _ .start
    (fun root hRoot => (hRoots root).mp hRoot) hStart rfl
  refine ⟨walk, ?_, hEnded, fun parent child hMem => hAll child ((hRoots child).mpr ⟨parent, hMem⟩)⟩
  rw [hWalk]
  rfl

theorem billed_eq {walk : PostOrder.Walk String ExactUsage} {claims : Claims}
    (hCostly : ∀ path m, walk.contribution.get path = some m → m ∈ costly)
    (hFolded : ∀ parent, ∀ child ∈ claims.children parent, (walk.contribution.get child).isSome = true)
      (parent : String) :
    billed (bucketOf walk.contribution (HashMap.walk order claims.childrenByParent)) parent =
      ((claims.children parent).map fun child => (walk.contribution.get child).getD 0).sum := by
  have hTotal : PostOrder.addFolded walk.contribution 0 (claims.children parent) =
      ((claims.children parent).map fun child => (walk.contribution.get child).getD 0).sum := by
    rw [PostOrder.addFolded_eq, zero_add, List.filter_eq_self.mpr (hFolded parent)]
  have hIn : PostOrder.addFolded walk.contribution 0 (claims.children parent) ∈ costly := by
    rw [hTotal]
    refine costly.list_sum_mem fun m hMem => ?_
    obtain ⟨child, hChild, rfl⟩ := List.mem_map.mp hMem
    obtain ⟨folded, hGet⟩ := Option.isSome_iff_exists.mp (hFolded parent child hChild)
    rw [hGet]
    exact hCostly child folded hGet
  rw [billed, bucket_lookup, ← hTotal]
  split
  next => rfl
  next hNot => exact (zero_of_not_billable hIn hNot).symm

end Result

/-! ## A child and a grandchild -/

def dollar : SessionUsageSummary :=
  { inputTokens := 10, outputTokens := 1, cost := ⟨0x3FF0000000000000⟩ }

def familyLedger : Ledger :=
  { Ledger.start with
    lines := some
      [spawnRecord "t" ⟨"1", "p", "c", 1, "child"⟩, spawnRecord "t" ⟨"2", "c", "g", 2, "grandchild"⟩,
        deleteRecord "t" "1" "c" .user (some dollar), deleteRecord "t" "2" "g" .user (some dollar)] }

def familyEdges : List RlmLedgerEdge :=
  [⟨"1", "p", "c", 1, "child", some .user, some dollar⟩, ⟨"2", "c", "g", 2, "grandchild", some .user, some dollar⟩]

def familyEnv : Env :=
  { canonicalSessionPath := id, sessionsDir := "/s", found := [] }

def noTranscripts : Transcripts id :=
  ⟨fun _ => false, fun _ => none, fun _ _ => rfl⟩

theorem familyEdges_acyclic : AcyclicEdges id familyEdges := by
  let rank : String → Nat := fun path => if path = "g" then 2 else if path = "c" then 1 else 0
  have hRank : ∀ parent child, (∃ edge ∈ familyEdges, edge.deleted ≠ none ∧ id edge.parent = parent ∧
    id edge.child = child) →
      rank parent < rank child := by
    rintro _ _ ⟨edge, hMem, -, rfl, rfl⟩
    revert edge
    decide
  intro path hCycle
  have hLess : ∀ child, Relation.TransGen (fun parent child => ∃ edge ∈ familyEdges, edge.deleted ≠ none ∧
      id edge.parent = parent ∧ id edge.child = child) path child → rank path < rank child := by
    intro child hPath
    induction hPath with
    | single hEdge => exact hRank _ _ hEdge
    | tail _ hEdge ih => exact ih.trans (hRank _ _ hEdge)
  exact absurd (hLess path hCycle) (lt_irrefl _)

end PrimeAgent.RlmLedger
