import PrimeAgent.SessionStore.Info

/-! # The usage of recursive children

`attribute_child_usage` bills a child to the assistant row that spawned it, and the row keeps its own context size.
Sums are of `u64`, and a sum that is not saturating overflows where it leaves them.
-/
namespace PrimeAgent.Engine

open SessionStore (saturatingAdd addAssistantUsage)

/-- The sum that stands for the context where `totalTokens` is not there. -/
def tokenSum (usage : Usage) : Nat :=
  usage.input + usage.output + usage.cacheRead + usage.cacheWrite

/-- `none` is the overflow of the sum. -/
def calculateContextTokens (usage : Usage) : Option Nat :=
  if 0 < usage.totalTokens then some usage.totalTokens
  else if tokenSum usage < 2 ^ 64 then some (tokenSum usage)
  else none

def attributeChildUsage (parentUsage childUsage : Usage) : Option Usage :=
  (calculateContextTokens parentUsage).map fun parentContextTokens =>
    { addAssistantUsage parentUsage childUsage with totalTokens := parentContextTokens }

def attributeChildren (parentUsage : Usage) (children : List Usage) : Option Usage :=
  children.foldlM attributeChildUsage parentUsage

def saturatingSum (start : Nat) (summands : List Nat) : Nat :=
  summands.foldl saturatingAdd start

/-! ### Saturating sums -/

theorem saturatingAdd_right_comm (a b c : Nat) :
    saturatingAdd (saturatingAdd a b) c = saturatingAdd (saturatingAdd a c) b := by
  unfold saturatingAdd
  omega

theorem saturatingSum_perm {summands summands' : List Nat} (hPerm : summands.Perm summands') (start : Nat) :
    saturatingSum start summands = saturatingSum start summands' :=
  hPerm.foldl_eq' (fun a _ b _ start => saturatingAdd_right_comm start a b) start

theorem saturatingSum_eq_zero {summands : List Nat} {start : Nat} (hZero : saturatingSum start summands = 0) :
    start = 0 ∧ ∀ n ∈ summands, n = 0 := by
  induction summands generalizing start with
  | nil => exact ⟨hZero, List.forall_mem_nil _⟩
  | cons first rest ih =>
    obtain ⟨hFirst, hRest⟩ := ih hZero
    have hParts : start = 0 ∧ first = 0 := by
      unfold saturatingAdd at hFirst
      omega
    exact ⟨hParts.1, List.forall_mem_cons.mpr ⟨hParts.2, hRest⟩⟩

/-! ### Attribution -/

variable {parent result : Usage} {child : Usage} {children children' : List Usage}

structure Billed (parent : Usage) (children : List Usage) (result : Usage) : Prop where
  input : result.input = saturatingSum parent.input (children.map (·.input))
  output : result.output = saturatingSum parent.output (children.map (·.output))
  cacheRead : result.cacheRead = saturatingSum parent.cacheRead (children.map (·.cacheRead))
  cacheWrite : result.cacheWrite = saturatingSum parent.cacheWrite (children.map (·.cacheWrite))
  cost_input : result.cost.input = (children.map (·.cost.input)).foldl F64.add parent.cost.input
  cost_output : result.cost.output = (children.map (·.cost.output)).foldl F64.add parent.cost.output
  cost_cacheRead : result.cost.cacheRead = (children.map (·.cost.cacheRead)).foldl F64.add parent.cost.cacheRead
  cost_cacheWrite : result.cost.cacheWrite = (children.map (·.cost.cacheWrite)).foldl F64.add parent.cost.cacheWrite
  cost_total : result.cost.total = (children.map (·.cost.total)).foldl F64.add parent.cost.total

theorem attributeChildUsage_some (hChild : attributeChildUsage parent child = some result) :
    ∃ tokens, calculateContextTokens parent = some tokens ∧
      result = { addAssistantUsage parent child with totalTokens := tokens } := by
  obtain ⟨tokens, hTokens, hResult⟩ := Option.map_eq_some_iff.mp hChild
  exact ⟨tokens, hTokens, hResult.symm⟩

theorem attributeChildren_cons (hChildren : attributeChildren parent (child :: children) = some result) :
    ∃ first, attributeChildUsage parent child = some first ∧ attributeChildren first children = some result :=
  Option.bind_eq_some_iff.mp hChildren

theorem attributeChildren_billed (hChildren : attributeChildren parent children = some result) :
    Billed parent children result := by
  induction children generalizing parent with
  | nil =>
    obtain rfl := Option.some.inj hChildren
    exact ⟨rfl, rfl, rfl, rfl, rfl, rfl, rfl, rfl, rfl⟩
  | cons child children ih =>
    obtain ⟨first, hFirst, hRest⟩ := attributeChildren_cons hChildren
    obtain ⟨tokens, -, rfl⟩ := attributeChildUsage_some hFirst
    have hBilled := ih hRest
    exact ⟨hBilled.input, hBilled.output, hBilled.cacheRead, hBilled.cacheWrite, hBilled.cost_input,
      hBilled.cost_output, hBilled.cost_cacheRead, hBilled.cost_cacheWrite, hBilled.cost_total⟩

theorem calculateContextTokens_positive (hTotal : 0 < parent.totalTokens) :
    calculateContextTokens parent = some parent.totalTokens :=
  if_pos hTotal

theorem calculateContextTokens_zero (hTokens : calculateContextTokens parent = some 0) :
    parent.totalTokens = 0 ∧ tokenSum parent = 0 := by
  rw [calculateContextTokens] at hTokens
  split at hTokens
  next hTotal =>
    have hEq := Option.some.inj hTokens
    omega
  next hTotal =>
    split at hTokens
    next => exact ⟨by omega, Option.some.inj hTokens⟩
    next => cases hTokens

theorem attributeChildren_keeps {tokens : Nat} (hPos : 0 < tokens) (hTokens : calculateContextTokens parent = some tokens)
    (children : List Usage) : ∃ result, attributeChildren parent children = some result ∧
      calculateContextTokens result = some tokens ∧
      result.totalTokens = if children.isEmpty then parent.totalTokens else tokens := by
  induction children generalizing parent with
  | nil => exact ⟨parent, rfl, hTokens, rfl⟩
  | cons child children ih =>
    have hFirst : attributeChildUsage parent child =
        some { addAssistantUsage parent child with totalTokens := tokens } := by
      rw [attributeChildUsage, hTokens, Option.map_some]
    obtain ⟨result, hResult, hKept, hTotal⟩ := @ih { addAssistantUsage parent child with totalTokens := tokens }
      (calculateContextTokens_positive hPos)
    refine ⟨result, ?_, hKept, hTotal.trans (ite_self tokens)⟩
    rw [attributeChildren, List.foldlM_cons, hFirst]
    exact hResult

theorem addAssistantUsage_empty (hParent : tokenSum parent = 0) (hChild : tokenSum child = 0) :
    tokenSum { addAssistantUsage parent child with totalTokens := 0 } = 0 := by
  simp only [tokenSum, addAssistantUsage, saturatingAdd] at *
  omega

theorem calculateContextTokens_empty (hTotal : parent.totalTokens = 0) (hSum : tokenSum parent = 0) :
    calculateContextTokens parent = some 0 := by
  rw [calculateContextTokens, hTotal, hSum]
  rfl

theorem attributeChildren_empty (hTotal : parent.totalTokens = 0) (hSum : tokenSum parent = 0)
    (hChildren : ∀ child ∈ children, tokenSum child = 0) :
    ∃ result, attributeChildren parent children = some result ∧ calculateContextTokens result = some 0 ∧
      result.totalTokens = 0 := by
  induction children generalizing parent with
  | nil => exact ⟨parent, rfl, calculateContextTokens_empty hTotal hSum, hTotal⟩
  | cons child children ih =>
    obtain ⟨hChild, hRest⟩ := List.forall_mem_cons.mp hChildren
    have hFirst : attributeChildUsage parent child = some { addAssistantUsage parent child with totalTokens := 0 } := by
      rw [attributeChildUsage, calculateContextTokens_empty hTotal hSum, Option.map_some]
    obtain ⟨result, hResult, hKept, hTotal'⟩ := @ih { addAssistantUsage parent child with totalTokens := 0 }
      rfl (addAssistantUsage_empty hSum hChild) hRest
    refine ⟨result, ?_, hKept, hTotal'⟩
    rw [attributeChildren, List.foldlM_cons, hFirst]
    exact hResult

theorem attributeChildren_zero (hChildren : attributeChildren parent children = some result)
    (hTokens : calculateContextTokens result = some 0) : ∀ child ∈ children, tokenSum child = 0 := by
  intro child hMem
  obtain ⟨-, hSum⟩ := calculateContextTokens_zero hTokens
  have hBilled := attributeChildren_billed hChildren
  rw [tokenSum, hBilled.input, hBilled.output, hBilled.cacheRead, hBilled.cacheWrite] at hSum
  have hZero (field : Usage → Nat) (start : Nat) (hField : saturatingSum start (children.map field) = 0) :
      field child = 0 :=
    (saturatingSum_eq_zero hField).2 _ (List.mem_map_of_mem hMem)
  have hInput := hZero (·.input) parent.input (by omega)
  have hOutput := hZero (·.output) parent.output (by omega)
  have hRead := hZero (·.cacheRead) parent.cacheRead (by omega)
  have hWrite := hZero (·.cacheWrite) parent.cacheWrite (by omega)
  rw [tokenSum]
  omega

/-- The children are billed to the row, the row keeps its context size, and no order of the children changes an integer
field. -/
structure Attributed (parent : Usage) (children : List Usage) (result : Usage) : Prop where
  context : ∃ tokens, calculateContextTokens parent = some tokens ∧ calculateContextTokens result = some tokens
  billed : Billed parent children result
  order : ∀ children', children'.Perm children → ∃ result', attributeChildren parent children' = some result' ∧
    result'.input = result.input ∧ result'.output = result.output ∧ result'.cacheRead = result.cacheRead ∧
    result'.cacheWrite = result.cacheWrite ∧ result'.totalTokens = result.totalTokens

def ContextKnown (parent : Usage) (children : List Usage) : Prop :=
  0 < parent.totalTokens ∨ (0 < tokenSum parent ∧ tokenSum parent < 2 ^ 64) ∨
    (tokenSum parent = 0 ∧ ∀ child ∈ children, tokenSum child = 0)

theorem contextKnown_perm (hPerm : children'.Perm children) (hKnown : ContextKnown parent children) :
    ContextKnown parent children' := by
  rcases hKnown with hTotal | hSum | ⟨hSum, hNone⟩
  · exact Or.inl hTotal
  · exact Or.inr (Or.inl hSum)
  · exact Or.inr (Or.inr ⟨hSum, fun child hMem => hNone child (hPerm.mem_iff.mp hMem)⟩)

theorem attributeChildren_known (hKnown : ContextKnown parent children) : ∃ tokens result,
    calculateContextTokens parent = some tokens ∧ attributeChildren parent children = some result ∧
      calculateContextTokens result = some tokens ∧
      result.totalTokens = if children.isEmpty then parent.totalTokens else tokens := by
  by_cases hTotal : 0 < parent.totalTokens
  · obtain ⟨result, hResult⟩ :=
      attributeChildren_keeps hTotal (calculateContextTokens_positive hTotal) children
    exact ⟨_, result, calculateContextTokens_positive hTotal, hResult⟩
  · rcases hKnown with hPos | ⟨hPos, hFits⟩ | ⟨hSum, hNone⟩
    · exact absurd hPos hTotal
    · have hTokens : calculateContextTokens parent = some (tokenSum parent) := by
        rw [calculateContextTokens, if_neg hTotal, if_pos hFits]
      obtain ⟨result, hResult⟩ := attributeChildren_keeps hPos hTokens children
      exact ⟨_, result, hTokens, hResult⟩
    · have hNoTotal : parent.totalTokens = 0 := by omega
      obtain ⟨result, hResult, hKept, hZero⟩ := attributeChildren_empty hNoTotal hSum hNone
      refine ⟨_, result, calculateContextTokens_empty hNoTotal hSum, hResult, hKept, ?_⟩
      rw [hZero, hNoTotal, ite_self]

theorem attributeChildren_attributed_iff (parent : Usage) (children : List Usage) :
    (∃ result, attributeChildren parent children = some result ∧ Attributed parent children result) ↔
      ContextKnown parent children := by
  constructor
  · rintro ⟨result, hResult, ⟨tokens, hTokens, hKept⟩, -, -⟩
    by_cases hTotal : 0 < parent.totalTokens
    · exact Or.inl hTotal
    · rw [calculateContextTokens, if_neg hTotal] at hTokens
      split at hTokens
      next hFits =>
        obtain rfl := Option.some.inj hTokens
        by_cases hPos : 0 < tokenSum parent
        · exact Or.inr (Or.inl ⟨hPos, hFits⟩)
        · have hSum : tokenSum parent = 0 := by omega
          rw [hSum] at hKept
          exact Or.inr (Or.inr ⟨hSum, attributeChildren_zero hResult hKept⟩)
      next => cases hTokens
  · intro hKnown
    obtain ⟨tokens, result, hTokens, hResult, hKept, hTotal⟩ := attributeChildren_known hKnown
    refine ⟨result, hResult, ⟨tokens, hTokens, hKept⟩, attributeChildren_billed hResult, fun children' hPerm => ?_⟩
    obtain ⟨tokens', result', hTokens', hResult', -, hTotal'⟩ := attributeChildren_known (contextKnown_perm hPerm hKnown)
    obtain rfl := Option.some.inj (hTokens.symm.trans hTokens')
    have hBilled := attributeChildren_billed hResult
    have hBilled' := attributeChildren_billed hResult'
    have hSame (field : Usage → Nat) (start : Nat) :
        saturatingSum start (children'.map field) = saturatingSum start (children.map field) :=
      saturatingSum_perm (hPerm.map field) start
    refine ⟨result', hResult', ?_, ?_, ?_, ?_, ?_⟩
    · rw [hBilled'.input, hBilled.input, hSame]
    · rw [hBilled'.output, hBilled.output, hSame]
    · rw [hBilled'.cacheRead, hBilled.cacheRead, hSame]
    · rw [hBilled'.cacheWrite, hBilled.cacheWrite, hSame]
    · rw [hTotal', hTotal, hPerm.isEmpty_eq]

theorem attributeChildren_unknown : ¬ ∃ result,
    attributeChildren SessionStore.noUsage [{ SessionStore.noUsage with input := 5, totalTokens := 5 }] = some result ∧
      Attributed SessionStore.noUsage [{ SessionStore.noUsage with input := 5, totalTokens := 5 }] result := by
  rintro ⟨result, hResult, ⟨tokens, hTokens, hKept⟩, -, -⟩
  obtain rfl := Option.some.inj hTokens
  have hNone := attributeChildren_zero hResult hKept _ List.mem_cons_self
  cases hNone

end PrimeAgent.Engine
