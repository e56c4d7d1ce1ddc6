import Mathlib.Algebra.GroupWithZero.Nat
import Mathlib.Algebra.Order.BigOperators.Group.List

/-! # Splicing regions into a list

Every item has a weight, and a place in the list is told by the weight in front of it. Regions that lie one behind
another may be replaced from the last to the first: no replacement moves the places of those still to come.
-/
namespace PrimeAgent.Splice

def total {α : Type} (weight : α → Nat) (items : List α) : Nat :=
  (items.map weight).sum

def splitAt? {α : Type} (weight : α → Nat) : List α → Nat → Option (List α × List α)
  | items, 0 => some ([], items)
  | [], _ + 1 => none
  | a :: items, offset + 1 =>
    if weight a ≤ offset + 1 then
      (splitAt? weight items (offset + 1 - weight a)).map fun cut => (a :: cut.1, cut.2)
    else none

structure Region (α : Type) where
  start : Nat
  length : Nat
  new : List α

def splice {α : Type} (weight : α → Nat) (region : Region α) (items : List α) : Option (List α) := do
  let before ← splitAt? weight items region.start
  let after ← splitAt? weight items (region.start + region.length)
  some (before.1 ++ region.new ++ after.2)

def spliceAll {α : Type} (weight : α → Nat) (regions : List (Region α)) (items : List α) : Option (List α) :=
  regions.foldr (fun region content => content.bind (splice weight region)) (some items)

/-- What stands in front of the first region, between two of them and behind the last one stays. -/
inductive Spliced {α : Type} (weight : α → Nat) : Nat → List (Region α) → List α → List α → Prop where
  | rest {offset : Nat} (items : List α) : Spliced weight offset [] items items
  | region {offset : Nat} {region : Region α} {regions : List (Region α)} (outside matched : List α)
    {items out : List α}
      (hStart : region.start = offset + total weight outside) (hLength : region.length = total weight matched)
      (hRest : Spliced weight (region.start + region.length) regions items out) :
      Spliced weight offset (region :: regions) (outside ++ matched ++ items) (outside ++ region.new ++ out)

structure Bounded {α : Type} (weight : α → Nat) (items : List α) (region : Region α) : Prop where
  cut : ∃ before matched after, items = before ++ matched ++ after ∧ total weight before = region.start ∧
    total weight matched = region.length

def Apart {α : Type} : Nat → List (Region α) → Prop
  | _, [] => True
  | offset, region :: regions => offset ≤ region.start ∧ Apart (region.start + region.length) regions

def Region.Covers {α : Type} (region : Region α) (offset : Nat) : Prop :=
  region.start ≤ offset ∧ offset < region.start + region.length

instance {α : Type} (region : Region α) (offset : Nat) : Decidable (region.Covers offset) :=
  inferInstanceAs (Decidable (_ ∧ _))

def kept {α : Type} (weight : α → Nat) (regions : List (Region α)) : Nat → List α → List α
  | _, [] => []
  | offset, a :: items =>
    if ∃ region ∈ regions, region.Covers offset then kept weight regions (offset + weight a) items
    else a :: kept weight regions (offset + weight a) items

section Splicing

variable {α β : Type} {weight : α → Nat} {offset : Nat} {regions : List (Region α)} {items out before after : List α}
  {region : Region α}

theorem total_append (before after : List α) : total weight (before ++ after) = total weight before + total weight
    after := by
  rw [total, List.map_append, List.sum_append]
  rfl

theorem total_cons (a : α) (items : List α) : total weight (a :: items) = weight a + total weight items := rfl

section

variable (hPos : ∀ a, 0 < weight a)

include hPos

theorem total_eq_zero (hZero : total weight items = 0) : items = [] := by
  cases items with
  | nil => rfl
  | cons a items =>
    have := hPos a
    rw [total_cons] at hZero
    omega

theorem splitAt?_append (before after : List α) :
    splitAt? weight (before ++ after) (total weight before) = some (before, after) := by
  induction before with
  | nil => cases after <;> rfl
  | cons a before ih =>
    obtain ⟨n, hTotal⟩ : ∃ n, total weight (a :: before) = n + 1 :=
      Nat.exists_eq_add_one.mpr (Nat.lt_of_lt_of_le (hPos a) (Nat.le_add_right _ _))
    have hRest : n + 1 - weight a = total weight before := by
      rw [← hTotal, total_cons, Nat.add_sub_cancel_left]
    rw [hTotal, List.cons_append, splitAt?, if_pos (hTotal ▸ Nat.le_add_right _ _), hRest, ih]
    rfl

theorem splice_append {matched : List α} (hStart : region.start = total weight before)
    (hLength : region.length = total weight matched) :
    splice weight region (before ++ matched ++ after) = some (before ++ region.new ++ after) := by
  have hBefore : splitAt? weight (before ++ matched ++ after) region.start = some (before, matched ++ after) := by
    rw [hStart, List.append_assoc]
    exact splitAt?_append hPos _ _
  have hAfter : splitAt? weight (before ++ matched ++ after) (region.start + region.length) =
      some (before ++ matched, after) := by
    rw [hStart, hLength, ← total_append]
    exact splitAt?_append hPos _ _
  rw [splice, hBefore, hAfter]
  rfl

theorem Spliced.spliceAll (hSpliced : Spliced weight offset regions items out) :
    ∀ before, total weight before = offset → spliceAll weight regions (before ++ items) = some (before ++ out) := by
  induction hSpliced with
  | rest items => exact fun before _ => rfl
  | @region offset region regions outside matched items out hStart hLength hRest ih =>
    intro before hBefore
    have hTotal : total weight (before ++ outside ++ matched) = region.start + region.length := by
      rw [total_append, total_append, hBefore, ← hStart, ← hLength]
    have hLater := ih _ hTotal
    rw [Splice.spliceAll] at hLater ⊢
    rw [List.foldr_cons, ← List.append_assoc before, ← List.append_assoc before, hLater]
    refine (splice_append hPos (hStart.trans ?_) hLength).trans ?_
    · rw [total_append, hBefore]
    · rw [List.append_assoc before, List.append_assoc before]

theorem Spliced.unique {other : List α} (hSpliced : Spliced weight 0 regions items out)
    (hOther : Spliced weight 0 regions items other) : out = other := by
  have hOut := hSpliced.spliceAll hPos [] rfl
  rw [hOther.spliceAll hPos [] rfl] at hOut
  exact (Option.some.inj hOut).symm

theorem exists_between {first second : List α} (hSame : first ++ after = second ++ items)
    (hLe : total weight first ≤ total weight second) : ∃ between, second = first ++ between ∧
      after = between ++ items := by
  obtain ⟨between, hSecond, hAfter⟩ | ⟨between, hFirst, hItems⟩ := List.append_eq_append_iff.mp hSame
  · exact ⟨between, hSecond, hAfter⟩
  · have hNone : between = [] := by
      rw [hFirst, total_append] at hLe
      exact total_eq_zero hPos (by omega)
    subst hNone
    exact ⟨[], by rw [hFirst, List.append_nil, List.append_nil], hItems.symm⟩

theorem exists_spliced : ∀ (regions : List (Region α)) (before items : List α),
    (∀ region ∈ regions, Bounded weight (before ++ items) region) → Apart (total weight before) regions →
      ∃ out, Spliced weight (total weight before) regions items out := by
  intro regions
  induction regions with
  | nil => exact fun before items _ _ => ⟨items, .rest items⟩
  | cons region regions ih =>
    rintro before items hBounded ⟨hLe, hApart⟩
    obtain ⟨⟨front, matched, after, hItems, hStart, hLength⟩⟩ := hBounded region List.mem_cons_self
    obtain ⟨outside, hFront, hMatched⟩ : ∃ outside, front = before ++ outside ∧ items = outside ++ (matched ++ after) :=
      exists_between hPos (hItems.trans (List.append_assoc _ _ _)) (hStart ▸ hLe)
    have hTotal : total weight (front ++ matched) = region.start + region.length := by
      rw [total_append, hStart, hLength]
    obtain ⟨out, hRest⟩ := ih (front ++ matched) after
      (fun later hLater => hItems ▸ hBounded later (List.mem_cons_of_mem _ hLater)) (hTotal ▸ hApart)
    refine ⟨outside ++ region.new ++ out, ?_⟩
    rw [hMatched, ← List.append_assoc]
    refine .region outside matched ?_ hLength.symm (hTotal ▸ hRest)
    rw [← hStart, hFront, total_append]

end

theorem Spliced.starts (hSpliced : Spliced weight offset regions items out) : ∀ region ∈ regions,
    offset ≤ region.start := by
  induction hSpliced with
  | rest => exact fun _ hMem => nomatch hMem
  | region outside matched hStart hLength _ ih =>
    intro later hMem
    rcases List.mem_cons.mp hMem with rfl | hMem
    · exact hStart ▸ Nat.le_add_right _ _
    · exact (hStart ▸ Nat.le_add_right _ _ : _ ≤ _).trans ((Nat.le_add_right _ _).trans (ih later hMem))

theorem kept_before (hPos : ∀ a, 0 < weight a) : ∀ (outside : List α) (offset : Nat),
    (∀ region ∈ regions, offset + total weight outside ≤ region.start) →
      kept weight regions offset (outside ++ items) = outside ++ kept weight regions (offset + total weight outside)
        items := by
  intro outside
  induction outside with
  | nil => exact fun _ _ => rfl
  | cons a outside ih =>
    intro offset hStarts
    have hUncovered : ¬ ∃ region ∈ regions, region.Covers offset := by
      rintro ⟨region, hMem, hCovers⟩
      have hLe := hStarts region hMem
      have hLight := hPos a
      rw [total_cons] at hLe
      exact absurd hCovers.1 (by omega)
    rw [List.cons_append, kept, if_neg hUncovered, ih (offset + weight a), total_cons, ← Nat.add_assoc,
      List.cons_append]
    intro region hMem
    have hLe := hStarts region hMem
    rw [total_cons] at hLe
    omega

theorem kept_covered (hPos : ∀ a, 0 < weight a) (hMem : region ∈ regions) :
    ∀ (matched : List α) (offset : Nat), region.start ≤ offset →
      offset + total weight matched ≤ region.start + region.length →
      kept weight regions offset (matched ++ items) = kept weight regions (offset + total weight matched) items := by
  intro matched
  induction matched with
  | nil => exact fun _ _ _ => rfl
  | cons a matched ih =>
    intro offset hStart hEnd
    have hLight := hPos a
    rw [total_cons] at hEnd
    have hCovers : region.Covers offset := ⟨hStart, by omega⟩
    rw [List.cons_append, kept, if_pos ⟨region, hMem, hCovers⟩, ih (offset + weight a) (by omega) (by omega),
      total_cons,
      ← Nat.add_assoc]

theorem kept_behind : ∀ (items : List α) (offset : Nat),
    region.start + region.length ≤ offset → kept weight (region :: regions) offset items = kept weight regions offset
      items := by
  intro items
  induction items with
  | nil => exact fun _ _ => rfl
  | cons a items ih =>
    intro offset hEnd
    have hPast : ¬ region.Covers offset := fun hCovers => absurd hCovers.2 (by omega)
    simp only [kept, List.exists_mem_cons_iff, hPast, false_or, ih (offset + weight a) (by omega)]

theorem kept_spliced (hPos : ∀ a, 0 < weight a) {region : Region α} {outside matched : List α}
    (hStart : region.start = offset + total weight outside) (hLength : region.length = total weight matched)
    (hRest : Spliced weight (region.start + region.length) regions items out) :
    kept weight (region :: regions) offset (outside ++ matched ++ items) =
      outside ++ kept weight regions (region.start + region.length) items := by
  have hStarts : ∀ later ∈ region :: regions, offset + total weight outside ≤ later.start := by
    intro later hMem
    rcases List.mem_cons.mp hMem with rfl | hMem
    · exact hStart.ge
    · exact hStart.ge.trans ((Nat.le_add_right _ _).trans (hRest.starts later hMem))
  rw [List.append_assoc, kept_before hPos outside offset hStarts, ← hStart,
    kept_covered hPos List.mem_cons_self matched region.start le_rfl (hLength ▸ le_rfl), ← hLength,
    kept_behind items _ le_rfl]

end Splicing

end PrimeAgent.Splice
