import Mathlib.Order.Compare

/-! # Lists compared at their first difference

A list is read up to the first place where it is not spelled as the other, and a comparison of members decides there.
Members that compare as equal need not be the same, so the comparison of lists is only as good as its members' spelling.
-/
namespace FirstDifference

open Std

variable {α : Type*} {cmp : α → α → Ordering} {R : α → α → Prop} {a b c : α} {left middle right : List α}

theorem then_isLE_trans [TransCmp cmp] {first second both : Ordering}
    (hTies : first.isLE = true → second.isLE = true → both.isLE = true)
    (hFirst : ((cmp a b).then first).isLE = true) (hSecond : ((cmp b c).then second).isLE = true) :
    ((cmp a c).then both).isLE = true := by
  cases hAB : cmp a b with
  | gt => simp [hAB] at hFirst
  | lt =>
    cases hBC : cmp b c with
    | gt => simp [hBC] at hSecond
    | lt => simp [TransCmp.lt_trans hAB hBC]
    | eq => simp [TransCmp.lt_of_lt_of_eq hAB hBC]
  | eq =>
    cases hBC : cmp b c with
    | gt => simp [hBC] at hSecond
    | lt => simp [TransCmp.lt_of_eq_of_lt hAB hBC]
    | eq =>
      rw [hAB] at hFirst
      rw [hBC] at hSecond
      rw [TransCmp.eq_trans hAB hBC]
      exact hTies hFirst hSecond

theorem then_gt_trans [TransCmp cmp] {first second both : Ordering}
    (hTies : first = .gt → second = .gt → both = .gt)
    (hFirst : (cmp a b).then first = .gt) (hSecond : (cmp b c).then second = .gt) : (cmp a c).then both = .gt := by
  cases hAB : cmp a b with
  | lt => simp [hAB] at hFirst
  | gt =>
    cases hBC : cmp b c with
    | lt => simp [hBC] at hSecond
    | gt => simp [TransCmp.gt_trans hAB hBC]
    | eq => simp [TransCmp.gt_of_gt_of_eq hAB hBC]
  | eq =>
    cases hBC : cmp b c with
    | lt => simp [hBC] at hSecond
    | gt => simp [TransCmp.gt_of_eq_of_gt hAB hBC]
    | eq =>
      rw [hAB] at hFirst
      rw [hBC] at hSecond
      rw [TransCmp.eq_trans hAB hBC]
      exact hTies hFirst hSecond

def Ahead (R : α → α → Prop) : List α → List α → Prop
  | x :: left, y :: right => R x y ∨ x = y ∧ Ahead R left right
  | _, _ => False

theorem Ahead.trans (hTrans : ∀ x y z, R x y → R y z → R x z) (hFirst : Ahead R left middle)
    (hSecond : Ahead R middle right) : Ahead R left right := by
  induction left generalizing middle right with
  | nil => exact hFirst.elim
  | cons x left ih =>
    obtain _ | ⟨y, middle⟩ := middle
    · exact hFirst.elim
    obtain _ | ⟨z, right⟩ := right
    · exact hSecond.elim
    obtain hXY | ⟨rfl, hLeft⟩ := hFirst
    · obtain hYZ | ⟨rfl, -⟩ := hSecond
      · exact Or.inl (hTrans x y z hXY hYZ)
      · exact Or.inl hXY
    · obtain hYZ | ⟨rfl, hRight⟩ := hSecond
      · exact Or.inl hYZ
      · exact Or.inr ⟨rfl, ih hLeft hRight⟩

theorem not_ahead_self (hIrrefl : ∀ x, ¬ R x x) (left : List α) : ¬ Ahead R left left := by
  induction left with
  | nil => exact id
  | cons x left ih =>
    rintro (hX | ⟨-, hLeft⟩)
    · exact hIrrefl x hX
    · exact ih hLeft

section Compare

variable [DecidableEq α]

def compareLists (cmp : α → α → Ordering) : List α → List α → Ordering
  | [], [] => .eq
  | [], _ :: _ => .lt
  | _ :: _, [] => .gt
  | x :: left, y :: right => if x = y then compareLists cmp left right else cmp x y

theorem compareLists_self (left : List α) : compareLists cmp left left = .eq := by
  induction left with
  | nil => rfl
  | cons x left ih => rw [compareLists, if_pos rfl, ih]

theorem compareLists_swap [OrientedCmp cmp] (left right : List α) :
    compareLists cmp left right = (compareLists cmp right left).swap := by
  induction left generalizing right with
  | nil => cases right <;> rfl
  | cons x left ih =>
    cases right with
    | nil => rfl
    | cons y right =>
      rw [compareLists, compareLists]
      rcases eq_or_ne x y with rfl | hNe
      · rw [if_pos rfl, if_pos rfl, ih]
      · rw [if_neg hNe, if_neg hNe.symm]
        exact OrientedCmp.eq_swap

theorem compareLists_gt_trans [TransCmp cmp] (hFirst : compareLists cmp left middle = .gt)
    (hSecond : compareLists cmp middle right = .gt) : compareLists cmp left right = .gt := by
  induction left generalizing middle right with
  | nil => cases middle <;> simp [compareLists] at hFirst
  | cons x left ih =>
    obtain _ | ⟨y, middle⟩ := middle
    · cases right <;> simp [compareLists] at hSecond
    obtain _ | ⟨z, right⟩ := right
    · rfl
    rw [compareLists] at hFirst hSecond ⊢
    rcases eq_or_ne x y with rfl | hXY
    · rcases eq_or_ne x z with rfl | hXZ
      · rw [if_pos rfl] at hFirst hSecond ⊢
        exact ih hFirst hSecond
      · rwa [if_neg hXZ] at hSecond ⊢
    · rw [if_neg hXY] at hFirst
      rcases eq_or_ne y z with rfl | hYZ
      · rwa [if_neg hXY]
      · rw [if_neg hYZ] at hSecond
        have hWins := TransCmp.gt_trans hFirst hSecond
        rw [if_neg (by rintro rfl; simp [ReflCmp.compare_self] at hWins), hWins]

/-- Where equal members are spelled alike, the first difference is the first place that does not compare as equal. -/
theorem compareLists_eq_compareLex [ReflCmp cmp] (hAlike : ∀ x ∈ left, ∀ y ∈ right, cmp x y = .eq → x = y) :
    compareLists cmp left right = List.compareLex cmp left right := by
  induction left generalizing right with
  | nil => cases right <;> rfl
  | cons x left ih =>
    cases right with
    | nil => rfl
    | cons y right =>
      have hRest := ih fun u hU v hV => hAlike u (List.mem_cons_of_mem _ hU) v (List.mem_cons_of_mem _ hV)
      rw [compareLists, List.compareLex_cons_cons, hRest]
      rcases eq_or_ne x y with rfl | hNe
      · simp [ReflCmp.compare_self]
      · rw [if_neg hNe]
        have hDiffers : cmp x y ≠ .eq := fun hEq => hNe (hAlike x List.mem_cons_self y List.mem_cons_self hEq)
        cases hCmp : cmp x y <;> simp_all

theorem compareLists_isLE_trans [TransCmp cmp]
    (hAlike : ∀ x ∈ left ++ middle ++ right, ∀ y ∈ left ++ middle ++ right, cmp x y = .eq → x = y)
    (hFirst : (compareLists cmp left middle).isLE = true) (hSecond : (compareLists cmp middle right).isLE = true) :
    (compareLists cmp left right).isLE = true := by
  have hPair : ∀ {l r : List α}, l ⊆ left ++ middle ++ right → r ⊆ left ++ middle ++ right →
      compareLists cmp l r = List.compareLex cmp l r := fun hLeft hRight =>
    compareLists_eq_compareLex fun x hX y hY => hAlike x (hLeft hX) y (hRight hY)
  rw [hPair (by simp) (by simp)] at hFirst hSecond ⊢
  exact TransCmp.isLE_trans hFirst hSecond

end Compare

end FirstDifference
