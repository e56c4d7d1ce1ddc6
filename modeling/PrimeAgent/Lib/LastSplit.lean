import Mathlib.Data.List.Basic

/-! # Splitting a list at its last match

A backward search over a list: the last element a test holds of, between what comes before it and
what comes after.
-/
namespace LastSplit

variable {α β : Type*} {p : α → Bool} {xs : List α}

def splitAtLast (p : α → Bool) : List α → Option (List α × α × List α)
  | [] => none
  | x :: xs =>
    match splitAtLast p xs with
    | some (before, y, after) => some (x :: before, y, after)
    | none => if p x then some ([], x, xs) else none

theorem splitAtLast_sound (p : α → Bool) (xs : List α) :
    match splitAtLast p xs with
    | some (before, x, after) => xs = before ++ x :: after ∧ p x = true ∧ ∀ y ∈ after, p y = false
    | none => ∀ y ∈ xs, p y = false := by
  induction xs with
  | nil => simp [splitAtLast]
  | cons z xs ih =>
    rw [splitAtLast]
    cases hRest : splitAtLast p xs with
    | some found =>
      rw [hRest] at ih
      obtain ⟨rfl, hTest, hAfter⟩ := ih
      exact ⟨rfl, hTest, hAfter⟩
    | none =>
      rw [hRest] at ih
      cases hTest : p z with
      | true => exact ⟨rfl, hTest, ih⟩
      | false => simpa [hTest] using ih

theorem splitAtLast_eq_none (hNone : ∀ y ∈ xs, p y = false) :
    splitAtLast p xs = none := by
  have h := splitAtLast_sound p xs
  cases hSplit : splitAtLast p xs with
  | none => rfl
  | some found =>
    rw [hSplit] at h
    obtain ⟨rfl, hTest, _⟩ := h
    rw [hNone found.2.1 (by simp)] at hTest
    cases hTest

theorem splitAtLast_append (before : List α) {x : α} {after : List α} (hTest : p x = true)
    (hAfter : ∀ y ∈ after, p y = false) : splitAtLast p (before ++ x :: after) = some (before, x, after) := by
  induction before with
  | nil => rw [List.nil_append, splitAtLast, splitAtLast_eq_none hAfter]; simp [hTest]
  | cons b before ih => rw [List.cons_append, splitAtLast, ih]

theorem splitAtLast_eq_some_iff {xs before after : List α} {x : α} :
    splitAtLast p xs = some (before, x, after) ↔
      xs = before ++ x :: after ∧ p x = true ∧ ∀ y ∈ after, p y = false := by
  constructor
  · intro h
    have hSound := splitAtLast_sound p xs
    rwa [h] at hSound
  · rintro ⟨rfl, hTest, hAfter⟩
    exact splitAtLast_append before hTest hAfter

theorem splitAtLast_eq_none_iff :
    splitAtLast p xs = none ↔ ∀ y ∈ xs, p y = false := by
  constructor
  · intro h
    have hSound := splitAtLast_sound p xs
    rwa [h] at hSound
  · exact splitAtLast_eq_none

theorem splitAtLast_map (p : β → Bool) (f : α → β) (xs : List α) :
    splitAtLast p (xs.map f)
      = (splitAtLast (fun x => p (f x)) xs).map fun found => (found.1.map f, f found.2.1, found.2.2.map f) := by
  cases h : splitAtLast (fun x => p (f x)) xs with
  | none =>
    rw [splitAtLast_eq_none_iff] at h
    exact splitAtLast_eq_none (by simpa using h)
  | some found =>
    obtain ⟨before, x, after⟩ := found
    obtain ⟨rfl, hTest, hAfter⟩ := splitAtLast_eq_some_iff.mp h
    rw [List.map_append, List.map_cons, splitAtLast_append (before.map f) hTest (by simpa using hAfter)]
    rfl

theorem splitAtLast_filter {p q : α → Bool} (xs : List α) (hKeep : ∀ x ∈ xs, p x = true → q x = true) :
    splitAtLast p (xs.filter q)
      = (splitAtLast p xs).map fun found => (found.1.filter q, found.2.1, found.2.2.filter q) := by
  cases h : splitAtLast p xs with
  | none =>
    rw [splitAtLast_eq_none_iff] at h
    exact splitAtLast_eq_none fun y hy => h y (List.mem_filter.mp hy).1
  | some found =>
    obtain ⟨before, x, after⟩ := found
    obtain ⟨rfl, hTest, hAfter⟩ := splitAtLast_eq_some_iff.mp h
    rw [List.filter_append, List.filter_cons_of_pos (hKeep x (by simp) hTest),
      splitAtLast_append (before.filter q) hTest fun y hy => hAfter y (List.mem_filter.mp hy).1]
    rfl

theorem splitAtLast_concat (p : α → Bool) (xs ys : List α) :
    splitAtLast p (xs ++ ys) = match splitAtLast p ys with
      | some (before, y, after) => some (xs ++ before, y, after)
      | none => (splitAtLast p xs).map fun found => (found.1, found.2.1, found.2.2 ++ ys) := by
  cases hLater : splitAtLast p ys with
  | some found =>
    obtain ⟨before, y, after⟩ := found
    obtain ⟨rfl, hTest, hAfter⟩ := splitAtLast_eq_some_iff.mp hLater
    exact splitAtLast_eq_some_iff.mpr ⟨(List.append_assoc ..).symm, hTest, hAfter⟩
  | none =>
    have hNone := splitAtLast_eq_none_iff.mp hLater
    cases hEarlier : splitAtLast p xs with
    | none =>
      exact splitAtLast_eq_none fun y hMem =>
        (List.mem_append.mp hMem).elim (splitAtLast_eq_none_iff.mp hEarlier y) (hNone y)
    | some found =>
      obtain ⟨before, x, after⟩ := found
      obtain ⟨rfl, hTest, hAfter⟩ := splitAtLast_eq_some_iff.mp hEarlier
      refine splitAtLast_eq_some_iff.mpr ⟨by rw [List.append_assoc, List.cons_append], hTest, fun y hMem => ?_⟩
      exact (List.mem_append.mp hMem).elim (hAfter y) (hNone y)

theorem find?_reverse (p : α → Bool) (xs : List α) :
    xs.reverse.find? p = (splitAtLast p xs).map fun found => found.2.1 := by
  cases hSplit : splitAtLast p xs with
  | none => simpa [List.find?_eq_none] using splitAtLast_eq_none_iff.mp hSplit
  | some found =>
    obtain ⟨before, x, after⟩ := found
    obtain ⟨rfl, hTest, hAfter⟩ := splitAtLast_eq_some_iff.mp hSplit
    have hNone : after.reverse.find? p = none := by simpa [List.find?_eq_none] using hAfter
    simp [List.find?_append, hNone, hTest]

end LastSplit
