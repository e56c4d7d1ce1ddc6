import Mathlib.Data.List.DropRight

/-! # Cutting matches out of a list

The list is read from the left. Where the matcher hits, the match goes and reading resumes behind it; everywhere else
one item is kept.
-/
namespace PrimeAgent

inductive Cut {α : Type} (hit : List α → Option (List α)) : List α → List α → Prop
  | nil (hMiss : hit [] = none) : Cut hit [] []
  | keep {a : α} {l kept : List α} (hMiss : hit (a :: l) = none) (hRest : Cut hit l kept) : Cut hit (a :: l) (a :: kept)
  | drop {l rest kept : List α} (hHit : hit l = some rest) (hRest : Cut hit rest kept) : Cut hit l kept

namespace Cut

variable {α : Type} {hit : List α → Option (List α)} {l kept other : List α}

theorem determined (hCut : Cut hit l kept) (hOther : Cut hit l other) : kept = other := by
  induction hCut generalizing other with
  | nil hMiss =>
    cases hOther with
    | nil => rfl
    | drop hHit => rw [hMiss] at hHit; cases hHit
  | keep hMiss _ ih =>
    cases hOther with
    | keep _ hRest => rw [ih hRest]
    | drop hHit => rw [hMiss] at hHit; cases hHit
  | drop hHit _ ih =>
    cases hOther with
    | nil hMiss | keep hMiss => rw [hMiss] at hHit; cases hHit
    | drop hHit' hRest =>
      rw [hHit] at hHit'
      cases hHit'
      exact ih hRest

theorem keeps {n : Nat} (hMiss : ∀ i < n, hit (l.drop i) = none) (hLength : n ≤ l.length)
    (hRest : Cut hit (l.drop n) kept) : Cut hit l (l.take n ++ kept) := by
  induction n generalizing l with
  | zero => exact hRest
  | succ n ih =>
    cases l with
    | nil => cases hLength
    | cons a l =>
      rw [List.take_succ_cons, List.cons_append]
      refine .keep (hMiss 0 (Nat.succ_pos n)) (ih (fun i hLt => ?_) (Nat.le_of_succ_le_succ hLength) hRest)
      exact hMiss (i + 1) (Nat.succ_lt_succ hLt)

end Cut

/-! ### Runs of one item -/

section Runs

variable {α : Type} {p : α → Bool} {l : List α}

theorem dropWhile_drop {i : Nat} {a : α} (hAt : l[i]? = some a) :
    (l.drop i).dropWhile p = if p a then (l.drop (i + 1)).dropWhile p else l.drop i := by
  obtain ⟨hLt, hGet⟩ := List.getElem?_eq_some_iff.mp hAt
  rw [List.drop_eq_getElem_cons hLt, hGet, List.dropWhile_cons]

theorem dropWhile_upto {i n : Nat} {a : α} (hAt : l[n]? = some a) (hOutside : p a = false) (hLe : i ≤ n) :
    ∃ j, i ≤ j ∧ j ≤ n ∧ (l.drop i).dropWhile p = l.drop j := by
  obtain ⟨k, rfl⟩ := Nat.exists_eq_add_of_le hLe
  induction k generalizing i with
  | zero =>
    refine ⟨i, Nat.le_refl _, Nat.le_refl _, ?_⟩
    rw [Nat.add_zero] at hAt
    rw [dropWhile_drop hAt, hOutside, if_neg Bool.false_ne_true]
  | succ k ih =>
    have hLt : i < l.length := by
      have hEnd := (List.getElem?_eq_some_iff.mp hAt).1
      omega
    rw [dropWhile_drop (List.getElem?_eq_getElem hLt)]
    split
    · obtain ⟨j, hFrom, hTo, hDrop⟩ := @ih (i + 1) (by rwa [Nat.add_right_comm, Nat.add_assoc]) (by omega)
      exact ⟨j, by omega, by omega, hDrop⟩
    · exact ⟨i, Nat.le_refl _, by omega, rfl⟩

theorem dropWhile_run {i n : Nat} {a : α} (hAt : l[n]? = some a) (hOutside : p a = false) (hLe : i ≤ n)
    (hRun : ∀ k, i ≤ k → k < n → ∃ b, l[k]? = some b ∧ p b = true) : (l.drop i).dropWhile p = l.drop n := by
  obtain ⟨k, rfl⟩ := Nat.exists_eq_add_of_le hLe
  induction k generalizing i with
  | zero =>
    rw [Nat.add_zero] at hAt ⊢
    rw [dropWhile_drop hAt, hOutside, if_neg Bool.false_ne_true]
  | succ k ih =>
    obtain ⟨b, hHere, hIn⟩ := hRun i (Nat.le_refl _) (by omega)
    rw [dropWhile_drop hHere, if_pos hIn, ← Nat.add_assoc, Nat.add_right_comm]
    refine ih (by rwa [Nat.add_right_comm, Nat.add_assoc]) (by omega) fun k hFrom hTo => hRun k (by omega) (by omega)

theorem rdropWhile_take {n : Nat} (hLength : n ≤ l.length) : ∃ m, m ≤ n ∧ (l.take n).rdropWhile p = l.take m ∧
    (∀ k, m ≤ k → k < n → ∃ a, l[k]? = some a ∧ p a = true) ∧ (m = 0 ∨ ∃ a, l[m - 1]? = some a ∧ p a = false) := by
  induction n with
  | zero => exact ⟨0, Nat.le_refl _, rfl, fun k _ hLt => absurd hLt (Nat.not_lt_zero k), .inl rfl⟩
  | succ n ih =>
    have hAt := List.getElem?_eq_getElem hLength
    rw [List.take_add_one, hAt, Option.toList_some]
    cases hTest : p l[n] with
    | true =>
      rw [List.rdropWhile_concat_pos _ _ _ hTest]
      obtain ⟨m, hLe, hTake, hRun, hEnd⟩ := ih (Nat.le_of_succ_le hLength)
      refine ⟨m, Nat.le_succ_of_le hLe, hTake, fun k hFrom hTo => ?_, hEnd⟩
      obtain rfl | hLt := Nat.eq_or_lt_of_le (Nat.le_of_lt_succ hTo)
      · exact ⟨_, hAt, hTest⟩
      · exact hRun k hFrom hLt
    | false =>
      rw [List.rdropWhile_concat_neg _ _ _ (by rw [hTest]; exact Bool.false_ne_true)]
      refine ⟨n + 1, Nat.le_refl _, ?_, fun k hFrom hTo => by omega, .inr ⟨_, hAt, hTest⟩⟩
      rw [List.take_add_one, hAt, Option.toList_some]

end Runs

end PrimeAgent
