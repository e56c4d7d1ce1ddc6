import Mathlib.Data.List.Basic
import Mathlib.Data.List.Pairwise
import Mathlib.Order.Basic

/-! # The partition point of a list

`slice::partition_point` as the standard library runs it: the search keeps a base and a size, and
halves the size. On a list that is partitioned by the test it returns the length of the true part.
-/
namespace BinarySearch

variable {α : Type*} {xs ys : List Nat}

/-- `while size > 1 { … }`; `size` steps of fuel are enough. -/
def narrow (test : Nat → Bool) : Nat → Nat → Nat → Nat
  | 0, base, _ => base
  | fuel + 1, base, size =>
    if 1 < size then
      let half := size / 2
      narrow test fuel (if test (base + half) then base + half else base) (size - half)
    else base

def partitionPoint (p : α → Bool) (xs : List α) : Nat :=
  let test := fun i => (xs[i]?).any p
  let base := narrow test xs.length 0 xs.length
  if xs.isEmpty then 0 else base + (if test base then 1 else 0)

/-- The bracket the loop keeps around the point `k` where the test turns false. -/
structure Bracket (k base size : Nat) : Prop where
  below : base = 0 ∨ base < k
  above : k ≤ base + size

theorem narrow_bracket {test : Nat → Bool} {k bound : Nat} (hTest : ∀ i < bound, test i = true ↔ i < k)
    (fuel : Nat) : ∀ base size, size ≤ fuel → 0 < size → base + size ≤ bound → Bracket k base size →
      Bracket k (narrow test fuel base size) 1 ∧ narrow test fuel base size < bound := by
  induction fuel with
  | zero => intro base size hFuel hPos; omega
  | succ fuel ih =>
    intro base size hFuel hPos hBound hBracket
    obtain ⟨hBelow, hAbove⟩ := hBracket
    rw [narrow]
    by_cases hSize : 1 < size
    · rw [if_pos hSize]
      have hHalf : 0 < size / 2 ∧ size / 2 < size := by omega
      have hMid := hTest (base + size / 2) (by omega)
      by_cases hLt : base + size / 2 < k
      · simp only [hMid.mpr hLt, if_true]
        exact ih _ _ (by omega) (by omega) (by omega) ⟨Or.inr hLt, by omega⟩
      · have hFalse : test (base + size / 2) = false := by
          rw [← Bool.not_eq_true]
          exact fun h => hLt (hMid.mp h)
        simp only [hFalse, Bool.false_eq_true, if_false]
        exact ih _ _ (by omega) (by omega) (by omega) ⟨hBelow, by omega⟩
    · rw [if_neg hSize]
      exact ⟨⟨hBelow, by omega⟩, by omega⟩

theorem partitionPoint_append {p : α → Bool} {ys zs : List α} (hTrue : ∀ y ∈ ys, p y = true)
    (hFalse : ∀ z ∈ zs, p z = false) : partitionPoint p (ys ++ zs) = ys.length := by
  have hTest : ∀ i < (ys ++ zs).length, ((ys ++ zs)[i]?).any p = true ↔ i < ys.length := by
    intro i hi
    rw [List.getElem?_append]
    split
    · rename_i hLt
      simp [hTrue _ (List.getElem_mem hLt), hLt]
    · rename_i hGe
      rw [List.length_append] at hi
      have hIdx : i - ys.length < zs.length := by omega
      simp [List.getElem?_eq_getElem hIdx, hFalse _ (List.getElem_mem hIdx), hGe]
  unfold partitionPoint
  by_cases hEmpty : (ys ++ zs).isEmpty
  · rw [List.isEmpty_iff, List.append_eq_nil_iff] at hEmpty
    simp [hEmpty]
  · have hLen : 0 < (ys ++ zs).length := by
      rw [List.isEmpty_iff, ← List.length_eq_zero_iff] at hEmpty
      omega
    obtain ⟨⟨hBelow, hAbove⟩, hIn⟩ := narrow_bracket hTest (ys ++ zs).length 0 (ys ++ zs).length
      (Nat.le_refl _) hLen (by omega) ⟨Or.inl rfl, by simp⟩
    have hAt := hTest _ hIn
    simp only [hEmpty, Bool.false_eq_true, if_false]
    split
    · rename_i hYes
      have := hAt.mp hYes
      omega
    · rename_i hNo
      have : ¬ _ := fun h => hNo (hAt.mpr h)
      omega

theorem take_partitionPoint_lt {c : Nat} (hSorted : (xs ++ c :: ys).Pairwise (· < ·)) :
    (xs ++ c :: ys).take (partitionPoint (fun i => decide (i < c)) (xs ++ c :: ys)) = xs := by
  rw [List.pairwise_append] at hSorted
  obtain ⟨_, hRight, hCross⟩ := hSorted
  rw [partitionPoint_append, List.take_left]
  · intro y hy
    exact decide_eq_true (hCross y hy c (List.mem_cons_self ..))
  · intro z hz
    rcases List.mem_cons.mp hz with rfl | hz
    · simp
    · have := List.rel_of_pairwise_cons hRight hz
      simp; omega

theorem drop_partitionPoint_le {c : Nat} (hSorted : (xs ++ c :: ys).Pairwise (· < ·)) :
    (xs ++ c :: ys).drop (partitionPoint (fun i => decide (i ≤ c)) (xs ++ c :: ys)) = ys := by
  rw [List.pairwise_append] at hSorted
  obtain ⟨_, hRight, hCross⟩ := hSorted
  have hSplit : xs ++ c :: ys = (xs ++ [c]) ++ ys := by simp
  rw [hSplit, partitionPoint_append, List.drop_left]
  · intro y hy
    rcases List.mem_append.mp hy with hy | hy
    · exact decide_eq_true (Nat.le_of_lt (hCross y hy c (List.mem_cons_self ..)))
    · rw [List.mem_singleton.mp hy]
      exact decide_eq_true (Nat.le_refl c)
  · intro z hz
    have := List.rel_of_pairwise_cons hRight hz
    simp; omega

end BinarySearch
