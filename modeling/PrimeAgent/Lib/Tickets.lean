import Mathlib.Data.Multiset.Basic
import Mathlib.Data.Multiset.UnionInter

/-! # Numbers taken and handed over

Numbers are taken in rising order, held for a while, and then handed over or dropped. They are handed over in rising
order as long as none is while a lower one is held.
-/
namespace PrimeAgent.Tickets

/-- `last` is the newest number; each number held is above all that were handed over. -/
structure InOrder (last : Nat) (held : Multiset Nat) (handed : List Nat) : Prop where
  held_le : ∀ n ∈ held, n ≤ last
  handed_le : ∀ n ∈ handed, n ≤ last
  held_nodup : held.Nodup
  handed_sorted : handed.Pairwise (· < ·)
  handed_lt : ∀ m ∈ handed, ∀ n ∈ held, m < n

/-- Nothing held is below `n`. -/
def Least (n : Nat) (held : Multiset Nat) : Prop :=
  ∀ m ∈ held, n ≤ m

namespace InOrder

variable {last : Nat} {held held' : Multiset Nat} {handed : List Nat}

theorem start (last : Nat) : InOrder last 0 [] where
  held_le := fun n hMem => absurd hMem (Multiset.notMem_zero n)
  handed_le := by simp
  held_nodup := Multiset.nodup_zero
  handed_sorted := .nil
  handed_lt := by simp

theorem take (hOrder : InOrder last held handed) : InOrder (last + 1) ((last + 1) ::ₘ held) handed where
  held_le := by
    intro n hMem
    obtain rfl | hHeld := Multiset.mem_cons.mp hMem
    · exact le_rfl
    · exact (hOrder.held_le n hHeld).trans (Nat.le_succ last)
  handed_le := fun n hMem => (hOrder.handed_le n hMem).trans (Nat.le_succ last)
  held_nodup := by
    apply Multiset.nodup_cons.mpr
    refine ⟨fun hMem => ?_, hOrder.held_nodup⟩
    have hLe := hOrder.held_le _ hMem
    omega
  handed_sorted := hOrder.handed_sorted
  handed_lt := by
    intro m hHanded n hMem
    obtain rfl | hHeld := Multiset.mem_cons.mp hMem
    · exact Nat.lt_succ_of_le (hOrder.handed_le m hHanded)
    · exact hOrder.handed_lt m hHanded n hHeld

theorem drop (hOrder : InOrder last held handed) (hLess : held' ≤ held) : InOrder last held' handed where
  held_le := fun n hMem => hOrder.held_le n (Multiset.mem_of_le hLess hMem)
  handed_le := hOrder.handed_le
  held_nodup := Multiset.nodup_of_le hLess hOrder.held_nodup
  handed_sorted := hOrder.handed_sorted
  handed_lt := fun m hHanded n hMem => hOrder.handed_lt m hHanded n (Multiset.mem_of_le hLess hMem)

theorem hand {n : Nat} (hOrder : InOrder last (n ::ₘ held) handed) (hLeast : Least n (n ::ₘ held)) :
    InOrder last held (handed ++ [n]) where
  held_le := fun m hMem => hOrder.held_le m (Multiset.mem_cons_of_mem hMem)
  handed_le := by
    intro m hMem
    obtain hHanded | hNew := List.mem_append.mp hMem
    · exact hOrder.handed_le m hHanded
    · rw [List.mem_singleton.mp hNew]
      exact hOrder.held_le n (Multiset.mem_cons_self n held)
  held_nodup := (Multiset.nodup_cons.mp hOrder.held_nodup).2
  handed_sorted := by
    apply List.pairwise_append.mpr
    refine ⟨hOrder.handed_sorted, List.pairwise_singleton _ _, fun m hHanded k hNew => ?_⟩
    rw [List.mem_singleton.mp hNew]
    exact hOrder.handed_lt m hHanded n (Multiset.mem_cons_self n held)
  handed_lt := by
    intro m hMem k hHeld
    have hOld : k ∈ n ::ₘ held := Multiset.mem_cons_of_mem hHeld
    obtain hHanded | hNew := List.mem_append.mp hMem
    · exact hOrder.handed_lt m hHanded k hOld
    · rw [List.mem_singleton.mp hNew]
      have hLe := hLeast k hOld
      have hFresh : n ≠ k := by
        rintro rfl
        exact (Multiset.nodup_cons.mp hOrder.held_nodup).1 hHeld
      omega

end InOrder

end PrimeAgent.Tickets
