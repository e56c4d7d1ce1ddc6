import Mathlib.Order.Lattice
import Mathlib.Data.List.Basic

/-! # Ordered sets

A finite set as its elements in ascending order.
-/
namespace PrimeAgent

structure OrderedSet (α : Type) [LinearOrder α] where
  toList : List α
  ascending : toList.Pairwise (· < ·)

namespace OrderedSet

variable {α : Type} [LinearOrder α] {l : List α} {s : OrderedSet α}

def place (a : α) : List α → List α
  | [] => [a]
  | b :: rest => if a < b then a :: b :: rest else if a = b then b :: rest else b :: place a rest

theorem mem_place {a b : α} : b ∈ place a l ↔ b = a ∨ b ∈ l := by
  induction l with
  | nil => rw [place, List.mem_singleton, or_iff_left List.not_mem_nil]
  | cons c rest ih =>
    rw [place]
    split
    · exact List.mem_cons
    · split
      · rename_i hEq
        subst hEq
        rw [List.mem_cons]
        grind
      · rw [List.mem_cons, ih, List.mem_cons]
        grind

theorem place_ascending {a : α} (hAscending : l.Pairwise (· < ·)) : (place a l).Pairwise (· < ·) := by
  induction l with
  | nil => exact List.pairwise_singleton _ _
  | cons c rest ih =>
    obtain ⟨hFirst, hRest⟩ := List.pairwise_cons.mp hAscending
    rw [place]
    split
    · rename_i hLt
      refine List.pairwise_cons.mpr ⟨fun b hMem => ?_, hAscending⟩
      obtain rfl | hMem := List.mem_cons.mp hMem
      · exact hLt
      · exact lt_trans hLt (hFirst b hMem)
    · split
      · exact hAscending
      · rename_i hNot hNe
        refine List.pairwise_cons.mpr ⟨fun b hMem => ?_, ih hRest⟩
        obtain rfl | hMem := mem_place.mp hMem
        · exact lt_of_le_of_ne (not_lt.mp hNot) (Ne.symm hNe)
        · exact hFirst b hMem

def empty : OrderedSet α :=
  ⟨[], List.Pairwise.nil⟩

def insert (s : OrderedSet α) (a : α) : OrderedSet α :=
  ⟨place a s.toList, place_ascending s.ascending⟩

def extend (s : OrderedSet α) (l : List α) : OrderedSet α :=
  l.foldl insert s

theorem mem_insert {a b : α} : b ∈ (s.insert a).toList ↔ b = a ∨ b ∈ s.toList :=
  mem_place

theorem mem_extend {b : α} : b ∈ (s.extend l).toList ↔ b ∈ s.toList ∨ b ∈ l := by
  induction l generalizing s with
  | nil => rw [extend, List.foldl_nil, or_iff_left List.not_mem_nil]
  | cons a l ih =>
    rw [extend, List.foldl_cons, ← extend, ih, mem_insert, List.mem_cons]
    tauto

end OrderedSet

end PrimeAgent
