import Mathlib.Data.List.Basic

/-! # Pools of tasks

One task of a pool moves on, and leaves in its place what it becomes.
-/
namespace PrimeAgent.Pool

variable {α : Type}

def Replaced (old : List α) (a : α) (next new : List α) : Prop :=
  ∃ before after, old = before ++ a :: after ∧ new = before ++ (next ++ after)

variable {old next new : List α} {a b : α}

section

variable (hReplaced : Replaced old a next new)

include hReplaced

theorem Replaced.mem_old : a ∈ old := by
  obtain ⟨before, after, rfl, -⟩ := hReplaced
  exact List.mem_append_right _ (List.mem_cons_self ..)

theorem Replaced.mem_new (hMem : b ∈ new) : b ∈ next ∨ b ∈ old := by
  obtain ⟨before, after, rfl, rfl⟩ := hReplaced
  obtain hBefore | hRest := List.mem_append.mp hMem
  · exact .inr (List.mem_append_left _ hBefore)
  · obtain hNext | hAfter := List.mem_append.mp hRest
    · exact .inl hNext
    · exact .inr (List.mem_append_right _ (List.mem_cons_of_mem _ hAfter))

theorem Replaced.mem_stays (hMem : b ∈ old) : b = a ∨ b ∈ new := by
  obtain ⟨before, after, rfl, rfl⟩ := hReplaced
  obtain hBefore | hRest := List.mem_append.mp hMem
  · exact .inr (List.mem_append_left _ hBefore)
  · obtain hHere | hAfter := List.mem_cons.mp hRest
    · exact .inl hHere
    · exact .inr (List.mem_append_right _ (List.mem_append_right _ hAfter))

theorem Replaced.mem_next (hMem : b ∈ next) : b ∈ new := by
  obtain ⟨before, after, -, rfl⟩ := hReplaced
  exact List.mem_append_right _ (List.mem_append_left _ hMem)

end

end PrimeAgent.Pool
