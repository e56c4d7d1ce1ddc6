import Mathlib.Data.List.Induction

/-! # Maps by key

A hash map seen through its lookups. `ofPairs` is what collecting pairs into one gives: the last
pair of a key wins.
-/

def KeyMap (κ α : Type*) := κ → Option α

namespace KeyMap

variable {κ α : Type*}

def empty : KeyMap κ α :=
  fun _ => none

def get (m : KeyMap κ α) (k : κ) : Option α :=
  m k

def contains (m : KeyMap κ α) (k : κ) : Bool :=
  (m.get k).isSome

@[ext] theorem ext {m n : KeyMap κ α} (h : ∀ k, m.get k = n.get k) : m = n :=
  funext h

@[simp] theorem get_empty (k : κ) : (empty : KeyMap κ α).get k = none := rfl

variable [DecidableEq κ]

def insert (m : KeyMap κ α) (k : κ) (v : α) : KeyMap κ α :=
  fun k' => if k' = k then some v else m k'

def remove (m : KeyMap κ α) (k : κ) : KeyMap κ α :=
  fun k' => if k' = k then none else m k'

def ofPairs (pairs : List (κ × α)) : KeyMap κ α :=
  pairs.foldl (fun m p => m.insert p.1 p.2) empty

@[simp] theorem get_insert_self (m : KeyMap κ α) (k : κ) (v : α) : (m.insert k v).get k = some v :=
  if_pos rfl

theorem get_insert_of_ne (m : KeyMap κ α) {k k' : κ} (h : k' ≠ k) (v : α) :
    (m.insert k v).get k' = m.get k' :=
  if_neg h

theorem get_insert (m : KeyMap κ α) (k k' : κ) (v : α) :
    (m.insert k v).get k' = if k' = k then some v else m.get k' := rfl

theorem get_remove (m : KeyMap κ α) (k k' : κ) :
    (m.remove k).get k' = if k' = k then none else m.get k' := rfl

@[simp] theorem ofPairs_nil : (ofPairs [] : KeyMap κ α) = empty := rfl

theorem ofPairs_concat (pairs : List (κ × α)) (k : κ) (v : α) :
    ofPairs (pairs ++ [(k, v)]) = (ofPairs pairs).insert k v := by
  rw [ofPairs, List.foldl_append]
  rfl

theorem get_ofPairs_eq_some_iff (pairs : List (κ × α)) (k : κ) (v : α) :
    (ofPairs pairs).get k = some v ↔ ∃ before after, pairs = before ++ (k, v) :: after ∧ ∀ p ∈ after, p.1 ≠ k := by
  induction pairs using List.reverseRecOn with
  | nil => simp
  | append_singleton pairs p ih =>
    obtain ⟨l, w⟩ := p
    rw [ofPairs_concat, get_insert]
    by_cases hKey : k = l
    · subst hKey
      rw [if_pos rfl]
      constructor
      · intro h
        obtain rfl := Option.some.inj h
        exact ⟨pairs, [], rfl, by simp⟩
      · rintro ⟨before, after, hEq, hAfter⟩
        rcases List.eq_nil_or_concat after with rfl | ⟨after, q, rfl⟩
        · have := List.append_inj' hEq rfl
          simp at this
          rw [this.2]
        · have hEq' : pairs ++ [(k, w)] = (before ++ (k, v) :: after) ++ [q] := by simpa using hEq
          have hLast : (k, w) = q := by simpa using (List.append_inj' hEq' rfl).2
          exact absurd (hLast ▸ rfl) (hAfter q (by simp))
    · rw [if_neg hKey, ih]
      constructor
      · rintro ⟨before, after, rfl, hAfter⟩
        refine ⟨before, after ++ [(l, w)], by simp, ?_⟩
        intro p hp
        rcases List.mem_append.mp hp with hp | hp
        · exact hAfter p hp
        · rw [List.mem_singleton.mp hp]
          exact fun h => hKey h.symm
      · rintro ⟨before, after, hEq, hAfter⟩
        rcases List.eq_nil_or_concat after with rfl | ⟨after, q, rfl⟩
        · have := List.append_inj' hEq rfl
          simp at this
          exact absurd this.2.1.symm hKey
        · have hEq' : pairs ++ [(l, w)] = (before ++ (k, v) :: after) ++ [q] := by simpa using hEq
          have := (List.append_inj' hEq' rfl).1
          exact ⟨before, after, this, fun p hp => hAfter p (by simp [hp])⟩

theorem get_ofPairs_eq_none_iff (pairs : List (κ × α)) (k : κ) :
    (ofPairs pairs).get k = none ↔ ∀ p ∈ pairs, p.1 ≠ k := by
  induction pairs using List.reverseRecOn with
  | nil => simp
  | append_singleton pairs p ih =>
    obtain ⟨l, w⟩ := p
    rw [ofPairs_concat, get_insert]
    by_cases hKey : k = l
    · simp [hKey]
    · rw [if_neg hKey, ih]
      simp only [List.mem_append, List.mem_singleton]
      constructor
      · rintro h p (hp | rfl)
        · exact h p hp
        · exact fun h => hKey h.symm
      · exact fun h p hp => h p (Or.inl hp)

end KeyMap
