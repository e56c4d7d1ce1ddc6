import PrimeAgent.Lib.KeyMap
import Mathlib.Data.List.Nodup

/-! # Lists of keyed records

Records in the order they came in, replaced in place by key or changed where a test holds, with an index of their
positions.
-/
namespace PrimeAgent.Keyed

variable {α κ : Type}

def updateWhere (p : α → Bool) (f : α → α) (l : List α) : List α :=
  l.map fun a => if p a then f a else a

def upsert [DecidableEq κ] (key : α → κ) (a : α) (l : List α) : List α :=
  if l.any (key · = key a) then updateWhere (key · = key a) (fun _ => a) l else l ++ [a]

variable {key : α → κ} {p : α → Bool} {f : α → α} {l : List α}

theorem mem_updateWhere {b : α} :
    b ∈ updateWhere p f l ↔ ∃ a ∈ l, b = if p a then f a else a := by
  unfold updateWhere
  rw [List.mem_map]
  constructor <;> exact fun ⟨a, hMem, hSame⟩ => ⟨a, hMem, hSame.symm⟩

theorem map_key_updateWhere (hKeep : ∀ a, p a = true → key (f a) = key a) :
    (updateWhere p f l).map key = l.map key := by
  unfold updateWhere
  rw [List.map_map]
  apply List.map_congr_left
  intro a _
  simp only [Function.comp]
  split
  next hTest => exact hKeep a hTest
  next => rfl

theorem updateWhere_congr {q : α → Bool} {g : α → α}
    (hSame : ∀ a ∈ l, (if p a then f a else a) = if q a then g a else a) : updateWhere p f l = updateWhere q g l :=
  List.map_congr_left hSame

theorem updateWhere_eq_self (hSame : ∀ a ∈ l, p a = true → f a = a) : updateWhere p f l = l := by
  unfold updateWhere
  conv_rhs => rw [← List.map_id l]
  apply List.map_congr_left
  intro a hMem
  split
  next hTest => exact hSame a hMem hTest
  next => rfl

section Decidable

variable [DecidableEq κ]

theorem foldl_updateWhere {keys : List κ} (hNodup : keys.Nodup) (hKeep : ∀ a, key (f a) = key a) (l : List α) :
    keys.foldl (fun l k => updateWhere (key · = k) f l) l = updateWhere (key · ∈ keys) f l := by
  induction keys generalizing l with
  | nil => exact (updateWhere_eq_self fun a _ hNone => by simp at hNone).symm
  | cons k keys ih =>
    obtain ⟨hNew, hNodup⟩ := List.nodup_cons.mp hNodup
    rw [List.foldl_cons, ih hNodup]
    unfold updateWhere
    rw [List.map_map]
    apply List.map_congr_left
    intro a _
    simp only [Function.comp, decide_eq_true_eq, List.mem_cons]
    by_cases hHere : key a = k
    · rw [if_pos hHere, hKeep, hHere, if_neg hNew, if_pos (.inl rfl)]
    · simp only [hHere, if_false, false_or]

theorem updateWhere_filter (hKeys : (l.map key).Nodup) :
    updateWhere (key · ∈ (l.filter p).map key) f l = updateWhere p f l := by
  apply updateWhere_congr
  intro a hMem
  have hBoth : key a ∈ (l.filter p).map key ↔ p a = true := by
    constructor
    · intro hIn
      obtain ⟨b, hPasses, hSame⟩ := List.mem_map.mp hIn
      obtain ⟨hOther, hTest⟩ := List.mem_filter.mp hPasses
      rwa [← List.inj_on_of_nodup_map hKeys hOther hMem hSame]
    · exact fun hTest => List.mem_map_of_mem (List.mem_filter.mpr ⟨hMem, hTest⟩)
  simp only [hBoth, decide_eq_true_eq]

theorem nodup_upsert {a : α} (hKeys : (l.map key).Nodup) : ((upsert key a l).map key).Nodup := by
  unfold upsert
  split
  next =>
    rwa [map_key_updateWhere]
    intro b hSame
    exact (of_decide_eq_true hSame).symm
  next hNew =>
    rw [List.map_append]
    apply hKeys.append (List.nodup_singleton _)
    intro k hOld hSame
    obtain ⟨b, hMem, rfl⟩ := List.mem_map.mp hOld
    apply hNew
    simp only [List.any_eq_true]
    exact ⟨b, hMem, decide_eq_true (List.mem_singleton.mp hSame)⟩

theorem mem_upsert {a b : α} (hMem : b ∈ upsert key a l) : b = a ∨ (b ∈ l ∧ key b ≠ key a) := by
  unfold upsert at hMem
  split at hMem
  next =>
    obtain ⟨c, hOld, rfl⟩ := mem_updateWhere.mp hMem
    split
    next => exact .inl rfl
    next hOther => exact .inr ⟨hOld, by simpa using hOther⟩
  next hNew =>
    obtain hOld | hSame := List.mem_append.mp hMem
    · refine .inr ⟨hOld, fun hKey => hNew ?_⟩
      simp only [List.any_eq_true]
      exact ⟨b, hOld, decide_eq_true hKey⟩
    · exact .inl (List.mem_singleton.mp hSame)

end Decidable

theorem modify_eq_updateWhere {i : Nat} (hAlone : ∀ (j : Nat) (a : α), l[j]? = some a → (p a = true ↔ j = i)) :
    l.modify i f = updateWhere p f l := by
  apply List.ext_getElem?
  intro j
  unfold updateWhere
  rw [List.getElem?_modify, List.getElem?_map]
  cases hAt : l[j]? with
  | none => rfl
  | some a =>
    simp only [Option.map_eq_map, Option.map_some]
    by_cases hHere : i = j
    · rw [if_pos hHere, if_pos ((hAlone j a hAt).mpr hHere.symm)]
    · rw [if_neg hHere, if_neg fun hTest => hHere ((hAlone j a hAt).mp hTest).symm]

/-! ## The index of a list -/

def Indexed (key : α → κ) (index : KeyMap κ Nat) (l : List α) : Prop :=
  ∀ k i, index.get k = some i ↔ (l[i]?).map key = some k

theorem indexed_nil : Indexed key .empty ([] : List α) := by
  intro k i
  simp

variable {index : KeyMap κ Nat}

theorem Indexed.nodup (hIndexed : Indexed key index l) : (l.map key).Nodup := by
  apply List.nodup_iff_injective_getElem.mpr
  intro i j hSame
  have hAt : ∀ i : Fin (l.map key).length, (l[i.val]?).map key = some (l.map key)[i] := by
    intro i
    rw [← List.getElem?_map]
    exact List.getElem?_eq_getElem i.isLt
  have hFirst := (hIndexed _ _).mpr (hAt i)
  have hSecond := (hIndexed _ _).mpr (hAt j)
  have hKeys : (l.map key)[i] = (l.map key)[j] := hSame
  rw [hKeys] at hFirst
  exact Fin.ext (Option.some.inj (hFirst.symm.trans hSecond))

theorem Indexed.alone [DecidableEq κ] (hIndexed : Indexed key index l) {k : κ} {i : Nat}
    (hGet : index.get k = some i) (j : Nat) (a : α) (hAt : l[j]? = some a) : decide (key a = k) = true ↔ j = i := by
  rw [decide_eq_true_iff]
  constructor
  · intro hKey
    have hHere := (hIndexed k j).mpr (by rw [hAt, Option.map_some, hKey])
    exact Option.some.inj (hHere.symm.trans hGet)
  · rintro rfl
    have hHere := (hIndexed k j).mp hGet
    rw [hAt] at hHere
    exact Option.some.inj hHere

theorem Indexed.congr {l' : List α} (hIndexed : Indexed key index l) (hKeys : l'.map key = l.map key) :
    Indexed key index l' := by
  intro k i
  rw [hIndexed k i, ← List.getElem?_map, ← List.getElem?_map, hKeys]

theorem Indexed.any_iff [DecidableEq κ] (hIndexed : Indexed key index l) (k : κ) :
    l.any (key · = k) = true ↔ (index.get k).isSome := by
  simp only [List.any_eq_true, decide_eq_true_eq, Option.isSome_iff_exists]
  constructor
  · rintro ⟨a, hMem, hKey⟩
    obtain ⟨i, hAt⟩ := List.mem_iff_getElem?.mp hMem
    exact ⟨i, (hIndexed k i).mpr (by rw [hAt, Option.map_some, hKey])⟩
  · rintro ⟨i, hGet⟩
    obtain ⟨a, hAt, hKey⟩ := Option.map_eq_some_iff.mp ((hIndexed k i).mp hGet)
    exact ⟨a, List.mem_of_getElem? hAt, hKey⟩

theorem Indexed.concat [DecidableEq κ] (hIndexed : Indexed key index l) {a : α} (hNew : index.get (key a) = none) :
    Indexed key (index.insert (key a) l.length) (l ++ [a]) := by
  intro k i
  rw [KeyMap.get_insert]
  by_cases hLast : i = l.length
  · subst hLast
    rw [List.getElem?_concat_length, Option.map_some]
    split
    next hKey => simp [hKey]
    next hKey =>
      constructor
      · intro hGet
        have hOut := (hIndexed k _).mp hGet
        rw [List.getElem?_eq_none (Nat.le_refl _)] at hOut
        cases hOut
      · intro hSame
        exact absurd (Option.some.inj hSame).symm hKey
  · have hAt : (l ++ [a])[i]? = l[i]? := by
      rcases Nat.lt_or_gt_of_ne hLast with hLess | hMore
      · exact List.getElem?_append_left hLess
      · rw [List.getElem?_eq_none (by simp; omega), List.getElem?_eq_none (by omega)]
    rw [hAt, ← hIndexed k i]
    split
    next hKey =>
      rw [hKey, hNew]
      simp only [reduceCtorEq, iff_false, Option.some.injEq]
      omega
    next => rfl

end PrimeAgent.Keyed
