import Mathlib.Data.List.AList
import PrimeAgent.Lib.KeyMap

/-! # Hash maps

A finite map whose entries can be walked, in an order nothing promises. What it maps is its view, and
putting the walked entries into an empty map gives that view back.
-/

abbrev HashMap (κ α : Type*) := AList fun _ : κ => α

structure IterationOrder where
  arrange : {α : Type} → List α → List α
  perm : ∀ {α : Type} (entries : List α), (arrange entries).Perm entries

def IterationOrder.stored : IterationOrder where
  arrange entries := entries
  perm := List.Perm.refl

namespace HashMap

variable {κ α : Type} [DecidableEq κ]

def view (m : HashMap κ α) : KeyMap κ α :=
  fun k => m.lookup k

def isEmpty (m : HashMap κ α) : Bool :=
  m.entries.isEmpty

def walk (order : IterationOrder) (m : HashMap κ α) : List (κ × α) :=
  order.arrange (m.entries.map fun e => (e.1, e.2))

def values (order : IterationOrder) (m : HashMap κ α) : List α :=
  (walk order m).map Prod.snd

variable (m : HashMap κ α) (k : κ) (v : α)

theorem get_view : (view m).get k = m.lookup k := rfl

@[simp] theorem view_empty : view (∅ : HashMap κ α) = KeyMap.empty := rfl

@[simp] theorem view_insert : view (m.insert k v) = (view m).insert k v := by
  ext1 k'
  rw [get_view, KeyMap.get_insert, get_view]
  by_cases h : k' = k
  · rw [if_pos h, h, AList.lookup_insert]
  · rw [if_neg h, AList.lookup_insert_ne h]

@[simp] theorem view_erase : view (m.erase k) = (view m).remove k := by
  ext1 k'
  rw [get_view, KeyMap.get_remove, get_view]
  by_cases h : k' = k
  · rw [if_pos h, h, AList.lookup_erase]
  · rw [if_neg h, AList.lookup_erase_ne h]

variable {m k v} {key : α → κ}

theorem mem_walk (order : IterationOrder) : (k, v) ∈ walk order m ↔ m.lookup k = some v := by
  rw [walk, (order.perm _).mem_iff, ← Option.mem_def, AList.mem_lookup_iff, List.mem_map]
  constructor
  · rintro ⟨⟨k', v'⟩, hMem, hEq⟩
    obtain ⟨rfl, rfl⟩ := Prod.mk.inj hEq
    exact hMem
  · exact fun hMem => ⟨⟨k, v⟩, hMem, rfl⟩

omit [DecidableEq κ] in
theorem walk_nodup (order : IterationOrder) : ((walk order m).map Prod.fst).Nodup := by
  rw [walk, ((order.perm _).map Prod.fst).nodup_iff, List.map_map]
  exact m.keys_nodup

theorem mem_values (order : IterationOrder) : v ∈ values order m ↔ ∃ k, m.lookup k = some v := by
  rw [values, List.mem_map]
  constructor
  · rintro ⟨⟨k, v'⟩, hMem, rfl⟩
    exact ⟨k, (mem_walk order).mp hMem⟩
  · rintro ⟨k, hLookup⟩
    exact ⟨(k, v), (mem_walk order).mpr hLookup, rfl⟩

theorem map_values (order : IterationOrder) (hKey : ∀ k v, m.lookup k = some v → key v = k) :
    (values order m).map key = (walk order m).map Prod.fst := by
  rw [values, List.map_map]
  refine List.map_congr_left ?_
  rintro ⟨k, v⟩ hMem
  exact hKey k v ((mem_walk order).mp hMem)

theorem nodup_map_values (order : IterationOrder) (hKey : ∀ k v, m.lookup k = some v → key v = k) :
    ((values order m).map key).Nodup := by
  rw [map_values order hKey]
  exact walk_nodup order

theorem isEmpty_iff : isEmpty m = true ↔ ∀ k, m.lookup k = none := by
  rw [isEmpty, List.isEmpty_iff]
  constructor
  · intro hNil k
    rw [show m = ∅ from AList.ext hNil, AList.lookup_empty]
  · intro hNone
    refine List.eq_nil_iff_forall_not_mem.mpr ?_
    rintro ⟨k, v⟩ hMem
    have hSome := AList.mem_lookup_iff.mpr hMem
    rw [hNone k] at hSome
    cases hSome

end HashMap

namespace KeyMap

variable {κ α β : Type} [DecidableEq κ]

theorem get_ofPairs_of_nodup {pairs : List (κ × α)} (hKeys : (pairs.map Prod.fst).Nodup) (k : κ) (v : α) :
    (ofPairs pairs).get k = some v ↔ (k, v) ∈ pairs := by
  rw [get_ofPairs_eq_some_iff]
  constructor
  · rintro ⟨before, after, rfl, -⟩
    exact List.mem_append_right before List.mem_cons_self
  · intro hMem
    obtain ⟨before, after, rfl⟩ := List.append_of_mem hMem
    refine ⟨before, after, rfl, ?_⟩
    rintro p hp hKey
    rw [List.map_append, List.map_cons, List.nodup_append] at hKeys
    exact (List.nodup_cons.mp hKeys.2.1).1 (List.mem_map.mpr ⟨p, hp, hKey⟩)

theorem ofPairs_walk (order : IterationOrder) (m : HashMap κ α) (f : α → β) :
    ofPairs ((HashMap.walk order m).map fun e => (e.1, f e.2)) = fun k => (m.lookup k).map f := by
  ext1 k
  have hKeys : (((HashMap.walk order m).map fun e => (e.1, f e.2)).map Prod.fst).Nodup := by
    rw [List.map_map]
    exact HashMap.walk_nodup order
  refine Option.ext fun w => ?_
  rw [get_ofPairs_of_nodup hKeys, List.mem_map]
  change _ ↔ (m.lookup k).map f = some w
  rw [Option.map_eq_some_iff]
  constructor
  · rintro ⟨⟨k', v⟩, hMem, hEq⟩
    obtain ⟨rfl, rfl⟩ := Prod.mk.inj hEq
    exact ⟨v, (HashMap.mem_walk order).mp hMem, rfl⟩
  · rintro ⟨v, hLookup, rfl⟩
    exact ⟨(k, v), (HashMap.mem_walk order).mpr hLookup, rfl⟩

end KeyMap

namespace HashMap

variable {κ α : Type} [DecidableEq κ]

theorem view_foldl_insert (pairs : List (κ × α)) (m : HashMap κ α) :
    view (pairs.foldl (fun m p => m.insert p.1 p.2) m) = pairs.foldl (fun v p => v.insert p.1 p.2) (view m) := by
  induction pairs generalizing m with
  | nil => rfl
  | cons p pairs ih => rw [List.foldl_cons, ih, view_insert, List.foldl_cons]

/-- What a map maps, through `f`. -/
def mapView {β : Type} (f : α → β) (m : HashMap κ α) : KeyMap κ β :=
  fun k => (m.lookup k).map f

theorem mapView_congr {β : Type} (f : α → β) {m m' : HashMap κ α} (h : view m = view m') : mapView f m = mapView f m' := by
  ext1 k
  exact congrArg (Option.map f) (congrFun h k)

theorem mapView_insert {β : Type} (f : α → β) (m : HashMap κ α) (k : κ) (v : α) :
    mapView f (m.insert k v) = (mapView f m).insert k (f v) := by
  ext1 k'
  rw [KeyMap.get_insert]
  by_cases h : k' = k
  · rw [if_pos h, h]
    exact congrArg (Option.map f) (AList.lookup_insert m)
  · rw [if_neg h]
    exact congrArg (Option.map f) (AList.lookup_insert_ne h)

theorem view_ofValues {β : Type} (order : IterationOrder) {m : HashMap κ α} {key : α → κ} (f : α → β)
    (hKey : ∀ k v, m.lookup k = some v → key v = k) :
    view ((values order m).foldl (fun m' v => m'.insert (key v) (f v)) (∅ : HashMap κ β)) = mapView f m := by
  have hPairs : (values order m).map (fun v => (key v, f v)) = (walk order m).map fun e => (e.1, f e.2) := by
    rw [values, List.map_map]
    refine List.map_congr_left ?_
    rintro ⟨k, v⟩ hMem
    rw [Function.comp_apply, hKey k v ((mem_walk order).mp hMem)]
  have hFold : (values order m).foldl (fun m' v => m'.insert (key v) (f v)) (∅ : HashMap κ β)
      = ((values order m).map fun v => (key v, f v)).foldl (fun m' p => m'.insert p.1 p.2) (∅ : HashMap κ β) := by
    rw [List.foldl_map]
  rw [hFold, hPairs, view_foldl_insert]
  exact KeyMap.ofPairs_walk order m f

theorem mapView_id (m : HashMap κ α) : mapView id m = view m := by
  ext1 k
  exact Option.map_id_apply

end HashMap

section Updates

variable {ι κ β : Type} [DecidableEq κ]

theorem foldl_update_apply {items : List ι} {key : ι → κ} (hKeys : (items.map key).Nodup) (v : ι → β → β) (d : κ → β) :
    (∀ i ∈ items, items.foldl (fun d i => Function.update d (key i) (v i (d (key i)))) d (key i) = v i (d (key i))) ∧
      ∀ k ∉ items.map key, items.foldl (fun d i => Function.update d (key i) (v i (d (key i)))) d k = d k := by
  induction items generalizing d with
  | nil => exact ⟨by simp, fun _ _ => rfl⟩
  | cons first items ih =>
    rw [List.map_cons, List.nodup_cons] at hKeys
    obtain ⟨hHere, hElse⟩ := ih hKeys.2 (Function.update d (key first) (v first (d (key first))))
    constructor
    · rintro i hMem
      rw [List.foldl_cons]
      rcases List.mem_cons.mp hMem with rfl | hRest
      · rw [hElse _ hKeys.1, Function.update_self]
      · have hNe : key i ≠ key first := by
          intro hSame
          exact hKeys.1 (hSame ▸ List.mem_map.mpr ⟨i, hRest, rfl⟩)
        rw [hHere i hRest, Function.update_of_ne hNe]
    · rintro k hk
      rw [List.map_cons, List.mem_cons, not_or] at hk
      rw [List.foldl_cons, hElse k hk.2, Function.update_of_ne hk.1]

end Updates
