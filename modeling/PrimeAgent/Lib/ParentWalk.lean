import Mathlib.Algebra.BigOperators.Group.List.Basic
import Mathlib.Data.Finset.Card
import Mathlib.Data.List.Chain

/-! # Walks along a partial function

`next a` is the one place a walk goes from `a`, when there is one. Two loops follow it: the plain
loop, which stops only where `next` does, and the guarded loop, which keeps a visited set. Both
take fuel; a loop halts when some amount of fuel is enough.
-/
namespace ParentWalk

variable {α : Type*} {a : α} {next : α → Option α}

/-- The point reached from `a` in exactly `k` steps. -/
def iter (next : α → Option α) : Nat → α → Option α
  | 0, a => some a
  | k + 1, a => (next a).bind (iter next k)

def Acyclic (next : α → Option α) : Prop :=
  ∀ a k, 0 < k → iter next k a ≠ some a

/-- `while let Some(a) = current { path.push(a); current = next(a) }`. -/
def follow (next : α → Option α) : Nat → Option α → Option (List α)
  | _, none => some []
  | 0, some _ => none
  | fuel + 1, some a => (follow next fuel (next a)).map (a :: ·)

/-- The same loop with `if !visited.insert(a) { break; }` in front of the push. -/
def followGuarded [DecidableEq α] (next : α → Option α) : Nat → List α → Option α → Option (List α)
  | _, _, none => some []
  | 0, _, some _ => none
  | fuel + 1, visited, some a =>
    if a ∈ visited then some [] else (followGuarded next fuel (a :: visited) (next a)).map (a :: ·)

def Halts {β : Type*} (loop : Nat → Option β) : Prop :=
  ∃ fuel, (loop fuel).isSome

@[simp] theorem follow_none (next : α → Option α) (fuel : Nat) : follow next fuel none = some [] := by
  cases fuel <;> rfl

@[simp] theorem followGuarded_none [DecidableEq α] (next : α → Option α) (fuel : Nat)
    (visited : List α) : followGuarded next fuel visited none = some [] := by
  cases fuel <;> rfl

theorem iter_add (next : α → Option α) (j k : Nat) (a : α) :
    iter next (j + k) a = (iter next j a).bind (iter next k) := by
  induction j generalizing a with
  | zero => simp [iter]
  | succ j ih =>
    rw [Nat.succ_add, iter, iter, Option.bind_assoc]
    congr 1
    funext b
    exact ih b

theorem iter_succ (next : α → Option α) (k : Nat) (a : α) :
    iter next (k + 1) a = (iter next k a).bind next := by
  rw [iter_add]
  congr 1
  funext b
  cases h : next b <;> simp [iter, h]

theorem iter_none_add {j : Nat} (h : iter next j a = none) (k : Nat) :
    iter next (j + k) a = none := by
  rw [iter_add, h, Option.bind_none]

theorem follow_isSome_iff (next : α → Option α) (fuel : Nat) (a : α) :
    (follow next fuel (some a)).isSome ↔ iter next fuel a = none := by
  induction fuel generalizing a with
  | zero => simp [follow, iter]
  | succ fuel ih =>
    rw [follow, Option.isSome_map, iter]
    cases hNext : next a with
    | none => simp
    | some b => simpa using ih b

theorem follow_fuel_irrel (next : α → Option α) (fuel extra : Nat) :
    ∀ current, (follow next fuel current).isSome →
      follow next (fuel + extra) current = follow next fuel current := by
  induction fuel with
  | zero =>
    intro current h
    cases current with
    | none => simp
    | some i => simp [follow] at h
  | succ fuel ih =>
    intro current h
    cases current with
    | none => simp
    | some i =>
      rw [follow, Option.isSome_map] at h
      rw [Nat.add_right_comm, follow, follow, ih (next i) h]

theorem follow_halts_iff (next : α → Option α) (a : α) :
    Halts (fun fuel => follow next fuel (some a)) ↔ ∃ k, iter next k a = none := by
  simp only [Halts, follow_isSome_iff]

theorem follow_halts_none (next : α → Option α) : Halts (fun fuel => follow next fuel none) :=
  ⟨0, by simp⟩

theorem iter_cycle {k : Nat} (hCycle : iter next k a = some a) (m : Nat) : iter next (m * k) a = some a := by
  induction m with
  | zero => simp [iter]
  | succ m ih => rw [Nat.succ_mul, iter_add, ih]; exact hCycle

theorem not_halts_of_cycle {k : Nat} (hPos : 0 < k) (hCycle : iter next k a = some a) :
    ¬ Halts (fun fuel => follow next fuel (some a)) := by
  rw [follow_halts_iff]
  rintro ⟨j, hj⟩
  have hMul : iter next (j * k) a = none := by
    obtain ⟨d, hd⟩ : ∃ d, j * k = j + d := ⟨j * k - j, by have := Nat.le_mul_of_pos_right j hPos; omega⟩
    rw [hd]
    exact iter_none_add hj d
  rw [iter_cycle hCycle] at hMul
  cases hMul

theorem acyclic_of_halts (hHalts : ∀ a b, next a = some b → Halts (fun fuel => follow next fuel (some b))) :
    Acyclic next := by
  intro a k hPos hCycle
  obtain ⟨j, rfl⟩ : ∃ j, k = j + 1 := ⟨k - 1, by omega⟩
  have hLast := hCycle
  rw [iter_succ, Option.bind_eq_some_iff] at hLast
  obtain ⟨b, _, hb⟩ := hLast
  exact not_halts_of_cycle hPos hCycle (hHalts b a hb)

theorem exists_cycle_of_endless [DecidableEq α] (univ : Finset α) (hClosed : ∀ a b, next a = some b → b ∈ univ)
    (hMem : a ∈ univ) (hEndless : ∀ k, iter next k a ≠ none) : ∃ b k, 0 < k ∧ iter next k b = some b := by
  have hPoint : ∀ k, ∃ b ∈ univ, iter next k a = some b := by
    intro k
    induction k with
    | zero => exact ⟨a, hMem, rfl⟩
    | succ k ih =>
      obtain ⟨b, _, hb⟩ := ih
      have hStep : iter next (k + 1) a = next b := by rw [iter_succ, hb, Option.bind_some]
      cases hNext : next b with
      | none => exact absurd (hStep.trans hNext) (hEndless (k + 1))
      | some c => exact ⟨c, hClosed b c hNext, hStep.trans hNext⟩
  choose point hIn hAt using hPoint
  have hCard : univ.card < (Finset.range (univ.card + 1)).card := by simp
  obtain ⟨i, _, j, _, hne, heq⟩ := Finset.exists_ne_map_eq_of_card_lt_of_maps_to hCard
    (f := point) (fun k _ => hIn k)
  have close : ∀ i j, i < j → point i = point j → ∃ b k, 0 < k ∧ iter next k b = some b := by
    intro i j hlt hEq
    refine ⟨point i, j - i, by omega, ?_⟩
    have hSplit : iter next (i + (j - i)) a = iter next (j - i) (point i) := by
      rw [iter_add, hAt i, Option.bind_some]
    rw [← hSplit, show i + (j - i) = j by omega, hAt j, hEq]
  rcases Nat.lt_or_gt_of_ne hne with hlt | hlt
  · exact close i j hlt heq
  · exact close j i hlt heq.symm

theorem halts_of_acyclic [DecidableEq α] (univ : Finset α) (hClosed : ∀ a b, next a = some b → b ∈ univ)
    (hAcyclic : Acyclic next) (current : Option α) :
    Halts (fun fuel => follow next fuel current) := by
  cases current with
  | none => exact follow_halts_none next
  | some a =>
    rw [follow_halts_iff]
    by_contra hNone
    have hEndless : ∀ k, iter next k a ≠ none := fun k hk => hNone ⟨k, hk⟩
    obtain ⟨b, k, hPos, hCycle⟩ := exists_cycle_of_endless (insert a univ)
      (fun c d hcd => Finset.mem_insert_of_mem (hClosed c d hcd)) (Finset.mem_insert_self a univ) hEndless
    exact hAcyclic b k hPos hCycle

theorem followGuarded_isSome [DecidableEq α] (univ : Finset α) (hClosed : ∀ a b, next a = some b → b ∈ univ)
    (fuel : Nat) :
    ∀ (visited : List α) (current : Option α), (∀ a, current = some a → a ∈ univ) →
      (univ \ visited.toFinset).card < fuel → (followGuarded next fuel visited current).isSome := by
  induction fuel with
  | zero => intro _ _ _ hFuel; omega
  | succ fuel ih =>
    intro visited current hCurrent hFuel
    cases current with
    | none => simp
    | some a =>
      rw [followGuarded]
      split
      · rfl
      · rename_i hFresh
        rw [Option.isSome_map]
        refine ih (a :: visited) (next a) (fun b hb => hClosed a b hb) ?_
        have hIn : a ∈ univ \ visited.toFinset := by
          simp [hCurrent a rfl, hFresh]
        have hErase : univ \ (a :: visited).toFinset = (univ \ visited.toFinset).erase a := by
          ext b
          simp only [List.toFinset_cons, Finset.mem_sdiff, Finset.mem_insert, Finset.mem_erase]
          tauto
        rw [hErase, Finset.card_erase_of_mem hIn]
        have hPos : 0 < (univ \ visited.toFinset).card := Finset.card_pos.mpr ⟨a, hIn⟩
        omega

section Descending

variable {next : Nat → Option Nat}

theorem followGuarded_eq_follow (hDown : ∀ i j, next i = some j → j < i) (fuel : Nat) :
    ∀ (visited : List Nat) (i : Nat), (∀ v ∈ visited, i < v) →
      followGuarded next fuel visited (some i) = follow next fuel (some i) := by
  induction fuel with
  | zero => intro _ _ _; rfl
  | succ fuel ih =>
    intro visited i hAbove
    have hFresh : i ∉ visited := fun h => Nat.lt_irrefl i (hAbove i h)
    rw [followGuarded, if_neg hFresh, follow]
    cases hNext : next i with
    | none => simp
    | some j =>
      have hj := hDown i j hNext
      congr 1
      apply ih
      intro v hv
      rcases List.mem_cons.mp hv with rfl | hv
      · exact hj
      · exact Nat.lt_trans hj (hAbove v hv)

theorem follow_isSome_of_descending (hDown : ∀ i j, next i = some j → j < i) (i : Nat) :
    ∀ fuel, i < fuel → (follow next fuel (some i)).isSome := by
  induction i using Nat.strongRecOn with
  | ind i ih =>
    intro fuel hFuel
    cases fuel with
    | zero => omega
    | succ fuel =>
      rw [follow, Option.isSome_map]
      cases hNext : next i with
      | none => simp
      | some j => exact ih j (hDown i j hNext) fuel (by have := hDown i j hNext; omega)

/-- The points of a descending walk, from the far end to `i`: what the loop collects, reversed. -/
def ascent (next : Nat → Option Nat) (i : Nat) : List Nat :=
  ((follow next (i + 1) (some i)).getD []).reverse

theorem follow_eq_ascent (hDown : ∀ i j, next i = some j → j < i) (i fuel : Nat) (hFuel : i < fuel) :
    follow next fuel (some i) = some (ascent next i).reverse := by
  obtain ⟨extra, rfl⟩ : ∃ extra, fuel = i + 1 + extra := ⟨fuel - (i + 1), by omega⟩
  have hSome := follow_isSome_of_descending hDown i (i + 1) (by omega)
  rw [follow_fuel_irrel next (i + 1) extra (some i) hSome, ascent, List.reverse_reverse]
  obtain ⟨path, hPath⟩ := Option.isSome_iff_exists.mp hSome
  rw [hPath]
  rfl

theorem ascent_of_none (hDown : ∀ i j, next i = some j → j < i) {i : Nat} (hNext : next i = none) :
    ascent next i = [i] := by
  have h := follow_eq_ascent hDown i (i + 1) (by omega)
  rw [follow, hNext, follow_none] at h
  have h := (Option.some.inj h).symm
  rw [← List.reverse_reverse (ascent next i), h]
  rfl

theorem ascent_of_some (hDown : ∀ i j, next i = some j → j < i) {i j : Nat} (hNext : next i = some j) :
    ascent next i = ascent next j ++ [i] := by
  have hj := hDown i j hNext
  have h := follow_eq_ascent hDown i (i + 1) (by omega)
  rw [follow, hNext, follow_eq_ascent hDown j i hj] at h
  have h := (Option.some.inj h).symm
  rw [← List.reverse_reverse (ascent next i), h, List.reverse_cons, List.reverse_reverse]

theorem ascent_sorted (hDown : ∀ i j, next i = some j → j < i) (i : Nat) :
    (ascent next i).Pairwise (· < ·) ∧ ∀ j ∈ ascent next i, j ≤ i := by
  induction i using Nat.strongRecOn with
  | ind i ih =>
    cases hNext : next i with
    | none => rw [ascent_of_none hDown hNext]; simp
    | some j =>
      have hj := hDown i j hNext
      obtain ⟨hSorted, hBound⟩ := ih j hj
      rw [ascent_of_some hDown hNext]
      constructor
      · rw [List.pairwise_append]
        refine ⟨hSorted, List.pairwise_singleton _ _, ?_⟩
        intro a ha b hb
        rw [List.mem_singleton.mp hb]
        exact Nat.lt_of_le_of_lt (hBound a ha) hj
      · intro k hk
        rcases List.mem_append.mp hk with hk | hk
        · exact Nat.le_of_lt (Nat.lt_of_le_of_lt (hBound k hk) hj)
        · exact Nat.le_of_eq (List.mem_singleton.mp hk)

theorem ascent_congr {next' : Nat → Option Nat} (hDown : ∀ i j, next i = some j → j < i) {bound : Nat}
    (hSame : ∀ i, i < bound → next' i = next i) (hDown' : ∀ i j, next' i = some j → j < i) {i : Nat} (hi : i < bound) :
    ascent next' i = ascent next i := by
  induction i using Nat.strongRecOn with
  | ind i ih =>
    cases hNext : next i with
    | none => rw [ascent_of_none hDown hNext, ascent_of_none hDown' ((hSame i hi).trans hNext)]
    | some j =>
      have hj := hDown i j hNext
      rw [ascent_of_some hDown hNext, ascent_of_some hDown' ((hSame i hi).trans hNext),
        ih j hj (Nat.lt_trans hj hi)]

end Descending

section Guarded

variable [DecidableEq α] {next : α → Option α} {current : Option α} {visited : List α} {path : List α}

/-- What the guarded loop collects: a chain of new points, each once, that starts where the loop does. -/
structure Collected (next : α → Option α) (visited : List α) (current : Option α) (path : List α) : Prop where
  chain : path.IsChain fun a b => next a = some b
  once : path.Nodup
  fresh : ∀ a ∈ path, a ∉ visited
  head : ∀ a, path.head? = some a → current = some a
  reached : ∀ a ∈ path, current = some a ∨ ∃ b, next b = some a

theorem collected_nil : Collected next visited current [] := by
  constructor
  · exact .nil
  · exact List.nodup_nil
  all_goals simp

theorem collected_of_followGuarded (fuel : Nat) (hLoop : followGuarded next fuel visited current = some path) :
    Collected next visited current path := by
  induction fuel generalizing visited current path with
  | zero =>
    cases current with
    | none =>
      rw [followGuarded_none] at hLoop
      obtain rfl := Option.some.inj hLoop
      exact collected_nil
    | some a => cases hLoop
  | succ fuel ih =>
    cases current with
    | none =>
      rw [followGuarded_none] at hLoop
      obtain rfl := Option.some.inj hLoop
      exact collected_nil
    | some a =>
      rw [followGuarded] at hLoop
      split at hLoop
      next =>
        obtain rfl := Option.some.inj hLoop
        exact collected_nil
      next hNew =>
        obtain ⟨rest, hRest, rfl⟩ := Option.map_eq_some_iff.mp hLoop
        have hCollected := ih hRest
        constructor
        · refine List.isChain_cons.mpr ⟨?_, hCollected.chain⟩
          exact fun b hHead => hCollected.head b hHead
        · refine List.nodup_cons.mpr ⟨?_, hCollected.once⟩
          exact fun hMem => hCollected.fresh a hMem List.mem_cons_self
        · intro b hMem
          obtain rfl | hMem := List.mem_cons.mp hMem
          · exact hNew
          · exact fun hVisited => hCollected.fresh b hMem (List.mem_cons_of_mem _ hVisited)
        · intro b hHead
          exact hHead
        · intro b hMem
          obtain rfl | hMem := List.mem_cons.mp hMem
          · exact .inl rfl
          · obtain hHere | hLater := hCollected.reached b hMem
            · exact .inr ⟨a, hHere⟩
            · exact .inr hLater

theorem followGuarded_ends (fuel : Nat) (hLoop : followGuarded next fuel visited current = some path) :
    (path = [] → ∀ a, current = some a → a ∈ visited) ∧
      ∀ a, path.getLast? = some a → ∀ b, next a = some b → b ∈ visited ∨ b ∈ path := by
  induction fuel generalizing visited current path with
  | zero =>
    cases current with
    | none => rw [followGuarded_none] at hLoop; cases hLoop; exact ⟨nofun, nofun⟩
    | some a => cases hLoop
  | succ fuel ih =>
    cases current with
    | none => rw [followGuarded_none] at hLoop; cases hLoop; exact ⟨nofun, nofun⟩
    | some a =>
      rw [followGuarded] at hLoop
      split at hLoop
      next hMet =>
        cases hLoop
        exact ⟨fun _ b hHere => Option.some.inj hHere ▸ hMet, nofun⟩
      next hNew =>
        obtain ⟨rest, hRest, rfl⟩ := Option.map_eq_some_iff.mp hLoop
        obtain ⟨hStop, hEnd⟩ := ih hRest
        refine ⟨nofun, fun last hLast b hNext => ?_⟩
        cases rest with
        | nil =>
          cases hLast
          rcases List.mem_cons.mp (hStop rfl b hNext) with rfl | hVisited
          · exact Or.inr List.mem_cons_self
          · exact Or.inl hVisited
        | cons head rest =>
          rcases hEnd last hLast b hNext with hVisited | hMem
          · rcases List.mem_cons.mp hVisited with rfl | hVisited
            · exact Or.inr List.mem_cons_self
            · exact Or.inl hVisited
          · exact Or.inr (List.mem_cons_of_mem _ hMem)

end Guarded

theorem followGuarded_stairs {next : Nat → Option Nat} {top : Nat} (hStep : ∀ i, i < top → next (i + 1) = some i)
    (hEnd : ∀ j, next 0 = some j → j ≤ top) (n : Nat) :
    ∀ (fuel : Nat) (visited : List Nat), n ≤ top → (∀ v, v ∈ visited ↔ n < v ∧ v ≤ top) → n + 1 < fuel →
      followGuarded next fuel visited (some n) = some (List.range (n + 1)).reverse := by
  induction n with
  | zero =>
    intro fuel visited hTop hVisited hFuel
    obtain ⟨fuel, rfl⟩ : ∃ less, fuel = less + 2 := ⟨fuel - 2, by omega⟩
    have hNew : 0 ∉ visited := fun hMem => by have := (hVisited 0).mp hMem; omega
    rw [followGuarded, if_neg hNew]
    cases hNext : next 0 with
    | none => simp
    | some j =>
      have hBack : j ∈ 0 :: visited := by
        by_cases hZero : j = 0
        · simp [hZero]
        · exact List.mem_cons_of_mem _ ((hVisited j).mpr ⟨by omega, hEnd j hNext⟩)
      rw [followGuarded, if_pos hBack]
      rfl
  | succ n ih =>
    intro fuel visited hTop hVisited hFuel
    obtain ⟨fuel, rfl⟩ : ∃ less, fuel = less + 1 := ⟨fuel - 1, by omega⟩
    have hNew : n + 1 ∉ visited := fun hMem => by have := (hVisited (n + 1)).mp hMem; omega
    have hVisited' : ∀ v, v ∈ (n + 1) :: visited ↔ n < v ∧ v ≤ top := by
      intro v
      rw [List.mem_cons, hVisited v]
      omega
    rw [followGuarded, if_neg hNew, hStep n (by omega), ih fuel _ (by omega) hVisited' (by omega), Option.map_some,
      @List.range_succ (n + 1), List.reverse_append]
    rfl

end ParentWalk

/-! ## Forests given by parents

`next a` is the parent of `a`, and `kids a` lists the points whose parent is `a`. Below a point whose
chain of parents ends, a walk down the kids meets every descendant once.
-/
namespace ParentForest

open ParentWalk

variable {α : Type*} {next : α → Option α} {kids : α → List α} {k : Nat} {a : α} {next' : α → Option α}

structure Kids (next : α → Option α) (kids : α → List α) : Prop where
  mem : ∀ a c, c ∈ kids a ↔ next c = some a
  nodup : ∀ a, (kids a).Nodup

def Grounded (next : α → Option α) (a : α) : Prop :=
  ∃ k, iter next k a = none

def listing (kids : α → List α) : Nat → α → List α
  | 0, _ => []
  | fuel + 1, a => a :: (kids a).flatMap (listing kids fuel)

theorem iter_snoc {a b c : α} (hWalk : iter next k b = some c) (hNext : next c = some a) :
    iter next (k + 1) b = some a := by
  rw [iter_succ, hWalk, Option.bind_some, hNext]

theorem Grounded.no_cycle (hGrounded : Grounded next a) (hCycle : iter next k a = some a) : k = 0 := by
  obtain ⟨fuel, hNone⟩ := hGrounded
  refine Nat.eq_zero_of_not_pos fun hPos => ?_
  have hLe := Nat.le_mul_of_pos_right fuel hPos
  have hAgain := iter_cycle hCycle fuel
  rw [show fuel * k = fuel + (fuel * k - fuel) by omega, iter_none_add hNone] at hAgain
  cases hAgain

theorem Grounded.kid {a c : α} (hGrounded : Grounded next a) (hNext : next c = some a) : Grounded next c := by
  obtain ⟨fuel, hNone⟩ := hGrounded
  exact ⟨fuel + 1, by rw [iter, hNext, Option.bind_some, hNone]⟩

theorem iter_mono (hSub : ∀ a b, next' a = some b → next a = some b) {a b : α} (hWalk : iter next' k a = some b) :
    iter next k a = some b := by
  induction k generalizing a with
  | zero => exact hWalk
  | succ k ih =>
    obtain ⟨c, hNext, hRest⟩ := Option.bind_eq_some_iff.mp hWalk
    rw [iter, hSub a c hNext, Option.bind_some, ih hRest]

theorem Grounded.mono (hSub : ∀ a b, next' a = some b → next a = some b) (hGrounded : Grounded next a) :
    Grounded next' a := by
  obtain ⟨k, hNone⟩ := hGrounded
  refine ⟨k, ?_⟩
  cases hWalk : iter next' k a with
  | none => rfl
  | some b =>
    rw [iter_mono hSub hWalk] at hNone
    cases hNone

theorem Grounded.steps_unique {a b : α} (hGrounded : Grounded next a) {j k : Nat} (hJ : iter next j b = some a)
    (hK : iter next k b = some a) : j = k := by
  have hLe {j k : Nat} (hJ : iter next j b = some a) (hK : iter next k b = some a) (hLe : j ≤ k) : j = k := by
    obtain ⟨more, rfl⟩ := Nat.exists_eq_add_of_le hLe
    rw [iter_add, hJ, Option.bind_some] at hK
    rw [hGrounded.no_cycle hK, Nat.add_zero]
  obtain hOrder | hOrder := Nat.le_total j k
  · exact hLe hJ hK hOrder
  · exact (hLe hK hJ hOrder).symm

theorem mem_listing (hKids : Kids next kids) {fuel : Nat} {a b : α} :
    b ∈ listing kids fuel a ↔ ∃ k, k < fuel ∧ iter next k b = some a := by
  induction fuel generalizing a with
  | zero => simp [listing]
  | succ fuel ih =>
    simp only [listing, List.mem_cons, List.mem_flatMap, ih]
    constructor
    · rintro (rfl | ⟨c, hKid, k, hLt, hWalk⟩)
      · exact ⟨0, Nat.succ_pos _, rfl⟩
      · exact ⟨k + 1, Nat.succ_lt_succ hLt, iter_snoc hWalk ((hKids.mem a c).mp hKid)⟩
    · rintro ⟨k, hLt, hWalk⟩
      cases k with
      | zero => exact .inl (Option.some.inj hWalk)
      | succ k =>
        rw [iter_succ, Option.bind_eq_some_iff] at hWalk
        obtain ⟨c, hWalk, hNext⟩ := hWalk
        exact .inr ⟨c, (hKids.mem a c).mpr hNext, k, Nat.lt_of_succ_lt_succ hLt, hWalk⟩

theorem nodup_listing (hKids : Kids next kids) (fuel : Nat) (hGrounded : Grounded next a) :
    (listing kids fuel a).Nodup := by
  induction fuel generalizing a with
  | zero => exact List.nodup_nil
  | succ fuel ih =>
    rw [listing, List.nodup_cons, List.nodup_flatMap]
    refine ⟨?_, ?_, ?_⟩
    · intro hMem
      obtain ⟨c, hKid, hBelow⟩ := List.mem_flatMap.mp hMem
      obtain ⟨k, -, hWalk⟩ := (mem_listing hKids).mp hBelow
      exact absurd (hGrounded.no_cycle (iter_snoc hWalk ((hKids.mem a c).mp hKid))) (Nat.succ_ne_zero k)
    · exact fun c hKid => ih (hGrounded.kid ((hKids.mem a c).mp hKid))
    · -- two kids cannot share a descendant: it reaches the parent through one of them only
      refine (hKids.nodup a).pairwise_of_forall_ne ?_
      intro c hKid c' hKid' hNe b hBelow hBelow'
      obtain ⟨k, -, hWalk⟩ := (mem_listing hKids).mp hBelow
      obtain ⟨k', -, hWalk'⟩ := (mem_listing hKids).mp hBelow'
      have hSame := hGrounded.steps_unique (iter_snoc hWalk ((hKids.mem a c).mp hKid))
        (iter_snoc hWalk' ((hKids.mem a c').mp hKid'))
      cases Nat.succ.inj hSame
      exact hNe (Option.some.inj (hWalk.symm.trans hWalk'))

theorem root_grounded (hRoot : next a = none) : Grounded next a :=
  ⟨1, by rw [iter, hRoot, Option.bind_none]⟩

theorem root_unique {a b c : α} {j k : Nat} (hB : next b = none) (hC : next c = none) (hJ : iter next j a = some b)
    (hK : iter next k a = some c) : b = c := by
  have hLe {b c : α} {j k : Nat} (hB : next b = none) (hJ : iter next j a = some b) (hK : iter next k a = some c)
      (hLe : j ≤ k) : b = c := by
    obtain ⟨more, rfl⟩ := Nat.exists_eq_add_of_le hLe
    rw [iter_add, hJ, Option.bind_some] at hK
    cases more with
    | zero => exact Option.some.inj hK
    | succ more =>
      rw [iter, hB] at hK
      cases hK
  obtain hOrder | hOrder := Nat.le_total j k
  · exact hLe hB hJ hK hOrder
  · exact (hLe hC hK hJ hOrder).symm

theorem nodup_forest (hKids : Kids next kids) (fuel : Nat) {roots : List α} (hNodup : roots.Nodup)
    (hRoots : ∀ a ∈ roots, next a = none) : (roots.flatMap (listing kids fuel)).Nodup := by
  rw [List.nodup_flatMap]
  refine ⟨fun a hRoot => nodup_listing hKids fuel (root_grounded (hRoots a hRoot)), ?_⟩
  refine hNodup.pairwise_of_forall_ne ?_
  intro a hRoot a' hRoot' hNe b hBelow hBelow'
  obtain ⟨k, -, hWalk⟩ := (mem_listing hKids).mp hBelow
  obtain ⟨k', -, hWalk'⟩ := (mem_listing hKids).mp hBelow'
  exact hNe (root_unique (hRoots a hRoot) (hRoots a' hRoot') hWalk hWalk')

theorem steps_le {all : List α} (hAll : ∀ c a, next c = some a → c ∈ all) {a : α} (hGrounded : Grounded next a)
    {k : Nat} {b : α} (hWalk : iter next k b = some a) : k ≤ all.length := by
  have hPoints : ∃ points : List α, points.length = k ∧ points.Nodup ∧ points ⊆ all ∧
      ∀ x ∈ points, ∃ j, j ≤ k ∧ iter next j x = some a := by
    induction k generalizing b with
    | zero => exact ⟨[], rfl, List.nodup_nil, List.nil_subset _, by simp⟩
    | succ k ih =>
      obtain ⟨b', hNext, hRest⟩ := Option.bind_eq_some_iff.mp hWalk
      obtain ⟨points, hLength, hNodup, hSubset, hReach⟩ := ih hRest
      refine ⟨b :: points, by rw [List.length_cons, hLength], List.nodup_cons.mpr ⟨?_, hNodup⟩, ?_, ?_⟩
      · intro hMem
        obtain ⟨j, hLe, hAgain⟩ := hReach b hMem
        have hSame := hGrounded.steps_unique hAgain hWalk
        omega
      · exact List.cons_subset.mpr ⟨hAll b b' hNext, hSubset⟩
      · intro x hMem
        obtain rfl | hMem := List.mem_cons.mp hMem
        · exact ⟨k + 1, le_rfl, hWalk⟩
        · obtain ⟨j, hLe, hAgain⟩ := hReach x hMem
          exact ⟨j, Nat.le_succ_of_le hLe, hAgain⟩
  obtain ⟨points, hLength, hNodup, hSubset, -⟩ := hPoints
  rw [← hLength]
  exact (hNodup.subperm hSubset).length_le

/-! ### Breadth first -/

def sweep (kids : α → List α) : Nat → List α → List α
  | 0, _ => []
  | _ + 1, [] => []
  | fuel + 1, a :: queue => a :: sweep kids fuel (queue ++ kids a)

def KidsAfter (kids : α → List α) : List α → Prop
  | [] => True
  | a :: rest => (∀ c ∈ kids a, c ∈ rest) ∧ KidsAfter kids rest

/-- The loop as it stands: what was taken and what waits are distinct, and each is a root or a kid of a
point that was taken. -/
structure Sweeping (next : α → Option α) (all seen queue : List α) : Prop where
  nodup : (seen ++ queue).Nodup
  within : seen ++ queue ⊆ all
  origin : ∀ x ∈ seen ++ queue, next x = none ∨ ∃ a ∈ seen, next x = some a

theorem Sweeping.step (hKids : Kids next kids) {all : List α} (hAll : ∀ c a, next c = some a → c ∈ all)
    {seen queue : List α} {a : α} (hSweeping : Sweeping next all seen (a :: queue)) :
    Sweeping next all (seen ++ [a]) (queue ++ kids a) := by
  have hSplit : seen ++ [a] ++ (queue ++ kids a) = seen ++ a :: queue ++ kids a := by simp
  have hNotSeen : a ∉ seen := fun hSeen =>
    (List.nodup_append.mp hSweeping.nodup).2.2 a hSeen a List.mem_cons_self rfl
  refine ⟨?_, ?_, ?_⟩
  · rw [hSplit]
    refine List.nodup_append.mpr ⟨hSweeping.nodup, hKids.nodup a, ?_⟩
    rintro x hOld y hKid rfl
    obtain hRoot | ⟨b, hSeen, hNext⟩ := hSweeping.origin x hOld
    · rw [(hKids.mem a x).mp hKid] at hRoot
      cases hRoot
    · rw [(hKids.mem a x).mp hKid] at hNext
      cases hNext
      exact hNotSeen hSeen
  · rw [hSplit]
    exact List.append_subset.mpr ⟨hSweeping.within, fun c hKid => hAll c a ((hKids.mem a c).mp hKid)⟩
  · rw [hSplit]
    intro x hMem
    obtain hOld | hKid := List.mem_append.mp hMem
    · obtain hRoot | ⟨b, hSeen, hNext⟩ := hSweeping.origin x hOld
      · exact .inl hRoot
      · exact .inr ⟨b, List.mem_append_left _ hSeen, hNext⟩
    · exact .inr ⟨a, by simp, (hKids.mem a x).mp hKid⟩

theorem sweep_spec (hKids : Kids next kids) {all : List α} (hAll : ∀ c a, next c = some a → c ∈ all) (fuel : Nat) :
    ∀ {seen queue : List α}, Sweeping next all seen queue → all.length ≤ seen.length + fuel →
      (sweep kids fuel queue).Nodup ∧ queue ⊆ sweep kids fuel queue ∧ KidsAfter kids (sweep kids fuel queue) ∧
        ∀ x ∈ sweep kids fuel queue, x ∉ seen := by
  induction fuel with
  | zero =>
    intro seen queue hSweeping hFuel
    have hLength := (hSweeping.nodup.subperm hSweeping.within).length_le
    rw [List.length_append] at hLength
    have hNil : queue = [] := List.length_eq_zero_iff.mp (by omega)
    subst hNil
    exact ⟨List.nodup_nil, List.nil_subset _, trivial, by simp [sweep]⟩
  | succ fuel ih =>
    intro seen queue hSweeping hFuel
    cases queue with
    | nil => exact ⟨List.nodup_nil, List.nil_subset _, trivial, by simp [sweep]⟩
    | cons a queue =>
      obtain ⟨hNodup, hSubset, hAfter, hFresh⟩ := ih (hSweeping.step hKids hAll) (by simp; omega)
      obtain ⟨hQueue, hKidsIn⟩ := List.append_subset.mp hSubset
      refine ⟨List.nodup_cons.mpr ⟨fun hMem => hFresh a hMem (by simp), hNodup⟩, ?_, ⟨fun c hKid => hKidsIn hKid, hAfter⟩, ?_⟩
      · exact List.cons_subset.mpr ⟨List.mem_cons_self, fun x hMem => List.mem_cons_of_mem _ (hQueue hMem)⟩
      · intro x hMem
        obtain rfl | hMem := List.mem_cons.mp hMem
        · exact fun hSeen => (List.nodup_append.mp hSweeping.nodup).2.2 x hSeen x List.mem_cons_self rfl
        · exact fun hSeen => hFresh x hMem (List.mem_append_left _ hSeen)

theorem KidsAfter.closed {list : List α} (hAfter : KidsAfter kids list) {a c : α} (hMem : a ∈ list) (hKid : c ∈ kids a) :
    c ∈ list := by
  induction list with
  | nil => cases hMem
  | cons b rest ih =>
    obtain rfl | hMem := List.mem_cons.mp hMem
    · exact List.mem_cons_of_mem _ (hAfter.1 c hKid)
    · exact List.mem_cons_of_mem _ (ih hAfter.2 hMem)

theorem mem_of_grounded (hKids : Kids next kids) {list : List α} {dom : α → Prop}
    (hRoots : ∀ a, dom a → next a = none → a ∈ list) (hClosed : ∀ c a, next c = some a → dom a)
    (hAfter : KidsAfter kids list) {a : α} (hDom : dom a) (hGrounded : Grounded next a) : a ∈ list := by
  obtain ⟨k, hNone⟩ := hGrounded
  induction k generalizing a with
  | zero => cases hNone
  | succ k ih =>
    cases hNext : next a with
    | none => exact hRoots a hDom hNext
    | some b =>
      rw [iter, hNext, Option.bind_some] at hNone
      exact hAfter.closed (ih (hClosed a b hNext) hNone) ((hKids.mem b a).mpr hNext)

/-! ### Values from the kids up -/

section

variable [DecidableEq α] {β : Type*}

def tabulate (combine : α → (α → β) → β) (start : α → β) (order : List α) : α → β :=
  order.foldr (fun a table => Function.update table a (combine a table)) start

theorem tabulate_eq {combine : α → (α → β) → β} {start : α → β}
    (hLocal : ∀ a f g, (∀ c ∈ kids a, f c = g c) → combine a f = combine a g) {order : List α} (hNodup : order.Nodup)
    (hAfter : KidsAfter kids order) :
    ∀ a ∈ order, tabulate combine start order a = combine a (tabulate combine start order) := by
  induction order with
  | nil => exact fun a hMem => absurd hMem List.not_mem_nil
  | cons b rest ih =>
    have hNe : ∀ c ∈ rest, c ≠ b := fun c hMem hEq => (List.nodup_cons.mp hNodup).1 (hEq ▸ hMem)
    have hStep : tabulate combine start (b :: rest) =
        Function.update (tabulate combine start rest) b (combine b (tabulate combine start rest)) := rfl
    have hKeep : ∀ c ∈ rest, tabulate combine start (b :: rest) c = tabulate combine start rest c := by
      intro c hMem
      rw [hStep, Function.update_of_ne (hNe c hMem)]
    intro a hMem
    obtain rfl | hMem := List.mem_cons.mp hMem
    · rw [hLocal a _ _ fun c hKid => hKeep c (hAfter.1 c hKid), hStep, Function.update_self]
    · rw [hKeep a hMem, ih (List.nodup_cons.mp hNodup).2 hAfter.2 a hMem]
      exact hLocal a _ _ fun c hKid => (hKeep c (hAfter.2.closed hMem hKid)).symm

end

theorem value_eq_sum {M : Type*} [AddCommMonoid M] (hKids : Kids next kids) {own value : α → M} {dom : α → Prop}
    (hDom : ∀ a c, dom a → c ∈ kids a → dom c) (hValue : ∀ a, dom a → value a = own a + ((kids a).map value).sum)
    (fuel : Nat) :
    ∀ {a : α}, dom a → (∀ b k, iter next k b = some a → k < fuel) → value a = ((listing kids fuel a).map own).sum := by
  induction fuel with
  | zero => exact fun {a} _ hFuel => absurd (hFuel a 0 rfl) (Nat.lt_irrefl 0)
  | succ fuel ih =>
    intro a hIn hFuel
    have hBelow : ∀ c ∈ kids a, value c = ((listing kids fuel c).map own).sum := by
      intro c hKid
      refine ih (hDom a c hIn hKid) fun b k hWalk => ?_
      exact Nat.lt_of_succ_lt_succ (hFuel b (k + 1) (iter_snoc hWalk ((hKids.mem a c).mp hKid)))
    rw [hValue a hIn, listing, List.map_cons, List.sum_cons, List.map_congr_left hBelow]
    congr 1
    generalize kids a = list
    induction list with
    | nil => rfl
    | cons c rest ih => rw [List.map_cons, List.sum_cons, ih, List.flatMap_cons, List.map_append, List.sum_append]

end ParentForest
