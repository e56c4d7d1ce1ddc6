import Mathlib.Logic.Function.Basic

/-! # A directory as a lock

Agents make and remove one directory by its name. An agent owns the directory it has made until it gives it up, and no
owner keeps it for longer than `limit`. Another agent may see a directory with its time, condemn it once it is older
than `limit`, and remove it; a removal by name takes whatever directory stands there.
-/
namespace NamedDir

structure Dir where
  creator : Nat
  seq : Nat
deriving DecidableEq

structure View where
  owned : Option (Dir × Nat)
  seen : Option (Dir × Nat)
  condemned : Option Dir

def View.nothing : View :=
  ⟨none, none, none⟩

/-- The directory at the name with its time, the clock, and the number of the next directory. -/
structure Place where
  entry : Option (Dir × Nat)
  now : Nat
  next : Nat

variable {limit : Nat} {place : Place} {view : Nat → View} {p q : Nat} {dir dir' : Dir} {since since' time : Nat}

structure Owns (limit : Nat) (place : Place) (p : Nat) (dir : Dir) (since : Nat) : Prop where
  creator : dir.creator = p
  started : since ≤ place.now
  timely : place.now ≤ since + limit
  present : place.entry = some (dir, since)

structure Inv (limit : Nat) (place : Place) (view : Nat → View) : Prop where
  owned : ∀ p dir since, (view p).owned = some (dir, since) → Owns limit place p dir since
  entry : ∀ dir time, place.entry = some (dir, time) → dir.seq < place.next
  seen : ∀ p dir time, (view p).seen = some (dir, time) →
    dir.seq < place.next ∧ ∀ q since, (view q).owned = some (dir, since) → since = time
  condemned : ∀ p dir, (view p).condemned = some dir →
    dir.seq < place.next ∧ ∀ q since, (view q).owned ≠ some (dir, since)

theorem inv_start (now next : Nat) : Inv limit ⟨none, now, next⟩ fun _ => .nothing := by
  constructor
  all_goals simp [View.nothing]

theorem Inv.alone (i : Inv limit place view) (hOwned : (view p).owned = some (dir, since))
    (hOther : (view q).owned = some (dir', since')) : p = q := by
  have hFirst := i.owned p dir since hOwned
  have hSecond := i.owned q dir' since' hOther
  have hSame := hFirst.present.symm.trans hSecond.present
  obtain ⟨rfl, -⟩ := Prod.mk.inj (Option.some.inj hSame)
  exact hFirst.creator.symm.trans hSecond.creator

section

variable (i : Inv limit place view)

include i

theorem Inv.tick {elapsed : Nat}
    (hTimely : ∀ p dir since, (view p).owned = some (dir, since) → place.now + elapsed ≤ since + limit) :
    Inv limit { place with now := place.now + elapsed } view := by
  refine ⟨?_, i.entry, i.seen, i.condemned⟩
  intro p dir since hOwned
  have hBefore := i.owned p dir since hOwned
  exact ⟨hBefore.creator, Nat.le_add_right_of_le hBefore.started, hTimely p dir since hOwned, hBefore.present⟩

theorem Inv.look {v : View} (hOwned : ∀ dir since, v.owned = some (dir, since) →
      (view p).owned = some (dir, since))
    (hSeen : ∀ dir time, v.seen = some (dir, time) → place.entry = some (dir, time))
    (hCondemned : ∀ dir, v.condemned = some dir → (view p).condemned = some dir ∨
      ∃ time, (view p).seen = some (dir, time) ∧ limit < place.now - time) :
    Inv limit place (Function.update view p v) := by
  have hBefore : ∀ q dir since, ((Function.update view p v) q).owned = some (dir, since) →
      (view q).owned = some (dir, since) := by
    intro q dir since hHere
    by_cases hSame : q = p
    · subst hSame
      rw [Function.update_self] at hHere
      exact hOwned dir since hHere
    · rwa [Function.update_of_ne hSame] at hHere
  constructor
  · exact fun q dir since hHere => i.owned q dir since (hBefore q dir since hHere)
  · exact i.entry
  · intro q dir time hHere
    by_cases hSame : q = p
    · subst hSame
      rw [Function.update_self] at hHere
      have hEntry := hSeen dir time hHere
      refine ⟨i.entry dir time hEntry, fun q' since hOther => ?_⟩
      have hPresent := (i.owned q' dir since (hBefore q' dir since hOther)).present
      exact (Prod.mk.inj (Option.some.inj (hPresent.symm.trans hEntry))).2
    · rw [Function.update_of_ne hSame] at hHere
      obtain ⟨hSeq, hOwners⟩ := i.seen q dir time hHere
      exact ⟨hSeq, fun q' since hOther => hOwners q' since (hBefore q' dir since hOther)⟩
  · intro q dir hHere
    by_cases hSame : q = p
    · subst hSame
      rw [Function.update_self] at hHere
      obtain hOld | ⟨time, hOld, hLate⟩ := hCondemned dir hHere
      · obtain ⟨hSeq, hOwners⟩ := i.condemned q dir hOld
        exact ⟨hSeq, fun q' since hOther => hOwners q' since (hBefore q' dir since hOther)⟩
      · obtain ⟨hSeq, hOwners⟩ := i.seen q dir time hOld
        refine ⟨hSeq, fun q' since hOther => ?_⟩
        have hOwner := hBefore q' dir since hOther
        obtain rfl := hOwners q' since hOwner
        have hTimely := (i.owned q' dir since hOwner).timely
        omega
    · rw [Function.update_of_ne hSame] at hHere
      obtain ⟨hSeq, hOwners⟩ := i.condemned q dir hHere
      exact ⟨hSeq, fun q' since hOther => hOwners q' since (hBefore q' dir since hOther)⟩

theorem Inv.forgetAll {view' : Nat → View} (hView : ∀ q, view' q = view q ∨ view' q = .nothing) :
    Inv limit place view' := by
  have hOwned : ∀ q dir since, (view' q).owned = some (dir, since) → (view q).owned = some (dir, since) := by
    intro q dir since hHere
    obtain hSame | hNone := hView q
    · rwa [hSame] at hHere
    · rw [hNone] at hHere
      cases hHere
  constructor
  · exact fun q dir since hHere => i.owned q dir since (hOwned q dir since hHere)
  · exact i.entry
  · intro q dir time hHere
    obtain hSame | hNone := hView q
    · rw [hSame] at hHere
      obtain ⟨hSeq, hOwners⟩ := i.seen q dir time hHere
      exact ⟨hSeq, fun q' since hOther => hOwners q' since (hOwned q' dir since hOther)⟩
    · rw [hNone] at hHere
      cases hHere
  · intro q dir hHere
    obtain hSame | hNone := hView q
    · rw [hSame] at hHere
      obtain ⟨hSeq, hOwners⟩ := i.condemned q dir hHere
      exact ⟨hSeq, fun q' since hOther => hOwners q' since (hOwned q' dir since hOther)⟩
    · rw [hNone] at hHere
      cases hHere

theorem Inv.forget (p : Nat) : Inv limit place (Function.update view p .nothing) := by
  refine i.forgetAll fun q => ?_
  by_cases hSame : q = p
  · subst hSame
    exact .inr (Function.update_self ..)
  · exact .inl (Function.update_of_ne hSame ..)

theorem Inv.vanish (hNone : ∀ q dir since, (view q).owned ≠ some (dir, since)) :
    Inv limit { place with entry := none } view := by
  refine ⟨?_, by simp, i.seen, i.condemned⟩
  exact fun q dir since hOwned => absurd hOwned (hNone q dir since)

theorem Inv.removeOwn (hOwned : (view p).owned = some (dir, since)) :
    Inv limit { place with entry := none } (Function.update view p .nothing) := by
  refine (i.forget p).vanish ?_
  intro q dir' since' hOther
  by_cases hSame : q = p
  · subst hSame
    rw [Function.update_self] at hOther
    cases hOther
  · rw [Function.update_of_ne hSame] at hOther
    exact hSame (i.alone hOwned hOther).symm

theorem Inv.removeCondemned (hCondemned : (view p).condemned = some dir)
    (hAimed : ∀ dir' time, place.entry = some (dir', time) → dir' = dir) :
    Inv limit { place with entry := none } (Function.update view p .nothing) := by
  refine (i.forget p).vanish ?_
  intro q dir' since' hOther
  by_cases hSame : q = p
  · subst hSame
    rw [Function.update_self] at hOther
    cases hOther
  · rw [Function.update_of_ne hSame] at hOther
    obtain rfl := hAimed dir' since' (i.owned q dir' since' hOther).present
    exact (i.condemned p dir' hCondemned).2 q since' hOther

theorem Inv.create (hAbsent : place.entry = none) :
    Inv limit ⟨some (⟨p, place.next⟩, place.now), place.now, place.next + 1⟩
      (Function.update view p ⟨some (⟨p, place.next⟩, place.now), none, none⟩) := by
  have hOwners : ∀ q dir since,
      ((Function.update view p ⟨some (⟨p, place.next⟩, place.now), none, none⟩) q).owned = some (dir, since) →
      q = p ∧ dir = ⟨p, place.next⟩ ∧ since = place.now := by
    intro q dir since hOwned
    by_cases hSame : q = p
    · subst hSame
      rw [Function.update_self] at hOwned
      obtain ⟨rfl, rfl⟩ := Prod.mk.inj (Option.some.inj hOwned)
      exact ⟨rfl, rfl, rfl⟩
    · rw [Function.update_of_ne hSame] at hOwned
      have hPresent := (i.owned q dir since hOwned).present
      rw [hAbsent] at hPresent
      cases hPresent
  constructor
  · intro q dir since hOwned
    obtain ⟨rfl, rfl, rfl⟩ := hOwners q dir since hOwned
    exact ⟨rfl, Nat.le_refl _, Nat.le_add_right _ _, rfl⟩
  · intro dir time hEntry
    obtain ⟨rfl, -⟩ := Prod.mk.inj (Option.some.inj hEntry)
    exact Nat.lt_succ_self _
  · intro q dir time hSeen
    by_cases hSame : q = p
    · subst hSame
      rw [Function.update_self] at hSeen
      cases hSeen
    · rw [Function.update_of_ne hSame] at hSeen
      have hSeq := (i.seen q dir time hSeen).1
      refine ⟨Nat.lt_succ_of_lt hSeq, fun q' since hOwned => ?_⟩
      obtain ⟨-, rfl, -⟩ := hOwners q' dir since hOwned
      exact absurd hSeq (Nat.lt_irrefl _)
  · intro q dir hCondemned
    by_cases hSame : q = p
    · subst hSame
      rw [Function.update_self] at hCondemned
      cases hCondemned
    · rw [Function.update_of_ne hSame] at hCondemned
      have hSeq := (i.condemned q dir hCondemned).1
      refine ⟨Nat.lt_succ_of_lt hSeq, fun q' since hOwned => ?_⟩
      obtain ⟨-, rfl, -⟩ := hOwners q' dir since hOwned
      exact absurd hSeq (Nat.lt_irrefl _)

end

end NamedDir
