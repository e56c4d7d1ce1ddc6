import PrimeAgent.Lock.Invariant

/-! # One holder of a lock

Where every removal by name meets the directory it is meant for, the lock is exclusive. Where it does not, two processes
that reclaim one stale lock both come to hold it.
-/
namespace PrimeAgent.Lock

open LockState

variable {staleAfter : Nat} {s : LockState} {p q : Nat} {step : LockStep} {id : DirId} {phase : Phase} {mtime : Nat}
  {fails : Bool} {removed missing failed : Phase}

/-! ## The steps -/

section

variable (i : Inv staleAfter s)

include i

theorem inv_creating (retry : Bool) (hAbsent : s.entry = .absent) :
    Inv staleAfter ({ s with entry := .dir ⟨p, s.next⟩ s.now, next := s.next + 1 }.goto p
      (.probing retry ⟨p, s.next⟩ s.now)) := by
  refine i.move ⟨?_, ?_, ?_, ?_, Nat.le_succ _, by simp, by simp, by simp⟩
  · intro q id since _ hOwned
    obtain ⟨mtime, hEntry, -⟩ := (i.owned q id since hOwned).present
    rw [hAbsent] at hEntry
    cases hEntry
  · intro id since hOwned
    obtain ⟨rfl, rfl⟩ := Prod.mk.inj (Option.some.inj hOwned)
    exact ⟨rfl, Nat.le_refl _, Nat.le_add_right _ _, s.now, rfl, Nat.le_refl _⟩
  · intro id since hOwned
    obtain ⟨rfl, -⟩ := Prod.mk.inj (Option.some.inj hOwned)
    exact .inr (Nat.le_refl _)
  · intro id mtime hEntry
    obtain ⟨rfl, -⟩ := PathEntry.dir.inj hEntry
    exact Nat.lt_succ_self _

theorem inv_owner {entry : PathEntry} {since mtime : Nat} (hOwned : (s.phase p).owned = some (id, since))
    (hPhase : phase.owned = some (id, since)) (hEntry : entry = .dir id mtime) (hLater : since ≤ mtime) :
    Inv staleAfter ({ s with entry := entry }.goto p phase) := by
  have hBefore := i.owned p id since hOwned
  obtain ⟨mtime', hOld, -⟩ := hBefore.present
  refine @Inv.move staleAfter s p phase entry i s.next ⟨?_, ?_, ?_, ?_, Nat.le_refl _, ?_, ?_, ?_⟩
  · intro q id' since' hNe hOther
    exact absurd hOther (i.clear_of_owned hOwned hNe)
  · intro id' since' hHere
    rw [hPhase] at hHere
    obtain ⟨rfl, rfl⟩ := Prod.mk.inj (Option.some.inj hHere)
    exact ⟨hBefore.creator, hBefore.started, hBefore.timely, mtime, hEntry, hLater⟩
  · intro id' since' hHere
    rw [hPhase] at hHere
    obtain ⟨rfl, rfl⟩ := Prod.mk.inj (Option.some.inj hHere)
    exact .inl hOwned
  · intro id' mtime'' hHere
    rw [hEntry] at hHere
    obtain ⟨rfl, -⟩ := PathEntry.dir.inj hHere
    exact i.entry id mtime' hOld
  · rintro id' mtime'' rfl
    cases hPhase
  · rintro id' rfl
    cases hPhase
  · rintro id' rfl
    cases hPhase

theorem inv_probing {retry : Bool} {since : Nat} (hPhase : s.phase p = .probing retry id since) :
    Inv staleAfter (s.goto p (.cleaning id since)) ∧
      Inv staleAfter ({ s with entry := s.entry.touch (probeMtime s.now) }.goto p (.holding id since)) := by
  have hOwned : (s.phase p).owned = some (id, since) := by rw [hPhase]; rfl
  have hBefore := i.owned p id since hOwned
  obtain ⟨mtime, hEntry, hLater⟩ := hBefore.present
  constructor
  · exact inv_owner i hOwned rfl hEntry hLater
  · refine inv_owner i hOwned rfl (by rw [hEntry]; rfl) ?_
    exact Nat.le_trans hBefore.started (probeMtime_le s.now)

theorem inv_aging (hEntry : s.entry = .dir id mtime) :
    Inv staleAfter (s.goto p (.aging id mtime)) := by
  refine @Inv.move staleAfter s p _ s.entry i s.next
    ⟨fun q id' since _ hOwned => (i.owned q id' since hOwned).present, by simp [Phase.owned], by simp [Phase.owned], i.entry,
      Nat.le_refl _, ?_, by simp, by simp⟩
  intro id' mtime' hPhase
  obtain ⟨rfl, rfl⟩ := Phase.aging.inj hPhase
  refine ⟨i.entry id mtime hEntry, fun q since _ hOwned => ?_⟩
  obtain ⟨mtime', hPresent, hLater⟩ := (i.owned q id since hOwned).present
  rw [hEntry] at hPresent
  obtain ⟨-, rfl⟩ := PathEntry.dir.inj hPresent
  exact hLater

theorem inv_reclaiming (hPhase : s.phase p = .aging id mtime) (hStale : max staleAfter minStale < s.now - mtime) :
    Inv staleAfter (s.goto p (.reclaiming id)) := by
  obtain ⟨hSeq, hOwners⟩ := i.aging p id mtime hPhase
  refine @Inv.move staleAfter s p _ s.entry i s.next
    ⟨fun q id' since _ hOwned => (i.owned q id' since hOwned).present, by simp [Phase.owned], by simp [Phase.owned], i.entry,
      Nat.le_refl _, by simp, ?_, by simp⟩
  intro id' hHere
  obtain rfl := Phase.reclaiming.inj hHere
  refine ⟨hSeq, fun q since _ hOwned => ?_⟩
  have hSince := hOwners q since hOwned
  have hTimely := (i.owned q id since hOwned).timely
  have hMost := Nat.le_max_left staleAfter minStale
  omega

theorem inv_aimed (hRemoved : Quiet p removed) (hMissing : Quiet p missing) (hFailed : Quiet p failed)
    (hAimed : ∀ id' mtime, s.entry = .dir id' mtime → id' = id)
    (hFree : ∀ q since, q ≠ p → (s.phase q).owned ≠ some (id, since)) :
    Inv staleAfter (s.removeDir p fails removed missing failed) := by
  refine i.removeDir hRemoved hMissing hFailed ?_
  intro id' mtime q since hEntry hNe hOwned
  obtain ⟨mtime', hPresent, -⟩ := (i.owned q id' since hOwned).present
  obtain rfl := hAimed id' mtime' hPresent
  exact hFree q since hNe hOwned

theorem inv_act (hAimed : s.Aimed (.act p fails)) :
    Inv staleAfter (s.act staleAfter p fails) := by
  unfold LockState.act
  cases hPhase : s.phase p with
  | idle => exact i.goto_quiet (quiet_creating false)
  | creating retry =>
    simp only
    split
    next => exact i.goto_quiet quiet_idle
    next =>
      split
      next hAbsent => exact inv_creating i retry hAbsent
      next =>
        split
        next => exact i.goto_quiet quiet_idle
        next => exact i.goto_quiet quiet_judging
  | probing retry id since =>
    simp only
    split
    next => exact (inv_probing i hPhase).1
    next => exact (inv_probing i hPhase).2
  | cleaning id since =>
    have hOwned : (s.phase p).owned = some (id, since) := by rw [hPhase]; rfl
    refine i.removeDir quiet_idle quiet_idle quiet_idle ?_
    exact fun id' mtime q since' _ hNe => i.clear_of_owned hOwned hNe
  | judging =>
    simp only
    split
    next => exact i.goto_quiet quiet_idle
    next =>
      split
      next => exact i.goto_quiet (quiet_creating true)
      next => exact i.goto_quiet quiet_flocking
      next id mtime hEntry => exact inv_aging i hEntry
      next => exact i.goto_quiet quiet_idle
  | aging id mtime =>
    simp only
    split
    next hStale => exact inv_reclaiming i hPhase hStale
    next => exact i.goto_quiet quiet_idle
  | flocking =>
    simp only
    split
    next => exact i.goto_quiet quiet_idle
    next => exact i.goto_quiet quiet_removingFile
  | removingFile =>
    simp only
    split
    next => exact i.goto_quiet (quiet_creating true)
    next => exact i.goto_quiet quiet_idle
    next hNotDir =>
      split
      next => exact i.goto_quiet quiet_idle
      next =>
        refine i.quiet (quiet_creating true) ?_ (by simp)
        intro q id since _ hOwned
        obtain ⟨mtime, hEntry, -⟩ := (i.owned q id since hOwned).present
        exact absurd hEntry (hNotDir id mtime)
  | reclaiming id =>
    simp only [Aimed, hPhase] at hAimed
    refine inv_aimed i (quiet_creating true) (quiet_creating true) quiet_idle hAimed ?_
    exact fun q since _ => (i.reclaiming p id hPhase).2 q since
  | holding id since =>
    have hOwned : (s.phase p).owned = some (id, since) := by rw [hPhase]; rfl
    refine i.removeDir quiet_idle quiet_idle quiet_idle ?_
    exact fun id' mtime q since' _ hNe => i.clear_of_owned hOwned hNe
  | released id =>
    simp only [Aimed, hPhase] at hAimed
    refine inv_aimed i quiet_idle quiet_idle quiet_idle hAimed ?_
    intro q since hNe hOwned
    exact hNe ((i.owned q id since hOwned).creator.symm.trans (i.released p id hPhase))
  | crashed => exact i

theorem inv_release (p : Nat) (fails : Bool) : Inv staleAfter (s.release p fails) := by
  unfold LockState.release
  cases hPhase : s.phase p with
  | holding id since =>
    have hOwned : (s.phase p).owned = some (id, since) := by rw [hPhase]; rfl
    have hQuiet := quiet_released (i.owned p id since hOwned).creator
    refine i.removeDir hQuiet hQuiet hQuiet ?_
    exact fun id' mtime q since' _ hNe => i.clear_of_owned hOwned hNe
  | _ => exact i

theorem inv_tick {elapsed : Nat} (hPunctual : s.Punctual staleAfter (.tick elapsed)) :
    Inv staleAfter { s with now := s.now + elapsed } := by
  refine ⟨?_, i.entry, i.aging, i.reclaiming, i.released⟩
  intro p id since hOwned
  have hBefore := i.owned p id since hOwned
  exact ⟨hBefore.creator, Nat.le_add_right_of_le hBefore.started, hPunctual p id since hOwned, hBefore.present⟩

theorem inv_legacy (flocked : Bool) : Inv staleAfter (s.step staleAfter (.legacy flocked)) := by
  have hNone : ∀ entry : PathEntry, (∀ id mtime, s.entry ≠ .dir id mtime) → (∀ id mtime, entry ≠ .dir id mtime) →
      Inv staleAfter { s with entry := entry } := by
    intro entry hBefore hAfter
    refine ⟨?_, fun id mtime hEntry => absurd hEntry (hAfter id mtime), i.aging, i.reclaiming, i.released⟩
    intro p id since hOwned
    obtain ⟨mtime, hEntry, -⟩ := (i.owned p id since hOwned).present
    exact absurd hEntry (hBefore id mtime)
  unfold LockState.step
  cases hEntry : s.entry with
  | absent | file _ => exact hNone _ (by simp [hEntry]) (by simp)
  | dir id mtime => exact i
  | other => exact i

theorem inv_step (hPunctual : s.Punctual staleAfter step) (hAimed : s.Aimed step) :
    Inv staleAfter (s.step staleAfter step) := by
  cases step with
  | act p fails => exact inv_act i hAimed
  | release p fails => exact inv_release i p fails
  | crash p => exact i.goto_quiet quiet_crashed
  | tick elapsed => exact inv_tick i hPunctual
  | legacy flocked => exact inv_legacy i flocked

end

theorem inv_reached (hReached : Reached staleAfter s) : Inv staleAfter s := by
  induction hReached with
  | initial => exact inv_initial
  | step step _ hPunctual hAimed ih => exact inv_step ih hPunctual hAimed

/-! ## Who a step moves -/

def LockStep.agent : LockStep → Option Nat
  | .act p _ => some p
  | .release p _ => some p
  | .crash p => some p
  | _ => none

theorem goto_other (hNe : q ≠ p) : (s.goto p phase).phase q = s.phase q :=
  Function.update_of_ne hNe ..

theorem removeDir_other (hNe : q ≠ p) :
    (s.removeDir p fails removed missing failed).phase q = s.phase q := by
  unfold LockState.removeDir
  split
  next => exact goto_other hNe
  next =>
    split
    next => exact goto_other hNe
    next => exact goto_other hNe
  next => exact goto_other hNe

theorem act_other (hNe : q ≠ p) : (s.act staleAfter p fails).phase q = s.phase q := by
  unfold LockState.act
  cases s.phase p with
  | idle => exact goto_other hNe
  | creating retry =>
    simp only
    split
    next => exact goto_other hNe
    next =>
      split
      next => exact goto_other hNe
      next => exact goto_other hNe
  | probing retry id since =>
    simp only
    split
    next => exact goto_other hNe
    next => exact goto_other hNe
  | cleaning id since => exact removeDir_other hNe
  | judging =>
    simp only
    split
    next => exact goto_other hNe
    next =>
      split
      next => exact goto_other hNe
      next => exact goto_other hNe
      next => exact goto_other hNe
      next => exact goto_other hNe
  | aging id mtime | flocking => exact goto_other hNe
  | removingFile =>
    simp only
    split
    next => exact goto_other hNe
    next => exact goto_other hNe
    next =>
      split
      next => exact goto_other hNe
      next => exact goto_other hNe
  | reclaiming id | holding id since | released id => exact removeDir_other hNe
  | crashed => rfl

theorem step_other (hNe : step.agent ≠ some q) : (s.step staleAfter step).phase q = s.phase q := by
  cases step with
  | act p fails => exact act_other fun hSame => hNe (by rw [hSame]; rfl)
  | release p fails =>
    have hApart : q ≠ p := fun hSame => hNe (by rw [hSame]; rfl)
    show (s.release p fails).phase q = s.phase q
    unfold LockState.release
    split
    next => exact removeDir_other hApart
    next => rfl
  | crash p => exact goto_other fun hSame => hNe (by rw [hSame]; rfl)
  | tick elapsed => rfl
  | legacy flocked =>
    show (s.step staleAfter (.legacy flocked)).phase q = s.phase q
    unfold LockState.step
    cases s.entry with
    | absent | file _ | dir id mtime | other => rfl

/-! ## The lock -/

/-- The agent lives and has a `LockDir` that it has not released. -/
def LockState.Holds (s : LockState) (p : Nat) : Prop :=
  ∃ id since, s.phase p = .holding id since

theorem owned_of_holds (hHolds : s.Holds p) : ∃ id since, (s.phase p).owned = some (id, since) := by
  obtain ⟨id, since, hPhase⟩ := hHolds
  exact ⟨id, since, by rw [hPhase]; rfl⟩

def LockState.Exclusive (s : LockState) : Prop :=
  ∀ p q, s.Holds p → s.Holds q → p = q

theorem Inv.exclusive (i : Inv staleAfter s) : s.Exclusive := by
  intro p q hFirst hSecond
  obtain ⟨id, since, hOwned⟩ := owned_of_holds hFirst
  obtain ⟨id', since', hOther⟩ := owned_of_holds hSecond
  exact (i.alone hOwned hOther).1

/-- What a further step does to the lock: no acquire succeeds beside a live holder, and no step of another agent takes
away the directory of a live owner. -/
structure SafeStep (staleAfter : Nat) (s : LockState) (step : LockStep) : Prop where
  acquire : ∀ p, ¬ s.Holds p → (s.step staleAfter step).Holds p → ∀ q, ¬ s.Holds q
  removal : ∀ q id since, step.agent ≠ some q → (s.phase q).owned = some (id, since) →
    ∃ mtime, (s.step staleAfter step).entry = .dir id mtime

theorem Inv.safeStep (i : Inv staleAfter s) (hPunctual : s.Punctual staleAfter step) (hAimed : s.Aimed step) :
    SafeStep staleAfter s step := by
  have hAfter := inv_step i hPunctual hAimed
  constructor
  · intro p hNot hHolds q hOther
    have hAgent : step.agent = some p := by
      by_contra hNe
      unfold LockState.Holds at hHolds
      rw [step_other hNe] at hHolds
      exact hNot hHolds
    have hApart : p ≠ q := fun hSame => hNot (by rw [hSame]; exact hOther)
    have hStays : (s.step staleAfter step).Holds q := by
      unfold LockState.Holds
      rw [step_other (by rw [hAgent]; simpa using hApart)]
      exact hOther
    exact hApart (hAfter.exclusive p q hHolds hStays)
  · intro q id since hNe hOwned
    rw [← @step_other staleAfter s q step hNe] at hOwned
    obtain ⟨mtime, hEntry, -⟩ := (hAfter.owned q id since hOwned).present
    exact ⟨mtime, hEntry⟩

def LockState.alone (staleAfter : Nat) (p : Nat) : Nat → LockState → LockState
  | 0, s => s
  | n + 1, s => LockState.alone staleAfter p n (s.act staleAfter p false)

theorem alone_acquires (hEntry : s.entry = .dir id mtime) (hStale : max staleAfter minStale < s.now - mtime)
    (hIdle : s.phase p = .idle) :
    (LockState.alone staleAfter p 7 s).Holds p := by
  have hJudging : s.act staleAfter p false = s.goto p (.creating false) := by
    unfold LockState.act
    rw [hIdle]
  refine ⟨⟨p, s.next⟩, s.now, ?_⟩
  simp only [LockState.alone, hJudging]
  simp [LockState.act, LockState.goto, LockState.removeDir, hEntry, hStale, PathEntry.touch]

theorem lock_exclusive (hReached : Reached staleAfter s) :
    s.Exclusive ∧
      (∀ step, s.Punctual staleAfter step → s.Aimed step → SafeStep staleAfter s step) ∧
      ∀ id mtime p, s.entry = .dir id mtime → max staleAfter minStale < s.now - mtime →
        (∀ q, (s.phase q).owned = none) → s.phase p = .idle → (LockState.alone staleAfter p 7 s).Holds p := by
  have hInv := inv_reached hReached
  refine ⟨hInv.exclusive, fun step => hInv.safeStep, ?_⟩
  exact fun id mtime p hEntry hStale _ hIdle => alone_acquires hEntry hStale hIdle

/-! ## Two runs -/

def afterSteps (staleAfter : Nat) (steps : List LockStep) : LockState :=
  steps.foldl (·.step staleAfter) .initial

def acquireSteps (p : Nat) : List LockStep :=
  List.replicate 3 (.act p false)

theorem acquired_exclusive : (afterSteps 0 (acquireSteps 0)).Holds 0 ∧ (afterSteps 0 (acquireSteps 0)).Exclusive := by
  have hReached : Reached 0 (afterSteps 0 (acquireSteps 0)) :=
    .step (.act 0 false) (.step (.act 0 false) (.step (.act 0 false) .initial trivial trivial) trivial trivial) trivial
      trivial
  exact ⟨⟨⟨0, 0⟩, 0, rfl⟩, (lock_exclusive hReached).1⟩

def PunctualRun (staleAfter : Nat) : LockState → List LockStep → Prop
  | _, [] => True
  | s, step :: steps => s.Punctual staleAfter step ∧ PunctualRun staleAfter (s.step staleAfter step) steps

/-- Agent 0 crashes while it holds the lock. Agents 1 and 2 both judge its directory stale; 1 reclaims it and acquires,
then 2 removes the directory of 1 and acquires too. -/
def takeoverSteps : List LockStep :=
  acquireSteps 0 ++ [.crash 0, .tick 60000000000] ++ List.replicate 4 (.act 1 false) ++ List.replicate 4 (.act 2 false) ++
    List.replicate 3 (.act 1 false) ++ List.replicate 3 (.act 2 false)

theorem takeover_two_holders :
    ¬ ∀ staleAfter steps, PunctualRun staleAfter .initial steps → (afterSteps staleAfter steps).Exclusive := by
  intro hClaim
  have hRun : PunctualRun 10000000000 .initial takeoverSteps := by
    refine ⟨trivial, trivial, trivial, trivial, ?_, trivial, trivial, trivial, trivial, trivial, trivial, trivial, trivial,
      trivial, trivial, trivial, trivial, trivial, trivial, trivial⟩
    intro p id since hOwned
    obtain rfl | hOther := eq_or_ne p 0
    · cases hOwned
    · have hIdle : ((((LockState.initial.act 10000000000 0 false).act 10000000000 0 false).act 10000000000 0 false).goto 0
          .crashed).phase p = .idle := by
        rw [goto_other hOther, act_other hOther, act_other hOther, act_other hOther]
        rfl
      have hSame : (Phase.idle).owned = some (id, since) := hIdle ▸ hOwned
      cases hSame
  have hFirst : (afterSteps 10000000000 takeoverSteps).Holds 1 := ⟨⟨1, 1⟩, 60000000000, by decide +kernel⟩
  have hSecond : (afterSteps 10000000000 takeoverSteps).Holds 2 := ⟨⟨2, 2⟩, 60000000000, by decide +kernel⟩
  cases hClaim _ _ hRun 1 2 hFirst hSecond

end PrimeAgent.Lock
