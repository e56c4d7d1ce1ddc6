import PrimeAgent.Lease.Steps

/-! # One owner of a session

Where every steal meets the guard it has judged, a session has one live owner, and a crashed owner's lease can be taken
over. Where one does not, two acquires run under guards of their own, and both hand out a lease.
-/
namespace PrimeAgent.Lease

open NamedDir LeaseState

variable {home : Nat → Nat} {s : LeaseState} {p q : Nat} {step : LeaseStep} {token other : Nat} {owner : LeaseOwner}
  {steps : List LeaseStep} {guard : Dir} {since : Nat}

/-- The lease passes the ownership check of `append`. -/
def LeaseState.Passes (s : LeaseState) (token : Nat) : Prop :=
  (∃ process, s.lease = some ⟨token, process⟩) ∧ ∃ process, s.held token = some ⟨process, false⟩

theorem LeaseState.Passes.unique (hFirst : s.Passes token) (hSecond : s.Passes other) : token = other := by
  obtain ⟨⟨process, hLease⟩, -⟩ := hFirst
  obtain ⟨⟨process', hOther⟩, -⟩ := hSecond
  rw [hLease] at hOther
  exact (LeaseOwner.mk.inj (Option.some.inj hOther)).1

theorem Inv.passes (i : Inv s) (hOwning : s.Owning token) : s.Passes token := by
  obtain ⟨process, hHeld, hAlive⟩ := hOwning
  exact ⟨⟨process, i.recorded token process hHeld hAlive⟩, process, hHeld⟩

/-! ## Acquires -/

def LeaseState.Acquires (s : LeaseState) (step : LeaseStep) (token : Nat) : Prop :=
  s.held token = none ∧ (s.step step).held token ≠ none

theorem act_held (p : Nat) (fault : Fault) : (s.act p fault).held = s.held ∨ s.lease = none := by
  unfold LeaseState.act
  cases s.phase p with
  | idle => exact .inl rfl
  | entering op =>
    simp only
    split
    next => exact .inl rfl
    next =>
      split
      next => exact .inl rfl
      next => exact .inl rfl
  | contended op =>
    simp only
    split
    next =>
      split
      next => exact .inl rfl
      next => exact .inl rfl
    next => exact .inl rfl
  | aged op guard time => exact .inl rfl
  | checking op guard | stealing op guard =>
    simp only
    split
    next => exact .inl rfl
    next => exact .inl rfl
  | placing guard since tries =>
    cases fault with
    | error | notFound => exact .inl rfl
    | none =>
      simp only
      split
      next hLease => exact .inr hLease
      next => exact .inl rfl
  | inspecting guard since tries | reclaiming guard since tries =>
    simp only
    split
    next => exact .inl rfl
    next => exact .inl rfl
  | verifying guard since token =>
    simp only
    split
    next => exact .inl rfl
    next =>
      split
      next => exact .inl rfl
      next => exact .inl rfl
  | writing guard since token | matching guard since token | dropping guard since token | leaving guard since =>
    simp only
    split
    next => exact .inl rfl
    next => exact .inl rfl
  | crashed => exact .inl rfl

theorem begin_held (p : Nat) (op : LeaseOp) (hFree : s.held token = none) : (s.begin p op).held token = none := by
  unfold LeaseState.begin
  split
  next => exact hFree
  next =>
    cases op with
    | acquire => exact hFree
    | append other =>
      simp only
      split
      next => exact hFree
      next => exact hFree
    | release other =>
      simp only
      split
      next hHeld =>
        show Function.update s.held other _ token = none
        rw [Function.update_of_ne, hFree]
        rintro rfl
        rw [hFree] at hHeld
        cases hHeld
      next => exact hFree

theorem LeaseState.Acquires.vacant (hAcquires : s.Acquires step token) : s.lease = none := by
  obtain ⟨hFree, hHeld⟩ := hAcquires
  cases step with
  | act p fault =>
    obtain hSame | hVacant := @act_held s p fault
    · exact absurd ((congrFun hSame token).trans hFree) hHeld
    · exact hVacant
  | begin p op => exact absurd (begin_held p op hFree) hHeld
  | giveUp p =>
    refine absurd ?_ hHeld
    show (s.giveUp p).held token = none
    unfold LeaseState.giveUp
    split
    next => exact hFree
    next => exact hFree
  | crash process | tick elapsed => exact absurd hFree hHeld

theorem Inv.vacant (i : Inv s) (hVacant : s.lease = none) (other : Nat) : ¬ s.Owning other := by
  rintro ⟨process, hHeld, hAlive⟩
  have hLease := i.recorded other process hHeld hAlive
  rw [hVacant] at hLease
  cases hLease

/-! ## A crashed owner -/

def Legal : LeaseState → List LeaseStep → Prop
  | _, [] => True
  | s, step :: steps => s.Punctual step ∧ s.Aimed step ∧ Legal (s.step step) steps

def afterSteps (s : LeaseState) (steps : List LeaseStep) : LeaseState :=
  steps.foldl LeaseState.step s

theorem legal_append {steps steps' : List LeaseStep} (hFirst : Legal s steps) (hSecond : Legal (afterSteps s steps) steps') :
    Legal s (steps ++ steps') := by
  induction steps generalizing s with
  | nil => exact hSecond
  | cons step steps ih => exact ⟨hFirst.1, hFirst.2.1, ih hFirst.2.2 hSecond⟩

theorem afterSteps_append (steps steps' : List LeaseStep) :
    afterSteps s (steps ++ steps') = afterSteps (afterSteps s steps) steps' :=
  List.foldl_append ..

theorem reached_legal (hReached : Reached home s) (hLegal : Legal s steps) :
    Reached home (afterSteps s steps) := by
  induction steps generalizing s with
  | nil => exact hReached
  | cons step steps ih => exact ih (.step step hReached hLegal.1 hLegal.2.1) hLegal.2.2

/-- The acquire of agent `p` has taken the place of no lease. -/
def LeaseState.Acquired (s : LeaseState) (p : Nat) : Prop :=
  ∃ token, s.lease = some ⟨token, s.home p⟩ ∧ s.held token = some ⟨s.home p, false⟩

theorem acquire_free (hPhase : s.phase p = .entering .acquire) (hGuard : s.guard = none) (hLease : s.lease = some owner)
    (hDead : s.alive owner.process = false) :
    Legal s (List.replicate 6 (.act p .none)) ∧ (afterSteps s (List.replicate 6 (.act p .none))).Acquired p := by
  constructor
  · simp [Legal, List.replicate, LeaseState.Punctual, LeaseState.Aimed, LeaseState.step, LeaseState.act, LeaseState.goto,
      hPhase, hGuard, hLease, hDead, opened, ownerAlive, again]
  · refine ⟨s.nextToken, ?_⟩
    simp [afterSteps, List.replicate, LeaseState.step, LeaseState.act, LeaseState.goto, hPhase, hGuard, hLease, hDead, opened,
      ownerAlive, again]

theorem steal_stale {guard : Dir} {time : Nat} (hPhase : s.phase p = .entering .acquire)
    (hGuard : s.guard = some (guard, time)) (hStale : staleGuardAfter < s.now - time) (hLease : s.lease = some owner)
    (hDead : s.alive owner.process = false) :
    Legal s (List.replicate 5 (.act p .none)) ∧
      (afterSteps s (List.replicate 5 (.act p .none))).phase p = .entering .acquire ∧
      (afterSteps s (List.replicate 5 (.act p .none))).guard = none ∧
      (afterSteps s (List.replicate 5 (.act p .none))).lease = s.lease ∧
      (afterSteps s (List.replicate 5 (.act p .none))).alive = s.alive := by
  refine ⟨?_, ?_, ?_, ?_, ?_⟩
  · simp [Legal, List.replicate, LeaseState.Punctual, LeaseState.Aimed, LeaseState.step, LeaseState.act, LeaseState.goto,
      hPhase, hGuard, hStale, hLease, hDead, ownerAlive]
  all_goals
    simp [afterSteps, List.replicate, LeaseState.step, LeaseState.act, LeaseState.goto, hPhase, hGuard, hStale, hLease, hDead,
      ownerAlive]

structure Left (s : LeaseState) (q : Nat) (s' : LeaseState) : Prop where
  guard : s'.guard = none
  lease : s'.lease = s.lease
  alive : s'.alive = s.alive
  phases : ∀ p, p ≠ q → s'.phase p = s.phase p

theorem leave_leaving (hPhase : s.phase q = .leaving guard since) :
    Legal s [.act q .none] ∧ Left s q (afterSteps s [.act q .none]) := by
  have hAct : s.act q .none = { s with guard := none }.goto q .idle := by
    simp [LeaseState.act, hPhase]
  refine ⟨⟨trivial, by simp [LeaseState.Aimed, hPhase], trivial⟩, ?_⟩
  show Left s q (s.act q .none)
  rw [hAct]
  exact ⟨rfl, rfl, rfl, fun p hNe => Function.update_of_ne hNe ..⟩

theorem Left.before {phase : Phase} {s' : LeaseState} (hLeft : Left (s.goto q phase) q s') : Left s q s' := by
  refine ⟨hLeft.guard, hLeft.lease, hLeft.alive, fun p hNe => ?_⟩
  rw [hLeft.phases p hNe]
  exact Function.update_of_ne hNe ..

theorem leave_step {phase : Phase} (hAct : s.act q .error = s.goto q phase) (hAimed : s.Aimed (.act q .error))
    (hLeaves : ∃ steps, Legal (s.goto q phase) steps ∧ Left (s.goto q phase) q (afterSteps (s.goto q phase) steps)) :
    ∃ steps, Legal s steps ∧ Left s q (afterSteps s steps) := by
  obtain ⟨steps, hLegal, hLeft⟩ := hLeaves
  refine ⟨.act q .error :: steps, ⟨trivial, hAimed, ?_⟩, ?_⟩
  · show Legal (s.act q .error) steps
    rw [hAct]
    exact hLegal
  · show Left s q (afterSteps (s.act q .error) steps)
    rw [hAct]
    exact hLeft.before

theorem goto_leaves (s : LeaseState) (q : Nat) (guard : Dir) (since : Nat) :
    ∃ steps, Legal (s.goto q (.leaving guard since)) steps ∧
      Left (s.goto q (.leaving guard since)) q (afterSteps (s.goto q (.leaving guard since)) steps) :=
  ⟨_, leave_leaving (Function.update_self ..)⟩

theorem placing_leaves {since tries : Nat} (hPhase : s.phase q = .placing guard since tries) :
    ∃ steps, Legal s steps ∧ Left s q (afterSteps s steps) :=
  leave_step (by simp only [LeaseState.act, hPhase]) (by simp [LeaseState.Aimed, hPhase]) (goto_leaves s q guard since)

theorem holder_leaves (hOwned : (s.phase q).owned = some (guard, since)) :
    ∃ steps, Legal s steps ∧ Left s q (afterSteps s steps) := by
  have hAimed : s.Aimed (.act q .error) := by
    cases hPhase : s.phase q with
    | stealing => rw [hPhase] at hOwned; cases hOwned
    | _ => simp [LeaseState.Aimed, hPhase]
  cases hPhase : s.phase q with
  | placing guard since tries => exact placing_leaves hPhase
  | inspecting guard since tries =>
    exact leave_step (by simp [LeaseState.act, hPhase]) hAimed (goto_leaves s q guard since)
  | reclaiming guard since tries =>
    refine @leave_step s q (again guard since tries) (by simp [LeaseState.act, hPhase]) hAimed ?_
    unfold again
    split
    next => exact placing_leaves (Function.update_self ..)
    next => exact goto_leaves s q guard since
  | verifying guard since token | writing guard since token | matching guard since token
    | dropping guard since token =>
    exact leave_step (by simp [LeaseState.act, hPhase]) hAimed (goto_leaves s q guard since)
  | leaving guard since => exact ⟨_, leave_leaving hPhase⟩
  | _ => rw [hPhase] at hOwned; cases hOwned

theorem begin_acquire (hIdle : s.phase p = .idle) :
    Legal s [.begin p .acquire] ∧ afterSteps s [.begin p .acquire] = s.goto p (.entering .acquire) := by
  refine ⟨⟨trivial, trivial, trivial⟩, ?_⟩
  show s.begin p .acquire = _
  simp [LeaseState.begin, hIdle]

theorem recover_free (hIdle : s.phase p = .idle) (hGuard : s.guard = none) (hLease : s.lease = some owner)
    (hDead : s.alive owner.process = false) : ∃ steps, Legal s steps ∧ (afterSteps s steps).Acquired p := by
  obtain ⟨hLegal, hAfter⟩ := begin_acquire hIdle
  obtain ⟨hActs, hAcquired⟩ := @acquire_free (s.goto p (.entering .acquire)) p owner (Function.update_self ..) hGuard hLease
    hDead
  refine ⟨[.begin p .acquire] ++ List.replicate 6 (.act p .none), legal_append hLegal ?_, ?_⟩
  · rw [hAfter]
    exact hActs
  · rw [afterSteps_append, hAfter]
    exact hAcquired

theorem recover_stale {time : Nat} (hIdle : s.phase p = .idle) (hGuard : s.guard = some (guard, time))
    (hFree : ∀ q guard since, (s.phase q).owned ≠ some (guard, since)) (hLease : s.lease = some owner)
    (hDead : s.alive owner.process = false) : ∃ steps, Legal s steps ∧ (afterSteps s steps).Acquired p := by
  let later : LeaseState := { s with now := s.now + (time + staleGuardAfter + 1) }
  have hTick : Legal s [.tick (time + staleGuardAfter + 1)] :=
    ⟨fun q guard since hOwned => absurd hOwned (hFree q guard since), trivial, trivial⟩
  obtain ⟨hBegin, hEntered⟩ := @begin_acquire later p hIdle
  have hStale : staleGuardAfter < (later.goto p (.entering .acquire)).now - time := by
    show staleGuardAfter < s.now + (time + staleGuardAfter + 1) - time
    omega
  obtain ⟨hSteals, hPhase, hGone, hKept, hAlive⟩ :=
    @steal_stale (later.goto p (.entering .acquire)) p owner guard time (Function.update_self ..) hGuard hStale hLease hDead
  obtain ⟨hActs, hAcquired⟩ := acquire_free hPhase hGone (hKept.trans hLease) (by rw [hAlive]; exact hDead)
  refine ⟨[.tick (time + staleGuardAfter + 1)] ++ ([.begin p .acquire] ++ (List.replicate 5 (.act p .none) ++
    List.replicate 6 (.act p .none))), legal_append hTick ?_, ?_⟩
  · refine @legal_append later _ _ hBegin ?_
    rw [hEntered]
    exact legal_append hSteals hActs
  · rw [afterSteps_append, afterSteps_append]
    change (afterSteps (afterSteps later _) _).Acquired p
    rw [hEntered, afterSteps_append]
    exact hAcquired

theorem recoverable (hIdle : s.phase p = .idle) (hLease : s.lease = some owner) (hDead : s.alive owner.process = false) :
    ∃ steps, Legal s steps ∧ (afterSteps s steps).Acquired p := by
  cases hGuard : s.guard with
  | none => exact recover_free hIdle hGuard hLease hDead
  | some entry =>
    obtain ⟨guard, time⟩ := entry
    by_cases hFree : ∀ q guard since, (s.phase q).owned ≠ some (guard, since)
    · exact recover_stale hIdle hGuard hFree hLease hDead
    · simp only [ne_eq, not_forall, not_not] at hFree
      obtain ⟨q, held, since, hOwned⟩ := hFree
      have hApart : p ≠ q := by
        rintro rfl
        rw [hIdle] at hOwned
        cases hOwned
      obtain ⟨leave, hLegal, hLeft⟩ := holder_leaves hOwned
      obtain ⟨steps, hSteps, hAcquired⟩ := @recover_free (afterSteps s leave) p owner ((hLeft.phases p hApart).trans hIdle)
        hLeft.guard (hLeft.lease.trans hLease) (by rw [hLeft.alive]; exact hDead)
      refine ⟨leave ++ steps, legal_append hLegal hSteps, ?_⟩
      rw [afterSteps_append]
      exact hAcquired

/-! ## The lease -/

theorem lease_exclusive (hReached : Reached home s) :
    (∀ token other, s.Passes token → s.Passes other → token = other) ∧
      (∀ token, s.Owning token → s.Passes token) ∧
      (∀ step token, s.Acquires step token → ∀ other, ¬ s.Owning other) ∧
      (∀ write ∈ s.appended, write.2.map (·.token) = some write.1) ∧
      ∀ p owner, s.phase p = .idle → s.lease = some owner → s.alive owner.process = false →
        ∃ steps, Legal s steps ∧ (afterSteps s steps).Acquired p := by
  have hInv := inv_reached hReached
  refine ⟨fun token other => LeaseState.Passes.unique, fun token => hInv.passes, ?_, hInv.appended, ?_⟩
  · exact fun step token hAcquires => hInv.vacant hAcquires.vacant
  · exact fun p owner => recoverable

/-! ## Two runs -/

def atHome : LeaseState :=
  .initial id

/-- An acquire of agent `p` of a free lease. -/
def acquireSteps (p : Nat) : List LeaseStep :=
  [.begin p .acquire, .act p .none, .act p .none, .act p .none]

theorem acquired_passes : (afterSteps atHome (acquireSteps 0)).Owning 0 ∧ (afterSteps atHome (acquireSteps 0)).Passes 0 := by
  have hLegal : Legal atHome (acquireSteps 0) := by
    simp [atHome, acquireSteps, Legal, LeaseState.Punctual, LeaseState.Aimed, LeaseState.step, LeaseState.act,
      LeaseState.begin, LeaseState.goto, LeaseState.initial, opened]
  have hOwning : (afterSteps atHome (acquireSteps 0)).Owning 0 := ⟨0, rfl, rfl⟩
  exact ⟨hOwning, (lease_exclusive (reached_legal .initial hLegal)).2.1 0 hOwning⟩

def PunctualRun : LeaseState → List LeaseStep → Prop
  | _, [] => True
  | s, step :: steps => s.Punctual step ∧ PunctualRun (s.step step) steps

theorem punctual_append {steps steps' : List LeaseStep} (hFirst : PunctualRun s steps)
    (hSecond : PunctualRun (afterSteps s steps) steps') : PunctualRun s (steps ++ steps') := by
  induction steps generalizing s with
  | nil => exact hSecond
  | cons step steps ih => exact ⟨hFirst.1, ih hFirst.2 hSecond⟩

def LeaseStep.isInstant : LeaseStep → Bool
  | .tick _ => false
  | _ => true

theorem punctual_instant (hInstant : ∀ step ∈ steps, step.isInstant = true) :
    PunctualRun s steps := by
  induction steps generalizing s with
  | nil => trivial
  | cons step steps ih =>
    refine ⟨?_, ih fun other hMem => hInstant other (List.mem_cons_of_mem _ hMem)⟩
    have hHere := hInstant step List.mem_cons_self
    cases step with
    | tick elapsed => cases hHere
    | _ => trivial

/-- Agent 0 dies in an append and leaves its guard behind. Agents 1 and 2 both judge the guard stale; 1 steals it and
finds the recorded owner dead, then 2 steals the guard of 1 and finds the same. 1 puts its lease in place, and 2 takes it
away. -/
def stealSteps : List LeaseStep :=
  acquireSteps 0 ++ [.begin 0 (.append 0), .act 0 .none, .crash 0, .tick 6000] ++
    .begin 1 .acquire :: List.replicate 4 (.act 1 .none) ++
    .begin 2 .acquire :: List.replicate 4 (.act 2 .none) ++
    List.replicate 4 (.act 1 .none) ++ List.replicate 4 (.act 2 .none) ++
    List.replicate 2 (.act 1 .none) ++ [.act 2 .none]

theorem crashed_outside (p : Nat) :
    ((afterSteps atHome (acquireSteps 0 ++ [.begin 0 (.append 0), .act 0 .none, .crash 0])).phase p).owned = none := by
  obtain rfl | hOther := eq_or_ne p 0
  · rfl
  · have hIdle : (afterSteps atHome (acquireSteps 0 ++ [.begin 0 (.append 0), .act 0 .none])).phase p = .idle := by
      simp [afterSteps, acquireSteps, atHome, LeaseState.initial, LeaseState.step, LeaseState.act, LeaseState.begin,
        LeaseState.goto, opened, Function.update_of_ne hOther]
    show (if p = 0 then Phase.crashed
      else (afterSteps atHome (acquireSteps 0 ++ [.begin 0 (.append 0), .act 0 .none])).phase p).owned = none
    rw [if_neg hOther, hIdle]
    rfl

theorem stolen_guard_two_owners :
    ¬ ∀ home steps step, PunctualRun (.initial home) (steps ++ [step]) → ∀ token other,
      (afterSteps (.initial home) steps).Acquires step token → ¬ (afterSteps (.initial home) steps).Owning other := by
  intro hClaim
  have hTick : PunctualRun (afterSteps atHome (acquireSteps 0 ++ [.begin 0 (.append 0), .act 0 .none, .crash 0]))
      (stealSteps.drop 7 ++ [.act 2 .none]) := by
    refine ⟨?_, punctual_instant (by decide)⟩
    intro p guard since hOwned
    have hNone : some (guard, since) = none := hOwned.symm.trans (crashed_outside p)
    cases hNone
  have hRun : PunctualRun atHome (stealSteps ++ [.act 2 .none]) :=
    @punctual_append atHome (stealSteps.take 7) _ (punctual_instant (by decide)) hTick
  have hAcquires : (afterSteps atHome stealSteps).Acquires (.act 2 .none) 2 := ⟨by decide +kernel, by decide +kernel⟩
  have hOwning : (afterSteps atHome stealSteps).Owning 1 := ⟨1, by decide +kernel, by decide +kernel⟩
  exact hClaim id stealSteps (.act 2 .none) hRun 2 1 hAcquires hOwning

end PrimeAgent.Lease
