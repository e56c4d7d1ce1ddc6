import PrimeAgent.Goal.Accounting

/-! # Continuations of a goal

A mint takes a slot and leaves the continuation pending until its surface admits it. A deferral arms the owed flag, and a
settled descendant takes it. Beside the driver stands a ledger of the mints, rollbacks and deferrals.
-/
namespace PrimeAgent.Goal

open Held

variable {h h' h'' : Held} {env : OpEnv} {now : Nat} {persist : Persist} {next : GoalState}

theorem recorded_continuationsUsed : (recorded now next).continuationsUsed = next.continuationsUsed := by
  unfold recorded
  simp only
  split <;> rfl

theorem recorded_objective : (recorded now next).objective = next.objective := by
  unfold recorded
  simp only
  split <;> rfl

/-! ## Operations without a mint -/

/-- No slot is taken and nothing is deferred; the pending continuation stays with the status, or is dropped with it. -/
structure Steady (h h' : Held) : Prop where
  owed : h'.driver.owedContinuationForRlmWork = true → h.driver.owedContinuationForRlmWork = true
  used : h'.driver.state.continuationsUsed = h.driver.state.continuationsUsed
  objective : h'.driver.state.objective = h.driver.state.objective
  pending : (h'.driver.pendingContinuation = h.driver.pendingContinuation ∧
      h'.driver.state.status = h.driver.state.status) ∨
    (h'.driver.pendingContinuation = false ∧ h'.driver.state.status ≠ .active)

theorem Steady.refl : Steady h h :=
  ⟨id, rfl, rfl, .inl ⟨rfl, rfl⟩⟩

theorem Steady.trans (s : Steady h h') (s' : Steady h' h'') : Steady h h'' := by
  refine ⟨s.owed ∘ s'.owed, s'.used.trans s.used, s'.objective.trans s.objective, ?_⟩
  obtain ⟨hPending', hStatus'⟩ | hDropped' := s'.pending
  · rw [hPending', hStatus']
    exact s.pending
  · exact .inr hDropped'

theorem Steady.side (s : Steady h h') {d : GoalDriver} (hState : d.state = h'.driver.state)
    (hOwed : d.owedContinuationForRlmWork = true → h'.driver.owedContinuationForRlmWork = true)
    (hPending : d.pendingContinuation = h'.driver.pendingContinuation) : Steady h { h' with driver := d } := by
  constructor
  · exact s.owed ∘ hOwed
  · exact (congrArg GoalState.continuationsUsed hState).trans s.used
  · exact (congrArg GoalState.objective hState).trans s.objective
  · show (d.pendingContinuation = _ ∧ d.state.status = _) ∨ _
    rw [hPending, hState]
    exact s.pending

theorem setState_steady {wrote : Bool} (hSet : setState now persist next h = (wrote, h'))
    (hUsed : next.continuationsUsed = h.driver.state.continuationsUsed)
    (hObjective : next.objective = h.driver.state.objective)
    (hStatus : next.status = h.driver.state.status ∨ next.status ≠ .active) : Steady h h' := by
  cases wrote with
  | false =>
    have hDriver := setState_false hSet
    constructor
    · rw [hDriver]
      exact id
    · rw [hDriver]
    · rw [hDriver]
    · exact .inl ⟨by rw [hDriver], by rw [hDriver]⟩
  | true =>
    have hDriver := (setState_true hSet).2
    constructor
    · rw [hDriver]
      exact id
    · rw [hDriver]
      exact recorded_continuationsUsed.trans hUsed
    · rw [hDriver]
      exact recorded_objective.trans hObjective
    · rw [hDriver]
      simp only [recorded_status]
      cases hActive : decide (next.status = .active) with
      | true =>
        have hActive := of_decide_eq_true hActive
        rw [if_neg (not_not.mpr hActive)]
        obtain hSame | hInactive := hStatus
        · exact .inl ⟨rfl, hSame⟩
        · exact absurd hActive hInactive
      | false =>
        have hInactive := of_decide_eq_false hActive
        rw [if_pos hInactive]
        exact .inr ⟨rfl, hInactive⟩

theorem setState_status (hSet : setState now persist next h = (true, h')) : h'.driver.state.status = next.status := by
  rw [(setState_true hSet).2]
  exact recorded_status

theorem complete_steady : Steady h (complete env h).2 := by
  unfold complete
  split
  next => exact .refl
  next =>
    split
    next hSet => exact setState_steady hSet rfl rfl (.inr (by simp))
    next hSet => exact setState_steady hSet rfl rfl (.inr (by simp))

theorem pause_steady (reason : String) : Steady h (pause env reason h).2 := by
  unfold pause
  split
  next => exact .refl
  next =>
    split
    next hSet => exact setState_steady hSet rfl rfl (.inr (by simp))
    next hSet =>
      have hPaused := setState_steady hSet rfl rfl (.inr (by simp))
      have hStatus := setState_status hSet
      refine ⟨fun hOwed => (by cases hOwed), hPaused.used, hPaused.objective, .inr ⟨rfl, ?_⟩⟩
      show _ ≠ GoalStatus.active
      rw [hStatus]
      simp

theorem finish_steady (stopReason : StopReason) (errorMessage : Option String) :
    Steady h (finishForTerminalMessage env stopReason errorMessage h).2 := by
  unfold finishForTerminalMessage
  split
  next => exact .refl
  next =>
    split
    next => exact .refl
    next =>
      simp only
      split
      next hSet => exact setState_steady hSet rfl rfl (.inr (by simp))
      next hSet => exact setState_steady hSet rfl rfl (.inr (by simp))

theorem progressGate_steady (turn : SettledTurn) :
    Steady h (progressGate env turn h).2 ∧
      ((progressGate env turn h).1 = .ok true → (progressGate env turn h).2.driver.state.status = h.driver.state.status) := by
  unfold progressGate
  simp only
  split
  next error _ =>
    split
    next =>
      have hFinish := @finish_steady h env .error (some error)
      split
      next hOut =>
        rw [hOut] at hFinish
        exact ⟨hFinish, fun hTrue => (by cases hTrue)⟩
      next hOut =>
        rw [hOut] at hFinish
        exact ⟨hFinish, fun hTrue => (by cases hTrue)⟩
    next => exact ⟨.refl, fun _ => rfl⟩
  next =>
    split
    next =>
      split
      next => exact ⟨Steady.refl.side rfl id rfl, fun hTrue => (by cases hTrue)⟩
      next =>
        split
        next =>
          have hSide : ∀ streak until_, Steady h { h with driver := { h.driver with
              countedNoProgressTurnMs := some turn.timestamp, noProgressStreak := streak
              noProgressBackoffUntilMs := until_ } } := fun streak until_ => Steady.refl.side rfl id rfl
          split
          next hSet =>
            exact ⟨(hSide _ _).trans (setState_steady hSet rfl rfl (.inl rfl)), fun hTrue => (by cases hTrue)⟩
          next hSet =>
            have hCounted := (hSide _ _).trans (setState_steady hSet rfl rfl (.inl rfl))
            split
            next =>
              split
              next hSet' =>
                exact ⟨hCounted.trans (setState_steady hSet' rfl rfl (.inr (by simp [capped]))),
                  fun hTrue => (by cases hTrue)⟩
              next hSet' =>
                exact ⟨hCounted.trans (setState_steady hSet' rfl rfl (.inr (by simp [capped]))),
                  fun hTrue => (by cases hTrue)⟩
            next => exact ⟨hCounted, fun hTrue => (by cases hTrue)⟩
        next =>
          split
          next =>
            have hSide : Steady h { h with driver := { h.driver with
                noProgressStreak := 0, noProgressBackoffUntilMs := 0, parkedRefusalUntilMs := 0
                countedNoProgressTurnMs := some turn.timestamp } } := Steady.refl.side rfl id rfl
            split
            next hSet =>
              exact ⟨hSide.trans (setState_steady hSet rfl rfl (.inl rfl)), fun hTrue => (by cases hTrue)⟩
            next hSet =>
              have hStatus := setState_status hSet
              exact ⟨hSide.trans (setState_steady hSet rfl rfl (.inl rfl)), fun _ => hStatus⟩
          next => exact ⟨.refl, fun _ => rfl⟩
    next => exact ⟨.refl, fun _ => rfl⟩

/-! ## The mint -/

structure Mints (h h' : Held) : Prop where
  free : h.driver.pendingContinuation = false
  status : h'.driver.state.status = h.driver.state.status
  active : h.driver.state.status = .active
  pending : h'.driver.pendingContinuation = true
  used : h'.driver.state.continuationsUsed = h.driver.state.continuationsUsed + 1
  owed : h'.driver.owedContinuationForRlmWork = true → h.driver.owedContinuationForRlmWork = true

def Minting (h : Held) (outcome : Except GoalError (Option GoalContext) × Held) : Prop :=
  ((outcome.1 = .ok none ∨ ∃ error, outcome.1 = .error error) ∧ Steady h outcome.2) ∨
    ((∃ message, outcome.1 = .ok (some message)) ∧ Mints h outcome.2)

theorem mint_minting (hActive : h.driver.state.status = .active) (hObjective : h.driver.state.objective ≠ none) :
    Minting h (mint env h) := by
  unfold mint
  split
  next =>
    split
    next hSet => exact .inl ⟨.inr ⟨_, rfl⟩, setState_steady hSet rfl rfl (.inr (by simp [capped]))⟩
    next hSet => exact .inl ⟨.inl rfl, setState_steady hSet rfl rfl (.inr (by simp [capped]))⟩
  next =>
    split
    next => exact .inl ⟨.inl rfl, .refl⟩
    next =>
      split
      next => exact .inl ⟨.inl rfl, .refl⟩
      next hFree =>
        have hFree : h.driver.pendingContinuation = false := Bool.not_eq_true _ ▸ hFree
        split
        next hSet =>
          have hDriver := setState_false hSet
          refine .inl ⟨.inr ⟨_, rfl⟩, ?_, ?_, ?_, .inl ⟨?_, ?_⟩⟩
          all_goals simp only [hDriver, imp_self]
        next hSet =>
          have hDriver := (setState_true hSet).2
          obtain ⟨objective, hSome⟩ := Option.ne_none_iff_exists'.mp hObjective
          obtain ⟨message, hMessage⟩ : ∃ message, createGoalContextMessage (recorded (env.now 5) { h.driver.state with
              continuationsUsed := h.driver.state.continuationsUsed + 1, lastReason := none
              lastError := none }) = some message := by
            unfold createGoalContextMessage
            rw [recorded_objective, hSome]
            exact ⟨_, rfl⟩
          refine .inr ⟨?_, ?_⟩
          · simp only [hDriver, hMessage]
            exact ⟨_, rfl⟩
          · constructor
            · exact hFree
            · simp only [hDriver, recorded_status]
            · exact hActive
            · simp only [hDriver, hMessage]
              rfl
            · simp only [hDriver, recorded_continuationsUsed]
            · simp only [hDriver, imp_self]

theorem Minting.after (s : Steady h h') (hStatus : h'.driver.state.status = h.driver.state.status)
    {outcome : Except GoalError (Option GoalContext) × Held} (hMinting : Minting h' outcome)
    (hActive : h.driver.state.status = .active) : Minting h outcome := by
  obtain ⟨hRefused, hSteady⟩ | ⟨hMessage, m⟩ := hMinting
  · exact .inl ⟨hRefused, s.trans hSteady⟩
  · refine .inr ⟨hMessage, ?_, m.status.trans hStatus, hActive, m.pending, ?_, s.owed ∘ m.owed⟩
    · obtain ⟨hPending, -⟩ | ⟨-, hInactive⟩ := s.pending
      · exact hPending.symm.trans m.free
      · exact absurd (hStatus.trans hActive) hInactive
    · rw [m.used, s.used]

theorem next_minting (lastTurn : Option SettledTurn) : Minting h (nextContinuationMessage env lastTurn h) := by
  unfold nextContinuationMessage
  split
  next => exact .inl ⟨.inl rfl, .refl⟩
  next hDrives =>
    simp only [ne_eq, not_or, not_not] at hDrives
    obtain ⟨hActive, hObjective⟩ := hDrives
    cases lastTurn with
    | none => exact mint_minting hActive hObjective
    | some turn =>
      obtain ⟨hGate, hTrue⟩ := @progressGate_steady h env turn
      simp only
      split
      next hOut =>
        rw [hOut] at hGate
        exact .inl ⟨.inr ⟨_, rfl⟩, hGate⟩
      next hOut =>
        rw [hOut] at hGate
        exact .inl ⟨.inl rfl, hGate⟩
      next hOut =>
        rw [hOut] at hGate hTrue
        have hStatus := hTrue rfl
        refine Minting.after hGate hStatus (mint_minting (hStatus.trans hActive) ?_) hActive
        rw [hGate.objective]
        exact hObjective

end PrimeAgent.Goal
