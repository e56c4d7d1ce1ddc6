import PrimeAgent.Goal.Driver

/-! # Accounting of a goal

Beside the driver stands a ledger of the messages charged since the last start. Every operation but a start, a charge, a
clear and a reload keeps what the goal has used and never makes an exhausted goal active.
-/
namespace PrimeAgent.Goal

open Held

variable {h h' : Held} {env : OpEnv} {now : Nat} {persist : Persist} {next s s' s'' : GoalState} {d : GoalDriver}
  {wrote : Bool}

/-! ## One row -/

@[simp] theorem recorded_status : (recorded now next).status = next.status := by
  unfold recorded
  simp only
  split <;> rfl

@[simp] theorem recorded_tokenBudget : (recorded now next).tokenBudget = next.tokenBudget := by
  unfold recorded
  simp only
  split <;> rfl

@[simp] theorem recorded_tokensUsed : (recorded now next).tokensUsed = next.tokensUsed := by
  unfold recorded
  simp only
  split <;> rfl

def WithinBudget (s : GoalState) : Prop :=
  s.status = .active → ∀ budget, s.tokenBudget = some budget → s.tokensUsed < budget

theorem exhausted_eq_false_iff : exhausted s = false ↔ ∀ budget, s.tokenBudget = some budget → s.tokensUsed < budget := by
  unfold exhausted
  cases s.tokenBudget with
  | none => simp
  | some budget => simp

/-- The budget and the use stay, and the goal does not become active while it is exhausted. -/
structure SameAccount (s s' : GoalState) : Prop where
  budget : s'.tokenBudget = s.tokenBudget
  used : s'.tokensUsed = s.tokensUsed
  wakes : s'.status = .active → s.status = .active ∨ exhausted s = false

theorem SameAccount.refl : SameAccount s s :=
  ⟨rfl, rfl, .inl⟩

theorem SameAccount.exhausted_eq (h : SameAccount s s') : exhausted s' = exhausted s := by
  unfold exhausted
  rw [h.budget, h.used]

theorem SameAccount.trans (h : SameAccount s s') (h' : SameAccount s' s'') : SameAccount s s'' := by
  constructor
  · rw [h'.budget, h.budget]
  · rw [h'.used, h.used]
  · intro hActive
    obtain hBefore | hLeft := h'.wakes hActive
    · exact h.wakes hBefore
    · exact .inr (h.exhausted_eq ▸ hLeft)

theorem SameAccount.recorded (h : SameAccount s s') : SameAccount s (recorded now s') := by
  constructor
  · rw [recorded_tokenBudget, h.budget]
  · rw [recorded_tokensUsed, h.used]
  · rw [recorded_status]
    exact h.wakes

theorem SameAccount.within (h : SameAccount s s') (hWithin : WithinBudget s) : WithinBudget s' := by
  intro hActive
  rw [h.budget, h.used]
  obtain hBefore | hLeft := h.wakes hActive
  · exact hWithin hBefore
  · exact exhausted_eq_false_iff.mp hLeft

theorem sameAccount_inactive (hBudget : s'.tokenBudget = s.tokenBudget) (hUsed : s'.tokensUsed = s.tokensUsed)
    (hStatus : s'.status ≠ .active) : SameAccount s s' :=
  ⟨hBudget, hUsed, fun hActive => absurd hActive hStatus⟩

/-! ## What an operation keeps -/

structure Keeps (h h' : Held) : Prop where
  accounted : h'.driver.accountedMessages = h.driver.accountedMessages
  state : SameAccount h.driver.state h'.driver.state
  rows : ∃ added, h'.rows = h.rows ++ added ∧ ∀ row ∈ added, SameAccount h.driver.state row

theorem Keeps.refl : Keeps h h :=
  ⟨rfl, .refl, [], by simp, by simp⟩

theorem Keeps.trans {h'' : Held} (k : Keeps h h') (k' : Keeps h' h'') : Keeps h h'' := by
  obtain ⟨added, hRows, hAdded⟩ := k.rows
  obtain ⟨added', hRows', hAdded'⟩ := k'.rows
  refine ⟨k'.accounted.trans k.accounted, k.state.trans k'.state, added ++ added', ?_, ?_⟩
  · rw [hRows', hRows, List.append_assoc]
  · intro row hMem
    obtain hMem | hMem := List.mem_append.mp hMem
    · exact hAdded row hMem
    · exact k.state.trans (hAdded' row hMem)

theorem Keeps.side (k : Keeps h h') (hState : d.state = h'.driver.state)
    (hAccounted : d.accountedMessages = h'.driver.accountedMessages) : Keeps h { h' with driver := d } := by
  constructor
  · exact hAccounted.trans k.accounted
  · show SameAccount h.driver.state d.state
    rw [hState]
    exact k.state
  · exact k.rows

theorem setState_keeps (hAccount : SameAccount h.driver.state next) (hSet : setState now persist next h = (wrote, h')) :
    Keeps h h' := by
  unfold setState at hSet
  cases persist with
  | appendFailed =>
    obtain ⟨-, rfl⟩ := Prod.mk.inj hSet
    exact .refl
  | flushFailed =>
    obtain ⟨-, rfl⟩ := Prod.mk.inj hSet
    refine ⟨rfl, .refl, [recorded now next], rfl, ?_⟩
    intro row hMem
    obtain rfl := List.mem_singleton.mp hMem
    exact hAccount.recorded
  | done =>
    obtain ⟨-, rfl⟩ := Prod.mk.inj hSet
    refine ⟨rfl, hAccount.recorded, [recorded now next], rfl, ?_⟩
    intro row hMem
    obtain rfl := List.mem_singleton.mp hMem
    exact hAccount.recorded

theorem setState_keeps_side (hSet : setState now persist next { h with driver := d } = (wrote, h'))
    (hState : d.state = h.driver.state) (hAccounted : d.accountedMessages = h.driver.accountedMessages)
    (hAccount : SameAccount h.driver.state next) :
    Keeps h h' := by
  have hSide : Keeps h { h with driver := d } := Keeps.refl.side hState hAccounted
  refine hSide.trans (setState_keeps ?_ hSet)
  show SameAccount d.state next
  rw [hState]
  exact hAccount

theorem setState_false (hSet : setState now persist next h = (false, h')) : h'.driver = h.driver := by
  unfold setState at hSet
  cases persist with
  | appendFailed | flushFailed =>
    obtain ⟨-, rfl⟩ := Prod.mk.inj hSet
    rfl
  | done => cases (Prod.mk.inj hSet).1

theorem setState_true (hSet : setState now persist next h = (true, h')) :
    h'.rows = h.rows ++ [recorded now next] ∧ h'.driver = { h.driver with
      state := recorded now next
      pendingContinuation := if next.status ≠ .active then false else h.driver.pendingContinuation } := by
  unfold setState at hSet
  cases persist with
  | appendFailed | flushFailed => cases (Prod.mk.inj hSet).1
  | done =>
    obtain ⟨-, rfl⟩ := Prod.mk.inj hSet
    exact ⟨rfl, by rw [recorded_status]⟩

/-! ## The operations that keep the account -/

theorem pause_keeps (reason : String) : Keeps h (pause env reason h).2 := by
  unfold pause
  split
  next => exact .refl
  next =>
    have hInactive : SameAccount h.driver.state { h.driver.state with
        active := false, status := .paused, lastReason := some reason, lastError := none } :=
      sameAccount_inactive rfl rfl (by simp)
    split
    next hSet => exact setState_keeps hInactive hSet
    next hSet => exact (setState_keeps hInactive hSet).side rfl rfl

theorem resume_keeps : Keeps h (resume env h).2 := by
  unfold resume
  split
  next => exact .refl
  next =>
    split
    next => exact .refl
    next =>
      have hResumed : ∀ reason active, SameAccount h.driver.state { h.driver.state with
          active := active, status := if exhausted h.driver.state then .budgetLimited else .active, lastReason := reason
          lastError := none } := by
        intro reason active
        constructor
        · rfl
        · rfl
        · intro hActive
          cases hLeft : exhausted h.driver.state with
          | false => exact .inr rfl
          | true => simp [hLeft] at hActive
      simp only
      split
      next hSet => exact setState_keeps (hResumed _ _) hSet
      next hSet => exact setState_keeps (hResumed _ _) hSet

theorem complete_keeps : Keeps h (complete env h).2 := by
  unfold complete
  split
  next => exact .refl
  next =>
    have hInactive : SameAccount h.driver.state { h.driver.state with
        active := false, status := .complete, lastReason := some "Goal achieved", lastError := none } :=
      sameAccount_inactive rfl rfl (by simp)
    split
    next hSet => exact setState_keeps hInactive hSet
    next hSet => exact setState_keeps hInactive hSet

theorem finish_keeps (stopReason : StopReason) (errorMessage : Option String) :
    Keeps h (finishForTerminalMessage env stopReason errorMessage h).2 := by
  unfold finishForTerminalMessage
  split
  next => exact .refl
  next =>
    split
    next => exact .refl
    next =>
      have hInactive : ∀ reason, SameAccount h.driver.state { h.driver.state with
          active := false, status := .error, lastReason := some reason, lastError := some reason } :=
        fun reason => sameAccount_inactive rfl rfl (by simp)
      simp only
      split
      next hSet => exact setState_keeps (hInactive _) hSet
      next hSet => exact setState_keeps (hInactive _) hSet

theorem capped_account (streak : Nat) : SameAccount s (capped streak s) :=
  sameAccount_inactive rfl rfl (by simp [capped])

theorem counted_account (streak : Option Nat) (turnMs : Option Int) :
    SameAccount s { s with noProgressStreak := streak, noProgressTurnMs := turnMs } :=
  ⟨rfl, rfl, .inl⟩

theorem progressGate_keeps (turn : SettledTurn) : Keeps h (progressGate env turn h).2 := by
  unfold progressGate
  simp only
  split
  next error _ =>
    split
    next =>
      have hFinish := @finish_keeps h env .error (some error)
      split
      next hOut =>
        rw [hOut] at hFinish
        exact hFinish
      next hOut =>
        rw [hOut] at hFinish
        exact hFinish
    next => exact .refl
  next =>
    split
    next =>
      split
      next => exact Keeps.refl.side rfl rfl
      next =>
        split
        next =>
          split
          next hSet =>
            have hCounted := setState_keeps_side hSet rfl rfl (counted_account _ _)
            exact hCounted
          next hSet =>
            have hCounted := setState_keeps_side hSet rfl rfl (counted_account _ _)
            split
            next =>
              split
              next hSet' => exact hCounted.trans (setState_keeps (capped_account _) hSet')
              next hSet' => exact hCounted.trans (setState_keeps (capped_account _) hSet')
            next => exact hCounted
        next =>
          split
          next =>
            split
            next hSet =>
              have hCounted := setState_keeps_side hSet rfl rfl (counted_account _ _)
              exact hCounted
            next hSet =>
              have hCounted := setState_keeps_side hSet rfl rfl (counted_account _ _)
              exact hCounted
          next => exact .refl
    next => exact .refl

theorem mint_keeps : Keeps h (mint env h).2 := by
  unfold mint
  split
  next =>
    split
    next hSet => exact setState_keeps (capped_account _) hSet
    next hSet => exact setState_keeps (capped_account _) hSet
  next =>
    split
    next => exact .refl
    next =>
      split
      next => exact .refl
      next =>
        have hMinted : SameAccount h.driver.state { h.driver.state with
            continuationsUsed := h.driver.state.continuationsUsed + 1, lastReason := none, lastError := none } :=
          ⟨rfl, rfl, .inl⟩
        split
        next hSet => exact setState_keeps hMinted hSet
        next hSet => exact (setState_keeps hMinted hSet).side rfl rfl

theorem nextContinuation_keeps (lastTurn : Option SettledTurn) : Keeps h (nextContinuationMessage env lastTurn h).2 := by
  unfold nextContinuationMessage
  split
  next => exact .refl
  next =>
    cases lastTurn with
    | none => exact mint_keeps
    | some turn =>
      have hGate := @progressGate_keeps h env turn
      simp only
      split
      next hOut =>
        rw [hOut] at hGate
        exact hGate
      next hOut =>
        rw [hOut] at hGate
        exact hGate
      next hOut =>
        rw [hOut] at hGate
        exact hGate.trans mint_keeps

theorem takeOwed_keeps (lastTurn : Option SettledTurn) : Keeps h (takeOwedContinuation env lastTurn h).2 := by
  unfold takeOwedContinuation
  split
  next => exact .refl
  next =>
    split
    next => exact .refl
    next =>
      have hOwe : Keeps h (h.owe false) := Keeps.refl.side rfl rfl
      have hNext := hOwe.trans (@nextContinuation_keeps (h.owe false) env lastTurn)
      split
      next hOut =>
        rw [hOut] at hNext
        simp only
        split
        next => exact hNext.side rfl rfl
        next => exact hNext
      next hOut =>
        rw [hOut] at hNext
        exact hNext
      next hOut =>
        rw [hOut] at hNext
        exact hNext.side rfl rfl

theorem rollback_keeps : Keeps h (rollbackContinuationMint env h).2 := by
  unfold rollbackContinuationMint
  split
  next => exact Keeps.refl.side rfl rfl
  next =>
    have hRolled : SameAccount h.driver.state { h.driver.state with
        continuationsUsed := h.driver.state.continuationsUsed - 1 } := ⟨rfl, rfl, .inl⟩
    split
    next hSet => exact (setState_keeps hRolled hSet).side rfl rfl
    next hSet => exact (setState_keeps hRolled hSet).side rfl rfl

end PrimeAgent.Goal
