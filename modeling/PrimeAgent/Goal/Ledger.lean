import PrimeAgent.Goal.Accounting

/-! # Failed operations

An operation writes at most one row before it assigns. The mint is the exception: it may have written the streak of the
settled turn when its second write fails.
-/
namespace PrimeAgent.Goal

open Held

variable {h h' : Held} {env : OpEnv} {now : Nat} {persist : Persist} {next : GoalState} {error : GoalError}
  {turn : SettledTurn} {lastTurn : Option SettledTurn}

structure Untouched (h h' : Held) : Prop where
  state : h'.driver.state = h.driver.state
  accounted : h'.driver.accountedMessages = h.driver.accountedMessages
  owed : h'.driver.owedContinuationForRlmWork = h.driver.owedContinuationForRlmWork
  pending : h'.driver.pendingContinuation = h.driver.pendingContinuation

def streakRow (now streak : Nat) (turnMs : Int) (s : GoalState) : GoalState :=
  recorded now { s with noProgressStreak := some streak, noProgressTurnMs := some turnMs }

structure Counted (h h' : Held) : Prop where
  state : h'.driver.state = h.driver.state ∨
    ∃ now streak turnMs, h'.driver.state = streakRow now streak turnMs h.driver.state
  accounted : h'.driver.accountedMessages = h.driver.accountedMessages
  owed : h'.driver.owedContinuationForRlmWork = h.driver.owedContinuationForRlmWork
  pending : h'.driver.pendingContinuation = h.driver.pendingContinuation

theorem untouched_of_driver (hDriver : h'.driver = h.driver) : Untouched h h' := by
  constructor
  all_goals rw [hDriver]

theorem Untouched.counted (u : Untouched h h') : Counted h h' :=
  ⟨.inl u.state, u.accounted, u.owed, u.pending⟩

theorem Counted.untouched {h'' : Held} (c : Counted h h') (u : Untouched h' h'') : Counted h h'' := by
  constructor
  · rw [u.state]
    exact c.state
  · exact u.accounted.trans c.accounted
  · exact u.owed.trans c.owed
  · exact u.pending.trans c.pending

theorem setState_untouched (hSet : setState now persist next h = (false, h')) : Untouched h h' :=
  untouched_of_driver (setState_false hSet)

theorem written_failed {α : Type} {value : Held → α} {written : Held → Held}
    (hFailed : (match setState now persist next h with
      | (false, after) => (Except.error GoalError.persist, after)
      | (true, after) => (.ok (value after), written after)) = (.error error, h')) : Untouched h h' := by
  split at hFailed
  next hSet =>
    obtain ⟨-, rfl⟩ := Prod.mk.inj hFailed
    exact setState_untouched hSet
  next => cases (Prod.mk.inj hFailed).1

/-! ## The operations of one write -/

theorem start_failed {objectiveText : Text} {tokenBudget : Option Nat}
    (hFailed : start env objectiveText tokenBudget h = (.error error, h')) : Untouched h h' := by
  unfold start at hFailed
  split at hFailed
  next =>
    obtain ⟨-, rfl⟩ := Prod.mk.inj hFailed
    exact untouched_of_driver rfl
  next =>
    obtain ⟨-, rfl⟩ := Prod.mk.inj hFailed
    exact untouched_of_driver rfl
  next =>
    simp only at hFailed
    split at hFailed
    next hSet =>
      obtain ⟨-, rfl⟩ := Prod.mk.inj hFailed
      have hFresh := setState_false hSet
      constructor
      · show _ = h.driver.state
        simp only
        rw [hFresh]
      · rfl
      · rfl
      · show (h.driver.pendingContinuation || _) = h.driver.pendingContinuation
        rw [hFresh]
        exact Bool.or_false _
    next => cases (Prod.mk.inj hFailed).1

theorem clear_failed (hFailed : clear env h = (.error error, h')) : Untouched h h' := by
  unfold clear at hFailed
  exact written_failed hFailed

theorem record_failed {messageId : String} {input output : Nat}
    (hFailed : recordAssistantUsage env messageId input output h = (.error error, h')) : Untouched h h' := by
  unfold recordAssistantUsage at hFailed
  split at hFailed
  next => cases (Prod.mk.inj hFailed).1
  next =>
    split at hFailed
    next => cases (Prod.mk.inj hFailed).1
    next =>
      exact written_failed hFailed

theorem pause_failed {reason : String} (hFailed : pause env reason h = (.error error, h')) : Untouched h h' := by
  unfold pause at hFailed
  split at hFailed
  next => cases (Prod.mk.inj hFailed).1
  next =>
    exact written_failed hFailed

theorem resume_failed (hFailed : resume env h = (.error error, h')) : Untouched h h' := by
  unfold resume at hFailed
  split at hFailed
  next => cases (Prod.mk.inj hFailed).1
  next =>
    split at hFailed
    next => cases (Prod.mk.inj hFailed).1
    next =>
      exact written_failed hFailed

theorem complete_failed (hFailed : complete env h = (.error error, h')) : Untouched h h' := by
  unfold complete at hFailed
  split at hFailed
  next => cases (Prod.mk.inj hFailed).1
  next =>
    exact written_failed hFailed

theorem finish_failed {stopReason : StopReason} {errorMessage : Option String}
    (hFailed : finishForTerminalMessage env stopReason errorMessage h = (.error error, h')) : Untouched h h' := by
  unfold finishForTerminalMessage at hFailed
  split at hFailed
  next => cases (Prod.mk.inj hFailed).1
  next =>
    split at hFailed
    next => cases (Prod.mk.inj hFailed).1
    next =>
      exact written_failed hFailed

theorem rollback_failed (hFailed : rollbackContinuationMint env h = (.error error, h')) :
    h'.driver = { h.driver with pendingContinuation := false } := by
  unfold rollbackContinuationMint at hFailed
  split at hFailed
  next => cases (Prod.mk.inj hFailed).1
  next =>
    split at hFailed
    next hSet =>
      obtain ⟨-, rfl⟩ := Prod.mk.inj hFailed
      simp only [continuationConsumed]
      rw [setState_false hSet]
    next => cases (Prod.mk.inj hFailed).1

/-! ## The mint -/

theorem setState_counted {wrote : Bool} {d : GoalDriver} {streak : Nat} {turnMs : Int}
    (hActive : h.driver.state.status = .active)
    (hSet : setState now persist { h.driver.state with
      noProgressStreak := some streak, noProgressTurnMs := some turnMs } { h with driver := d } = (wrote, h'))
    (hSide : Untouched h { h with driver := d }) : Counted h h' := by
  cases wrote with
  | false => exact hSide.counted.untouched (setState_untouched hSet)
  | true =>
    obtain ⟨-, hDriver⟩ := setState_true hSet
    constructor
    · exact .inr ⟨now, streak, turnMs, by rw [hDriver]; rfl⟩
    · rw [hDriver]
      exact hSide.accounted
    · rw [hDriver]
      exact hSide.owed
    · rw [hDriver]
      simpa [hActive] using hSide.pending

theorem mint_failed (hFailed : mint env h = (.error error, h')) : Untouched h h' := by
  unfold mint at hFailed
  split at hFailed
  next =>
    exact written_failed hFailed
  next =>
    split at hFailed
    next => cases (Prod.mk.inj hFailed).1
    next =>
      split at hFailed
      next => cases (Prod.mk.inj hFailed).1
      next =>
        split at hFailed
        next hSet =>
          obtain ⟨-, rfl⟩ := Prod.mk.inj hFailed
          exact setState_untouched hSet
        next => cases (Prod.mk.inj hFailed).1

theorem progressGate_failed (hActive : h.driver.state.status = .active)
    (hFailed : progressGate env turn h = (.error error, h')) : Counted h h' := by
  unfold progressGate at hFailed
  simp only at hFailed
  split at hFailed
  next =>
    split at hFailed
    next =>
      split at hFailed
      next hOut =>
        obtain ⟨-, rfl⟩ := Prod.mk.inj hFailed
        exact (finish_failed hOut).counted
      next => cases (Prod.mk.inj hFailed).1
    next => cases (Prod.mk.inj hFailed).1
  next =>
    split at hFailed
    next =>
      split at hFailed
      next => cases (Prod.mk.inj hFailed).1
      next =>
        split at hFailed
        next =>
          split at hFailed
          next hSet =>
            obtain ⟨-, rfl⟩ := Prod.mk.inj hFailed
            exact setState_counted hActive hSet ⟨rfl, rfl, rfl, rfl⟩
          next hSet =>
            have hCounted := setState_counted hActive hSet ⟨rfl, rfl, rfl, rfl⟩
            split at hFailed
            next =>
              split at hFailed
              next hSet' =>
                obtain ⟨-, rfl⟩ := Prod.mk.inj hFailed
                exact hCounted.untouched (setState_untouched hSet')
              next => cases (Prod.mk.inj hFailed).1
            next => cases (Prod.mk.inj hFailed).1
        next =>
          split at hFailed
          next =>
            split at hFailed
            next hSet =>
              obtain ⟨-, rfl⟩ := Prod.mk.inj hFailed
              exact setState_counted hActive hSet ⟨rfl, rfl, rfl, rfl⟩
            next => cases (Prod.mk.inj hFailed).1
          next => cases (Prod.mk.inj hFailed).1
    next => cases (Prod.mk.inj hFailed).1

theorem progressGate_open (hActive : h.driver.state.status = .active) (hOpen : progressGate env turn h = (.ok true, h')) :
    Counted h h' := by
  unfold progressGate at hOpen
  simp only at hOpen
  split at hOpen
  next =>
    split at hOpen
    next =>
      split at hOpen
      next => cases (Prod.mk.inj hOpen).1
      next => cases (Prod.mk.inj hOpen).1
    next =>
      obtain ⟨-, rfl⟩ := Prod.mk.inj hOpen
      exact (untouched_of_driver rfl).counted
  next =>
    split at hOpen
    next =>
      split at hOpen
      next => cases (Prod.mk.inj hOpen).1
      next =>
        split at hOpen
        next =>
          split at hOpen
          next => cases (Prod.mk.inj hOpen).1
          next =>
            split at hOpen
            next =>
              split at hOpen
              next => cases (Prod.mk.inj hOpen).1
              next => cases (Prod.mk.inj hOpen).1
            next => cases (Prod.mk.inj hOpen).1
        next =>
          split at hOpen
          next =>
            split at hOpen
            next => cases (Prod.mk.inj hOpen).1
            next hSet =>
              obtain ⟨-, rfl⟩ := Prod.mk.inj hOpen
              exact setState_counted hActive hSet ⟨rfl, rfl, rfl, rfl⟩
          next =>
            obtain ⟨-, rfl⟩ := Prod.mk.inj hOpen
            exact (untouched_of_driver rfl).counted
    next =>
      obtain ⟨-, rfl⟩ := Prod.mk.inj hOpen
      exact (untouched_of_driver rfl).counted

theorem nextContinuation_failed (hFailed : nextContinuationMessage env lastTurn h = (.error error, h')) :
    Counted h h' := by
  unfold nextContinuationMessage at hFailed
  split at hFailed
  next => cases (Prod.mk.inj hFailed).1
  next hGuard =>
    have hActive : h.driver.state.status = .active := by
      by_contra hInactive
      exact hGuard (.inl hInactive)
    cases lastTurn with
    | none => exact (mint_failed hFailed).counted
    | some turn =>
      simp only at hFailed
      split at hFailed
      next hGate =>
        obtain ⟨-, rfl⟩ := Prod.mk.inj hFailed
        exact progressGate_failed hActive hGate
      next => cases (Prod.mk.inj hFailed).1
      next hGate => exact (progressGate_open hActive hGate).untouched (mint_failed hFailed)

theorem takeOwed_failed (hFailed : takeOwedContinuation env lastTurn h = (.error error, h')) : Counted h h' := by
  unfold takeOwedContinuation at hFailed
  split at hFailed
  next => cases (Prod.mk.inj hFailed).1
  next hOwed =>
    split at hFailed
    next => cases (Prod.mk.inj hFailed).1
    next =>
      split at hFailed
      next => cases (Prod.mk.inj hFailed).1
      next => cases (Prod.mk.inj hFailed).1
      next hNext =>
        obtain ⟨-, rfl⟩ := Prod.mk.inj hFailed
        have hCounted := nextContinuation_failed hNext
        constructor
        · exact hCounted.state
        · exact hCounted.accounted
        · simpa [owe] using hOwed
        · exact hCounted.pending

end PrimeAgent.Goal

/-! ## Runs of the goal driver

A run is any sequence of operations with any pattern of failing writes. Beside it stands the ledger of what was charged
since the last start, which the code does not hold.
-/
namespace PrimeAgent.Goal

open Held

inductive GoalCall where
  | start (objectiveText : Text) (tokenBudget : Option Nat)
  | clear
  | recordAssistantUsage (messageId : String) (input output : Nat)
  | pause (reason : String)
  | resume
  | complete
  | finishForTerminalMessage (stopReason : StopReason) (errorMessage : Option String)
  | nextContinuationMessage (lastTurn : Option SettledTurn)
  | markContinuationOwed
  | takeOwedContinuation (lastTurn : Option SettledTurn)
  | continuationConsumed
  | rollbackContinuationMint
  | reloadFromBranch (rule : GoalBranchReload) (cut : Option Nat) (staleFailure : Option String)

inductive Reply where
  | failed | done
  | usage (outcome : UsageOutcome)
deriving DecidableEq

def Reply.of {α : Type} : Except GoalError α → Reply
  | .error _ => .failed
  | .ok _ => .done

def Reply.ofUsage : Except GoalError UsageOutcome → Reply
  | .error _ => .failed
  | .ok outcome => .usage outcome

def serve (env : OpEnv) (h : Held) : GoalCall → Reply × Held
  | .start objectiveText tokenBudget =>
    let (result, h) := h.start env objectiveText tokenBudget
    (.of result, h)
  | .clear =>
    let (result, h) := h.clear env
    (.of result, h)
  | .recordAssistantUsage messageId input output =>
    let (result, h) := h.recordAssistantUsage env messageId input output
    (.ofUsage result, h)
  | .pause reason =>
    let (result, h) := h.pause env reason
    (.of result, h)
  | .resume =>
    let (result, h) := h.resume env
    (.of result, h)
  | .complete =>
    let (result, h) := h.complete env
    (.of result, h)
  | .finishForTerminalMessage stopReason errorMessage =>
    let (result, h) := h.finishForTerminalMessage env stopReason errorMessage
    (.of result, h)
  | .nextContinuationMessage lastTurn =>
    let (result, h) := h.nextContinuationMessage env lastTurn
    (.of result, h)
  | .markContinuationOwed => (.done, h.markContinuationOwed)
  | .takeOwedContinuation lastTurn =>
    let (result, h) := h.takeOwedContinuation env lastTurn
    (.of result, h)
  | .continuationConsumed => (.done, h.continuationConsumed)
  | .rollbackContinuationMint =>
    let (result, h) := h.rollbackContinuationMint env
    (.of result, h)
  | .reloadFromBranch rule cut staleFailure => (.done, h.reloadFromBranch rule cut staleFailure)

/-! ## The ledger -/

/-- What was charged since the last start. The ledger is steady while no clear and no other count of the tokens has
replaced what the goal has used. -/
structure ChargeLedger where
  charges : List (String × Nat)
  steady : Bool

def ChargeLedger.opened : ChargeLedger := ⟨[], true⟩

def ChargeLedger.charge (messageId : String) (tokens : Nat) (l : ChargeLedger) : ChargeLedger :=
  { l with charges := (messageId, tokens) :: l.charges }

def ChargeLedger.unsteady (l : ChargeLedger) : ChargeLedger :=
  { l with steady := false }

/-- A reload of the same goal whose row counts as many tokens as the driver does, or fewer on the same timeline. -/
def SameCount (rule : GoalBranchReload) (cut : Option Nat) (h : Held) : Prop :=
  sameGoal (h.latestPersistedState cut) h.driver.state = true ∧
    ((h.latestPersistedState cut).tokensUsed = h.driver.state.tokensUsed ∨
      rule = .sameTimeline ∧ (h.latestPersistedState cut).tokensUsed ≤ h.driver.state.tokensUsed)

instance (rule : GoalBranchReload) (cut : Option Nat) (h : Held) : Decidable (SameCount rule cut h) :=
  inferInstanceAs (Decidable (_ ∧ (_ ∨ _ ∧ _)))

/-- The ledger after a call at `h` with this reply. -/
def ChargeLedger.next (h : Held) (call : GoalCall) (reply : Reply) (l : ChargeLedger) : ChargeLedger :=
  match call with
  | .start .. => if reply = .done then .opened else l
  | .clear => if reply = .done then l.unsteady else l
  | .recordAssistantUsage messageId input output =>
    if reply = .usage .accounted ∨ reply = .usage .budgetReached then
      l.charge messageId (goalTokenDeltaForUsage input output)
    else l
  | .reloadFromBranch rule cut _ => if SameCount rule cut h then l else l.unsteady
  | _ => l

def advance (at_ : Held × ChargeLedger) (step : OpEnv × GoalCall) : Held × ChargeLedger :=
  ((serve step.1 at_.1 step.2).2, at_.2.next at_.1 step.2 (serve step.1 at_.1 step.2).1)

def fresh (rows : List GoalState) : Held × ChargeLedger :=
  (⟨GoalDriver.new, rows⟩, .opened)

def afterCalls (rows : List GoalState) (calls : List (OpEnv × GoalCall)) : Held × ChargeLedger :=
  calls.foldl advance (fresh rows)

end PrimeAgent.Goal
