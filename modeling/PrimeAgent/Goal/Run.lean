import PrimeAgent.Goal.Ledger

/-! # The account over a run

The ledger's charges are of distinct messages and add up to the use of the goal, an active goal is below its budget, and
a failed operation leaves what it found.
-/
namespace PrimeAgent.Goal

open Held

variable {h h' : Held} {l : ChargeLedger} {env : OpEnv} {call : GoalCall} {reply : Reply} {now : Nat} {row : GoalState}
  {P : GoalState → Prop} {next : GoalState} {rows : List GoalState} {s : GoalState} {cut : Option Nat}
  {rule : GoalBranchReload} {messageId : String} {tokens : Nat}

/-! ## One call -/

def GoalCall.Accounts : GoalCall → Prop
  | .start .. => True
  | .clear => True
  | .recordAssistantUsage .. => True
  | .reloadFromBranch .. => True
  | _ => False

theorem serve_keeps (hPlain : ¬ call.Accounts) : Keeps h (serve env h call).2 := by
  cases call with
  | start | clear | recordAssistantUsage | reloadFromBranch => exact absurd trivial hPlain
  | pause reason => exact pause_keeps reason
  | resume => exact resume_keeps
  | complete => exact complete_keeps
  | finishForTerminalMessage stopReason errorMessage => exact finish_keeps stopReason errorMessage
  | nextContinuationMessage lastTurn => exact nextContinuation_keeps lastTurn
  | markContinuationOwed =>
    show Keeps h h.markContinuationOwed
    unfold markContinuationOwed
    split
    next => exact .refl
    next => exact Keeps.refl.side rfl rfl
  | takeOwedContinuation lastTurn => exact takeOwed_keeps lastTurn
  | continuationConsumed => exact Keeps.refl.side rfl rfl
  | rollbackContinuationMint => exact rollback_keeps

theorem next_plain (hPlain : ¬ call.Accounts) : l.next h call reply = l := by
  cases call with
  | start | clear | recordAssistantUsage | reloadFromBranch => exact absurd trivial hPlain
  | _ => rfl

def Adds (P : GoalState → Prop) (rows rows' : List GoalState) : Prop :=
  ∃ added, rows' = rows ++ added ∧ ∀ row ∈ added, P row

theorem setState_adds {persist : Persist} {wrote : Bool} (hRow : P (recorded now next))
    (hSet : setState now persist next h = (wrote, h')) : Adds P h.rows h'.rows := by
  unfold setState at hSet
  cases persist with
  | appendFailed =>
    obtain ⟨-, rfl⟩ := Prod.mk.inj hSet
    exact ⟨[], by simp, by simp⟩
  | flushFailed | done =>
    obtain ⟨-, rfl⟩ := Prod.mk.inj hSet
    exact ⟨[recorded now next], rfl, by simpa using hRow⟩

theorem Adds.none : Adds P rows rows :=
  ⟨[], by simp, by simp⟩

theorem recorded_within (hWithin : WithinBudget next) : WithinBudget (recorded now next) := by
  unfold WithinBudget
  rw [recorded_status, recorded_tokenBudget, recorded_tokensUsed]
  exact hWithin

theorem validateGoalBudget_positive {tokenBudget budget : Option Nat} {b : Nat}
    (hValid : validateGoalBudget tokenBudget = .ok budget) (hSome : budget = some b) : 0 < b := by
  unfold validateGoalBudget at hValid
  split at hValid
  next => cases hValid
  next hNonzero =>
    obtain rfl := Except.ok.inj hValid
    subst hSome
    refine Nat.pos_of_ne_zero fun hZero => hNonzero ?_
    rw [hZero]

structure Opened (h' : Held) : Prop where
  uncharged : h'.driver.accountedMessages = []
  unused : h'.driver.state.tokensUsed = 0
  within : WithinBudget h'.driver.state

theorem start_done {objectiveText : Text} {tokenBudget : Option Nat} {goal : GoalState}
    (hStart : start env objectiveText tokenBudget h = (.ok goal, h')) : Opened h' := by
  unfold start at hStart
  split at hStart
  next => cases (Prod.mk.inj hStart).1
  next => cases (Prod.mk.inj hStart).1
  next hBudget =>
    simp only at hStart
    split at hStart
    next => cases (Prod.mk.inj hStart).1
    next hSet =>
      obtain ⟨-, rfl⟩ := Prod.mk.inj hStart
      obtain ⟨-, hDriver⟩ := setState_true hSet
      constructor
      · rw [hDriver]
        rfl
      · rw [hDriver, recorded_tokensUsed]
      · rw [hDriver]
        exact recorded_within fun _ b hSome => validateGoalBudget_positive hBudget hSome

theorem start_adds (objectiveText : Text) (tokenBudget : Option Nat) :
    Adds WithinBudget h.rows (start env objectiveText tokenBudget h).2.rows := by
  unfold start
  split
  next => exact .none
  next => exact .none
  next hBudget =>
    simp only
    split
    next hSet =>
      have hAdds := fun hRow => setState_adds (P := WithinBudget) hRow hSet
      exact hAdds (recorded_within fun _ b hSome => validateGoalBudget_positive hBudget hSome)
    next hSet =>
      have hAdds := fun hRow => setState_adds (P := WithinBudget) hRow hSet
      exact hAdds (recorded_within fun _ b hSome => validateGoalBudget_positive hBudget hSome)

theorem clear_done (hClear : clear env h = (.ok (), h')) :
    h'.driver.accountedMessages = h.driver.accountedMessages ∧ h'.driver.state = recorded (env.now 0) emptyGoalState := by
  unfold clear at hClear
  split at hClear
  next => cases (Prod.mk.inj hClear).1
  next hSet =>
    obtain ⟨-, rfl⟩ := Prod.mk.inj hClear
    obtain ⟨-, hDriver⟩ := setState_true hSet
    rw [hDriver]
    exact ⟨rfl, rfl⟩

theorem clear_adds : Adds WithinBudget h.rows (clear env h).2.rows := by
  have hRow : WithinBudget (recorded (env.now 0) emptyGoalState) := recorded_within fun hActive => by cases hActive
  unfold clear
  split
  next hSet => exact setState_adds hRow hSet
  next hSet =>
    have hAdds := setState_adds hRow hSet
    exact hAdds

/-! ## A charge -/

def chargedState (tokens : Nat) (s : GoalState) : GoalState :=
  let next := { s with tokensUsed := s.tokensUsed + tokens }
  if next.tokenBudget.any (· ≤ next.tokensUsed) then
    { next with active := false, status := .budgetLimited, lastReason := some (budgetReason next.tokenBudget),
                lastError := none }
  else next

theorem charged_used (tokens : Nat) (s : GoalState) : (chargedState tokens s).tokensUsed = s.tokensUsed + tokens := by
  unfold chargedState
  simp only
  split <;> rfl

theorem charged_within (tokens : Nat) (s : GoalState) : WithinBudget (chargedState tokens s) := by
  unfold chargedState
  simp only
  split
  next => exact fun hActive => by cases hActive
  next hBelow => exact fun _ => exhausted_eq_false_iff.mp (Bool.not_eq_true _ ▸ hBelow)

/-- A charge that goes through is of an active goal and of a message that was not charged yet. -/
structure Charged (messageId : String) (tokens : Nat) (h h' : Held) : Prop where
  active : h.driver.state.status = .active
  fresh : messageId ∉ h.driver.accountedMessages
  accounted : h'.driver.accountedMessages = messageId :: h.driver.accountedMessages
  state : ∃ now, h'.driver.state = recorded now (chargedState tokens h.driver.state)

theorem record_cases (messageId : String) (input output : Nat) :
    (recordAssistantUsage env messageId input output h = (.ok .ignored, h) ∨
      (∃ error, (recordAssistantUsage env messageId input output h).1 = .error error) ∨
      ((recordAssistantUsage env messageId input output h).1 = .ok .accounted ∨
          (recordAssistantUsage env messageId input output h).1 = .ok .budgetReached) ∧
        Charged messageId (goalTokenDeltaForUsage input output) h
          (recordAssistantUsage env messageId input output h).2) ∧
      Adds WithinBudget h.rows (recordAssistantUsage env messageId input output h).2.rows := by
  have hCharged := charged_within (goalTokenDeltaForUsage input output) h.driver.state
  unfold recordAssistantUsage
  split
  next => exact ⟨.inl rfl, .none⟩
  next hActive =>
    split
    next => exact ⟨.inl rfl, .none⟩
    next hFresh =>
      simp only
      split
      next hSet =>
        have hAdds := setState_adds (recorded_within hCharged) hSet
        exact ⟨.inr (.inl ⟨_, rfl⟩), hAdds⟩
      next hSet =>
        have hAdds := setState_adds (recorded_within hCharged) hSet
        obtain ⟨-, hDriver⟩ := setState_true hSet
        refine ⟨.inr (.inr ⟨?_, ⟨not_not.mp hActive, hFresh, ?_, env.now 0, ?_⟩⟩), ?_⟩
        · split
          next => exact .inr rfl
          next => exact .inl rfl
        · simp only
          rw [hDriver]
        · simp only
          rw [hDriver]
          rfl
        · exact hAdds

/-! ## The reload -/

theorem normalize_within (hWithin : WithinBudget s) : WithinBudget (normalizeGoalState s) :=
  hWithin

theorem guardAdopted_within (staleFailure : Option String) (hWithin : WithinBudget s) :
    WithinBudget (guardAdopted staleFailure s) := by
  unfold guardAdopted
  split
  next =>
    split
    next => exact fun hActive => by cases hActive
    next => exact hWithin
  next => exact hWithin

theorem guardAdopted_used (staleFailure : Option String) (s : GoalState) :
    (guardAdopted staleFailure s).tokensUsed = s.tokensUsed := by
  unfold guardAdopted
  split
  next =>
    split
    next => rfl
    next => rfl
  next => rfl

theorem latest_within (hRows : ∀ row ∈ h.rows, WithinBudget row) (cut : Option Nat) :
    WithinBudget (h.latestPersistedState cut) := by
  unfold latestPersistedState
  cases hRow : cut.bind fun i => h.rows[i]? with
  | none => exact fun hActive => by cases hActive
  | some row =>
    obtain ⟨i, -, hGet⟩ := Option.bind_eq_some_iff.mp hRow
    exact normalize_within (hRows row (List.mem_of_getElem? hGet))

def ClampFits (h : Held) : GoalCall → Prop
  | .reloadFromBranch .sameTimeline cut _ =>
    sameGoal (h.latestPersistedState cut) h.driver.state = true → h.driver.state.status = .active →
      ∀ budget, h.driver.state.tokenBudget = some budget → (h.latestPersistedState cut).tokensUsed < budget
  | _ => True

theorem reload_within {staleFailure : Option String} (hFits : ClampFits h (.reloadFromBranch rule cut staleFailure))
    (hRows : ∀ row ∈ h.rows, WithinBudget row) (hWithin : WithinBudget h.driver.state) :
    WithinBudget (reloadFromBranch rule cut staleFailure h).driver.state := by
  unfold reloadFromBranch
  simp only
  split
  next hSame =>
    obtain ⟨rfl, hGoal⟩ := hSame
    intro hActive budget hBudget
    exact max_lt (hWithin hActive budget hBudget) (hFits hGoal hActive budget hBudget)
  next => exact guardAdopted_within staleFailure (latest_within hRows cut)

theorem reload_accounted (rule : GoalBranchReload) (cut : Option Nat) (staleFailure : Option String) :
    (reloadFromBranch rule cut staleFailure h).driver.accountedMessages = h.driver.accountedMessages := by
  unfold reloadFromBranch
  simp only
  split
  next => rfl
  next => rfl

theorem reload_rows (rule : GoalBranchReload) (cut : Option Nat) (staleFailure : Option String) :
    (reloadFromBranch rule cut staleFailure h).rows = h.rows := by
  unfold reloadFromBranch
  simp only
  split
  next => rfl
  next => rfl

theorem reload_used (staleFailure : Option String) (hSame : SameCount rule cut h) :
    (reloadFromBranch rule cut staleFailure h).driver.state.tokensUsed = h.driver.state.tokensUsed := by
  obtain ⟨hGoal, hCount⟩ := hSame
  unfold reloadFromBranch
  simp only
  split
  next =>
    show max _ _ = _
    omega
  next hOther =>
    obtain hEqual | ⟨hRule, -⟩ := hCount
    · exact (guardAdopted_used staleFailure _).trans hEqual
    · exact absurd ⟨hRule, hGoal⟩ hOther

/-! ## The invariants -/

/-- The messages of the ledger are distinct and accounted, and their charges add up to the use of a steady goal. -/
structure Balanced (at_ : Held × ChargeLedger) : Prop where
  once : (at_.2.charges.map Prod.fst).Nodup
  known : ∀ messageId ∈ at_.2.charges.map Prod.fst, messageId ∈ at_.1.driver.accountedMessages
  total : at_.2.steady = true → at_.1.driver.state.tokensUsed = (at_.2.charges.map Prod.snd).sum

theorem Balanced.same (b : Balanced (h, l)) (hAccounted : h'.driver.accountedMessages = h.driver.accountedMessages)
    (hUsed : h'.driver.state.tokensUsed = h.driver.state.tokensUsed) : Balanced (h', l) := by
  constructor
  · exact b.once
  · intro messageId hMem
    rw [hAccounted]
    exact b.known messageId hMem
  · intro hSteady
    rw [hUsed]
    exact b.total hSteady

theorem Balanced.unsteady (b : Balanced (h, l)) (hAccounted : h'.driver.accountedMessages = h.driver.accountedMessages) :
    Balanced (h', l.unsteady) := by
  constructor
  · exact b.once
  · intro messageId hMem
    rw [hAccounted]
    exact b.known messageId hMem
  · intro hSteady
    cases hSteady

theorem Opened.balanced (o : Opened h') : Balanced (h', .opened) := by
  constructor
  · exact List.nodup_nil
  · intro messageId hMem
    cases hMem
  · intro _
    exact o.unused

theorem Charged.balanced (c : Charged messageId tokens h h') (b : Balanced (h, l)) :
    Balanced (h', l.charge messageId tokens) := by
  obtain ⟨now, hState⟩ := c.state
  constructor
  · refine List.nodup_cons.mpr ⟨?_, b.once⟩
    exact fun hMem => c.fresh (b.known messageId hMem)
  · intro other hMem
    rw [c.accounted]
    obtain rfl | hMem := List.mem_cons.mp hMem
    · exact List.mem_cons_self
    · exact List.mem_cons_of_mem _ (b.known other hMem)
  · intro hSteady
    have hTotal := b.total hSteady
    rw [hState, recorded_tokensUsed, charged_used, hTotal]
    exact Nat.add_comm _ _

theorem balanced_advance (b : Balanced (h, l)) (env : OpEnv) (call : GoalCall) :
    Balanced (advance (h, l) (env, call)) := by
  by_cases hPlain : call.Accounts
  · cases call with
    | start objectiveText tokenBudget =>
      cases hStart : start env objectiveText tokenBudget h with
      | mk result h' =>
        cases result with
        | error error =>
          have hUntouched := start_failed hStart
          simp only [advance, serve, hStart, ChargeLedger.next, Reply.of]
          exact b.same hUntouched.accounted (by rw [hUntouched.state])
        | ok goal =>
          simp only [advance, serve, hStart, ChargeLedger.next, Reply.of]
          exact (start_done hStart).balanced
    | clear =>
      cases hClear : clear env h with
      | mk result h' =>
        cases result with
        | error error =>
          have hUntouched := clear_failed hClear
          simp only [advance, serve, hClear, ChargeLedger.next, Reply.of]
          exact b.same hUntouched.accounted (by rw [hUntouched.state])
        | ok =>
          simp only [advance, serve, hClear, ChargeLedger.next, Reply.of]
          exact b.unsteady (clear_done hClear).1
    | recordAssistantUsage messageId input output =>
      have hCases := (@record_cases h env messageId input output).1
      cases hRecord : recordAssistantUsage env messageId input output h with
      | mk result h' =>
        rw [hRecord] at hCases
        simp only [advance, serve, hRecord, ChargeLedger.next]
        obtain hIgnored | ⟨error, rfl⟩ | ⟨hReply, hCharged⟩ := hCases
        · obtain ⟨rfl, rfl⟩ := Prod.mk.inj hIgnored
          simpa [Reply.ofUsage] using b
        · have hUntouched := record_failed hRecord
          exact b.same hUntouched.accounted (by rw [hUntouched.state])
        · have hCharge : Reply.ofUsage result = .usage .accounted ∨ Reply.ofUsage result = .usage .budgetReached := by
            obtain rfl | rfl := hReply
            · exact .inl rfl
            · exact .inr rfl
          rw [if_pos hCharge]
          exact hCharged.balanced b
    | reloadFromBranch rule cut staleFailure =>
      have hAccounted := @reload_accounted h rule cut staleFailure
      simp only [advance, serve, ChargeLedger.next]
      split
      next hSame => exact b.same hAccounted (reload_used staleFailure hSame)
      next => exact b.unsteady hAccounted
    | _ => exact absurd hPlain id
  · have hKeeps := @serve_keeps h env call hPlain
    simp only [advance, next_plain hPlain]
    exact b.same hKeeps.accounted hKeeps.state.used

/-- What the driver holds and every row of the session are below their budget where they are active. -/
structure Solvent (h : Held) : Prop where
  state : WithinBudget h.driver.state
  rows : ∀ row ∈ h.rows, WithinBudget row

theorem Adds.solvent {rows rows' : List GoalState} (a : Adds WithinBudget rows rows')
    (hRows : ∀ row ∈ rows, WithinBudget row) : ∀ row ∈ rows', WithinBudget row := by
  obtain ⟨added, rfl, hAdded⟩ := a
  intro row hMem
  obtain hMem | hMem := List.mem_append.mp hMem
  · exact hRows row hMem
  · exact hAdded row hMem

theorem Keeps.solvent (k : Keeps h h') (s : Solvent h) : Solvent h' := by
  obtain ⟨added, hRows, hAdded⟩ := k.rows
  constructor
  · exact k.state.within s.state
  · refine Adds.solvent ⟨added, hRows, ?_⟩ s.rows
    exact fun row hMem => (hAdded row hMem).within s.state

theorem solvent_serve (s : Solvent h) (hFits : ClampFits h call) (env : OpEnv) : Solvent (serve env h call).2 := by
  by_cases hPlain : call.Accounts
  · cases call with
    | start objectiveText tokenBudget =>
      refine ⟨?_, (start_adds objectiveText tokenBudget).solvent s.rows⟩
      show WithinBudget (start env objectiveText tokenBudget h).2.driver.state
      cases hStart : start env objectiveText tokenBudget h with
      | mk result h' =>
        cases result with
        | error error =>
          rw [(start_failed hStart).state]
          exact s.state
        | ok goal => exact (start_done hStart).within
    | clear =>
      refine ⟨?_, clear_adds.solvent s.rows⟩
      show WithinBudget (clear env h).2.driver.state
      cases hClear : clear env h with
      | mk result h' =>
        cases result with
        | error error =>
          rw [(clear_failed hClear).state]
          exact s.state
        | ok =>
          rw [(clear_done hClear).2]
          exact recorded_within fun hActive => by cases hActive
    | recordAssistantUsage messageId input output =>
      have hCases := @record_cases h env messageId input output
      refine ⟨?_, hCases.2.solvent s.rows⟩
      show WithinBudget (recordAssistantUsage env messageId input output h).2.driver.state
      obtain hIgnored | ⟨error, hError⟩ | ⟨-, hCharged⟩ := hCases.1
      · rw [hIgnored]
        exact s.state
      · rw [(record_failed (Prod.ext hError rfl)).state]
        exact s.state
      · obtain ⟨now, hState⟩ := hCharged.state
        rw [hState]
        exact recorded_within (charged_within _ _)
    | reloadFromBranch rule cut staleFailure =>
      constructor
      · exact reload_within hFits s.rows s.state
      · show ∀ row ∈ (reloadFromBranch rule cut staleFailure h).rows, _
        rw [reload_rows]
        exact s.rows
    | _ => exact absurd hPlain id
  · exact (serve_keeps hPlain).solvent s

/-! ## The next call -/

def FailureKeeps (h h' : Held) : GoalCall → Prop
  | .nextContinuationMessage _ => Counted h h'
  | .takeOwedContinuation _ => Counted h h'
  | .rollbackContinuationMint => h'.driver = { h.driver with pendingContinuation := false }
  | _ => Untouched h h'

theorem of_failed {α : Type} {result : Except GoalError α} (hFailed : Reply.of result = .failed) :
    ∃ error, result = .error error := by
  cases result with
  | error error => exact ⟨error, rfl⟩
  | ok value => cases hFailed

theorem serve_failed (hFailed : (serve env h call).1 = .failed) : FailureKeeps h (serve env h call).2 call := by
  cases call with
  | start objectiveText tokenBudget =>
    obtain ⟨error, hError⟩ := of_failed hFailed
    exact start_failed (Prod.ext hError rfl)
  | clear =>
    obtain ⟨error, hError⟩ := of_failed hFailed
    exact clear_failed (Prod.ext hError rfl)
  | recordAssistantUsage messageId input output =>
    have hReply : Reply.ofUsage (recordAssistantUsage env messageId input output h).1 = .failed := hFailed
    cases hResult : (recordAssistantUsage env messageId input output h).1 with
    | error error => exact record_failed (Prod.ext hResult rfl)
    | ok outcome =>
      rw [hResult] at hReply
      cases hReply
  | pause reason =>
    obtain ⟨error, hError⟩ := of_failed hFailed
    exact pause_failed (Prod.ext hError rfl)
  | resume =>
    obtain ⟨error, hError⟩ := of_failed hFailed
    exact resume_failed (Prod.ext hError rfl)
  | complete =>
    obtain ⟨error, hError⟩ := of_failed hFailed
    exact complete_failed (Prod.ext hError rfl)
  | finishForTerminalMessage stopReason errorMessage =>
    obtain ⟨error, hError⟩ := of_failed hFailed
    exact finish_failed (Prod.ext hError rfl)
  | nextContinuationMessage lastTurn =>
    obtain ⟨error, hError⟩ := of_failed hFailed
    exact nextContinuation_failed (Prod.ext hError rfl)
  | takeOwedContinuation lastTurn =>
    obtain ⟨error, hError⟩ := of_failed hFailed
    exact takeOwed_failed (Prod.ext hError rfl)
  | rollbackContinuationMint =>
    obtain ⟨error, hError⟩ := of_failed hFailed
    exact rollback_failed (Prod.ext hError rfl)
  | markContinuationOwed | continuationConsumed | reloadFromBranch rule cut staleFailure => cases hFailed

def Replaces (h : Held) : GoalCall → Prop
  | .start .. => True
  | .reloadFromBranch rule cut _ =>
    ¬ (rule = .sameTimeline ∧ sameGoal (h.latestPersistedState cut) h.driver.state = true)
  | _ => False

theorem serve_sleeps (hKept : ¬ Replaces h call) (hExhausted : exhausted h.driver.state = true)
    (hInactive : h.driver.state.status ≠ .active) : (serve env h call).2.driver.state.status ≠ .active := by
  by_cases hPlain : call.Accounts
  · cases call with
    | start => exact absurd trivial hKept
    | clear =>
      show (clear env h).2.driver.state.status ≠ .active
      cases hClear : clear env h with
      | mk result h' =>
        cases result with
        | error error =>
          rw [(clear_failed hClear).state]
          exact hInactive
        | ok =>
          rw [(clear_done hClear).2, recorded_status]
          simp [emptyGoalState]
    | recordAssistantUsage messageId input output =>
      show (recordAssistantUsage env messageId input output h).2.driver.state.status ≠ .active
      unfold recordAssistantUsage
      rw [if_pos hInactive]
      exact hInactive
    | reloadFromBranch rule cut staleFailure =>
      show (reloadFromBranch rule cut staleFailure h).driver.state.status ≠ .active
      unfold reloadFromBranch
      simp only
      rw [if_pos (not_not.mp hKept)]
      exact hInactive
    | _ => exact absurd hPlain id
  · intro hActive
    obtain hBefore | hLeft := (serve_keeps hPlain).state.wakes hActive
    · exact hInactive hBefore
    · rw [hExhausted] at hLeft
      cases hLeft

theorem charged_limited (hReached : exhausted (chargedState tokens s) = true) :
    (chargedState tokens s).status = .budgetLimited := by
  unfold chargedState at hReached ⊢
  simp only at hReached ⊢
  split at hReached
  next hOver => rw [if_pos hOver]
  next hBelow => exact absurd hReached hBelow

theorem exhausted_recorded : exhausted (recorded now next) = exhausted next := by
  unfold exhausted
  rw [recorded_tokenBudget, recorded_tokensUsed]

theorem serve_limits {input output : Nat} {outcome : UsageOutcome}
    (hCharge : (serve env h (.recordAssistantUsage messageId input output)).1 = .usage outcome)
    (hActive : h.driver.state.status = .active)
    (hReached : exhausted (serve env h (.recordAssistantUsage messageId input output)).2.driver.state = true) :
    (outcome = .ignored ∧ (serve env h (.recordAssistantUsage messageId input output)).2 = h) ∨
      (serve env h (.recordAssistantUsage messageId input output)).2.driver.state.status = .budgetLimited := by
  change Reply.ofUsage (recordAssistantUsage env messageId input output h).1 = _ at hCharge
  change exhausted (recordAssistantUsage env messageId input output h).2.driver.state = true at hReached
  show (_ ∧ (recordAssistantUsage env messageId input output h).2 = h) ∨
    (recordAssistantUsage env messageId input output h).2.driver.state.status = _
  obtain hIgnored | ⟨error, hError⟩ | ⟨-, hCharged⟩ := (@record_cases h env messageId input output).1
  · rw [hIgnored] at hCharge ⊢
    exact .inl ⟨(Reply.usage.inj hCharge).symm, rfl⟩
  · rw [hError] at hCharge
    cases hCharge
  · obtain ⟨now, hState⟩ := hCharged.state
    rw [hState, exhausted_recorded] at hReached
    rw [hState, recorded_status]
    exact .inr (charged_limited hReached)

/-! ## Runs -/

theorem afterCalls_concat (rows : List GoalState) (calls : List (OpEnv × GoalCall)) (step : OpEnv × GoalCall) :
    afterCalls rows (calls ++ [step]) = advance (afterCalls rows calls) step := by
  unfold afterCalls
  rw [List.foldl_append]
  rfl

theorem balanced_run (rows : List GoalState) (calls : List (OpEnv × GoalCall)) : Balanced (afterCalls rows calls) := by
  induction calls using List.reverseRecOn with
  | nil => exact Opened.balanced ⟨rfl, rfl, fun hActive => by cases hActive⟩
  | append_singleton calls step ih =>
    rw [afterCalls_concat]
    exact balanced_advance ih step.1 step.2

def ClampsFit (rows : List GoalState) (calls : List (OpEnv × GoalCall)) : Prop :=
  ∀ before step after, calls = before ++ step :: after → ClampFits (afterCalls rows before).1 step.2

theorem solvent_run {calls : List (OpEnv × GoalCall)} (hRows : ∀ row ∈ rows, WithinBudget row)
    (hFits : ClampsFit rows calls) : Solvent (afterCalls rows calls).1 := by
  induction calls using List.reverseRecOn with
  | nil => exact ⟨fun hActive => (by cases hActive), hRows⟩
  | append_singleton calls step ih =>
    rw [afterCalls_concat]
    refine solvent_serve (ih ?_) (hFits calls step [] rfl) step.1
    rintro before other after rfl
    exact hFits before other (after ++ [step]) (by simp)

structure Contract (h : Held) (env : OpEnv) (call : GoalCall) : Prop where
  failure : (serve env h call).1 = .failed → FailureKeeps h (serve env h call).2 call
  limit : ∀ messageId input output outcome, call = .recordAssistantUsage messageId input output →
    (serve env h call).1 = .usage outcome → h.driver.state.status = .active →
    exhausted (serve env h call).2.driver.state = true →
    (outcome = .ignored ∧ (serve env h call).2 = h) ∨ (serve env h call).2.driver.state.status = .budgetLimited
  sleep : ¬ Replaces h call → exhausted h.driver.state = true → h.driver.state.status ≠ .active →
    (serve env h call).2.driver.state.status ≠ .active

theorem serve_contract (h : Held) (env : OpEnv) (call : GoalCall) : Contract h env call := by
  constructor
  · exact serve_failed
  · rintro messageId input output outcome rfl hCharge hActive hReached
    exact serve_limits hCharge hActive hReached
  · exact serve_sleeps

/-- A clock at `ms`, writes that end like this, and a drawn id. -/
def steadyEnv (ms : Nat) (persist : Persist) : OpEnv :=
  ⟨fun _ => ms, fun _ => persist, "goal"⟩

def chargedCalls : List (OpEnv × GoalCall) :=
  [(steadyEnv 1 .done, .start "ship".toList (some 100)), (steadyEnv 2 .done, .recordAssistantUsage "a" 40 20),
    (steadyEnv 3 .appendFailed, .recordAssistantUsage "b" 50 0), (steadyEnv 4 .done, .recordAssistantUsage "b" 50 0)]

end PrimeAgent.Goal
