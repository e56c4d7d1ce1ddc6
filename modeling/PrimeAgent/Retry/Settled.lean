import PrimeAgent.Retry.Loops

/-! # What a retried turn leaves behind

Each round of a loop keeps the trace of the attempts so far; the round that returns closes it.
-/
namespace PrimeAgent.Retry

open Rounds

variable {env : RetryEnv} {message : Agent.AssistantMessage} {trace trace' : Trace} {event : AutoRetryEvent}
  {maxRetries : Nat} {candidates : List Agent.Model} {spent : List Agent.Model → List Nat → Prop}
  {restoredModel : Option String} {switched : Bool} {attempt : Nat} {policy : ProviderRetryPolicy}
  {state : AutoRetryState}

/-! ## Calls -/

theorem callAttempt_ok (hCall : env.callAttempt trace = .ok (message, trace')) :
    env.attempt trace.attempts = .ok message ∧
      trace' = { trace with attempts := trace.attempts + 1, onProvider := oneMore trace.onProvider } := by
  obtain ⟨message', hMessage, hPure⟩ := bind_ok hCall
  obtain ⟨rfl, rfl⟩ := Prod.mk.inj (Except.ok.inj hPure)
  exact ⟨hMessage, rfl⟩

theorem callEmit_ok (hCall : env.callEmit event trace = .ok trace') :
    trace' = { trace with events := trace.events ++ [event] } := by
  obtain ⟨_, -, hPure⟩ := bind_ok hCall
  exact (Except.ok.inj hPure).symm

theorem callSwitch_ok {next : Agent.Model} (hCall : env.callSwitch next trace = .ok trace') :
    trace' = { trace with switches := trace.switches ++ [next], onProvider := 0 :: trace.onProvider } := by
  obtain ⟨_, -, hPure⟩ := bind_ok hCall
  exact (Except.ok.inj hPure).symm

theorem restoreIf_ok (hCall : env.restoreIf switched trace = .ok (restoredModel, trace')) :
    trace' = { trace with restores := trace.restores + switched.toNat } := by
  unfold RetryEnv.restoreIf at hCall
  cases switched with
  | false => exact (Prod.mk.inj (Except.ok.inj hCall)).2.symm
  | true =>
    rw [if_pos rfl] at hCall
    obtain ⟨_, -, hPure⟩ := bind_ok hCall
    exact (Prod.mk.inj (Except.ok.inj hPure)).2.symm

theorem emitIf_ok {test : Bool} (hCall : env.emitIf test event trace = .ok trace') :
    trace' = { trace with events := trace.events ++ if test then [event] else [] } := by
  unfold RetryEnv.emitIf at hCall
  cases test with
  | false =>
    rw [if_neg Bool.false_ne_true] at hCall ⊢
    rw [List.append_nil]
    exact (Except.ok.inj hCall).symm
  | true =>
    rw [if_pos rfl] at hCall ⊢
    exact callEmit_ok hCall

/-! ## The trace of a turn -/

def AutoRetryEvent.isStart : AutoRetryEvent → Bool
  | .start .. => true
  | .ended .. => false

def AbortRaced (env : RetryEnv) (trace : Trace) : Prop :=
  ∃ message, env.attempt (trace.attempts - 1) = .ok message ∧ message.stopReason = .error ∧
    env.aborted trace.attempts = true

structure Tried (maxRetries : Nat) (candidates : List Agent.Model) (trace : Trace) : Prop where
  onProvider : ∀ attempts ∈ trace.onProvider, attempts ≤ 1 + maxRetries
  sum : trace.onProvider.sum = trace.attempts
  providers : trace.onProvider.length = trace.switches.length + 1
  switches : trace.switches <+: candidates
  restores : trace.restores = 0
  starts : ∀ event ∈ trace.events, event.isStart

def Numbered (env : RetryEnv) (spent : List Agent.Model → List Nat → Prop) (trace : Trace) : AutoRetryEvent → Prop
  | .start .. => False
  | .ended success attempt finalError _ =>
    (success = true ↔ finalError = none) ∧
      (attempt + 1 = trace.attempts ∨
        (success = false ∧
          ((finalError = some "Retry cancelled" ∧ ∃ delayMs, env.wait trace.attempts delayMs = false) ∨
            spent trace.switches trace.onProvider)))

structure Settled (env : RetryEnv) (maxRetries : Nat) (candidates : List Agent.Model)
    (spent : List Agent.Model → List Nat → Prop) (trace : Trace) : Prop where
  onProvider : ∀ attempts ∈ trace.onProvider, attempts ≤ 1 + maxRetries
  sum : trace.onProvider.sum = trace.attempts
  providers : trace.onProvider.length = trace.switches.length + 1
  switches : trace.switches <+: candidates
  restores : trace.restores = if trace.switches = [] then 0 else 1
  /-- Starts, and at most one end behind them; there is one where there is a start, unless an abort raced the last
  failure. -/
  events : ∃ starts ends, trace.events = starts ++ ends ∧ (∀ event ∈ starts, event.isStart) ∧
    ends.length ≤ 1 ∧ (∀ event ∈ ends, Numbered env spent trace event) ∧
    (starts ≠ [] → ¬ AbortRaced env trace → ends ≠ [])

theorem Tried.closed (t : Tried maxRetries candidates trace) {switched : Bool}
    (hSwitched : switched = decide (trace.switches ≠ [])) {ends : List AutoRetryEvent} (hOne : ends.length ≤ 1)
    (hNumbered : ∀ event ∈ ends, Numbered env spent trace event)
    (hEnded : trace.events ≠ [] → ¬ AbortRaced env trace → ends ≠ []) :
    Settled env maxRetries candidates spent
      { trace with restores := trace.restores + switched.toNat, events := trace.events ++ ends } := by
  refine ⟨t.onProvider, t.sum, t.providers, t.switches, ?_, trace.events, ends, rfl, t.starts, hOne, ?_, hEnded⟩
  · show trace.restores + switched.toNat = if trace.switches = [] then 0 else 1
    rw [t.restores, hSwitched]
    cases trace.switches with
    | nil => rfl
    | cons next switches => rfl
  · intro event hMem
    have hEvent := hNumbered event hMem
    cases event with
    | start | ended => exact hEvent

theorem Tried.ended (t : Tried maxRetries candidates trace) {switched : Bool}
    (hSwitched : switched = decide (trace.switches ≠ [])) {restoredModel : Option String} {restored : Trace}
    (hRestore : env.restoreIf switched trace = .ok (restoredModel, restored)) {test : Bool}
    (hEmit : env.emitIf test event restored = .ok trace') (hNumbered : test = true → Numbered env spent trace event)
    (hTest : trace.events ≠ [] → test = true) : Settled env maxRetries candidates spent trace' := by
  rw [emitIf_ok hEmit, restoreIf_ok hRestore]
  refine t.closed hSwitched ?_ ?_ ?_
  · cases test with
    | false => exact Nat.zero_le _
    | true => exact Nat.le_refl _
  · intro event' hMem
    cases test with
    | false => cases hMem
    | true =>
      rw [List.mem_singleton.mp hMem]
      exact hNumbered rfl
  · intro hSome _
    rw [hTest hSome]
    exact List.cons_ne_nil _ _

theorem Tried.ended_always (t : Tried maxRetries candidates trace) (hSwitched : switched = decide (trace.switches ≠ []))
    {restored : Trace} (hRestore : env.restoreIf switched trace = .ok (restoredModel, restored))
    (hEmit : env.callEmit event restored = .ok trace') (hNumbered : Numbered env spent trace event) :
    Settled env maxRetries candidates spent trace' :=
  t.ended hSwitched hRestore (show env.emitIf true event restored = .ok trace' from hEmit) (fun _ => hNumbered)
    (fun _ => rfl)

theorem Tried.aborted (t : Tried maxRetries candidates trace) (hSwitched : switched = decide (trace.switches ≠ []))
    (hRestore : env.restoreIf switched trace = .ok (restoredModel, trace')) (hRaced : AbortRaced env trace) :
    Settled env maxRetries candidates spent trace' := by
  have hClosed := @Tried.closed env trace maxRetries candidates spent t switched hSwitched [] (Nat.zero_le _)
    (fun event hMem => (by cases hMem)) (fun _ hNot => absurd hRaced hNot)
  rw [List.append_nil] at hClosed
  rw [restoreIf_ok hRestore]
  exact hClosed

theorem numbered_retries {success : Bool} {finalError restoredModel : Option String}
    (hError : success = true ↔ finalError = none) (hAttempt : attempt + 1 = trace.attempts) :
    Numbered env spent trace (.ended success attempt finalError restoredModel) :=
  ⟨hError, .inl hAttempt⟩

theorem numbered_failed {finalError : String} (hAttempt : attempt + 1 = trace.attempts) :
    Numbered env spent trace (.ended false attempt (some finalError) none) :=
  numbered_retries ⟨fun hTrue => (by cases hTrue), fun hNone => (by cases hNone)⟩ hAttempt

theorem numbered_cancelled {attempt delayMs : Nat} (hWait : ¬ env.wait trace.attempts delayMs = true) :
    Numbered env spent trace (.ended false attempt (some "Retry cancelled") none) :=
  ⟨⟨fun hTrue => (by cases hTrue), fun hNone => (by cases hNone)⟩,
    .inr ⟨rfl, .inl ⟨rfl, delayMs, Bool.not_eq_true _ ▸ hWait⟩⟩⟩

theorem Tried.started (t : Tried maxRetries candidates trace) (hStart : event.isStart) :
    Tried maxRetries candidates { trace with events := trace.events ++ [event] } := by
  refine ⟨t.onProvider, t.sum, t.providers, t.switches, t.restores, ?_⟩
  intro event' hMem
  obtain hMem | hMem := List.mem_append.mp hMem
  · exact t.starts event' hMem
  · rw [List.mem_singleton.mp hMem]
    exact hStart

/-! ## On one provider -/

structure AutoRetryInv (policy : ProviderRetryPolicy) (state : AutoRetryState) : Prop where
  left : state.retriesPerformed ≤ policy.maxRetries
  attempts : state.trace.attempts = state.retriesPerformed
  onProvider : state.trace.onProvider = [state.retriesPerformed]
  switches : state.trace.switches = []
  restores : state.trace.restores = 0
  starts : ∀ event ∈ state.trace.events, event.isStart
  retries : state.trace.events.length = state.retriesPerformed

theorem AutoRetryInv.tried (i : AutoRetryInv policy state) :
    Tried policy.maxRetries []
      { state.trace with attempts := state.trace.attempts + 1, onProvider := oneMore state.trace.onProvider } := by
  obtain ⟨hLeft, hAttempts, hOn, hSwitches, hRestores, hStarts, -⟩ := i
  constructor
  · intro attempts hMem
    simp only [hOn, oneMore, List.mem_singleton] at hMem
    omega
  · simp only [hOn, oneMore, List.sum_singleton, hAttempts]
  · simp only [hOn, oneMore, hSwitches]
    rfl
  · simp only [hSwitches]
    exact List.prefix_rfl
  · exact hRestores
  · exact hStarts

def AutoSettled (env : RetryEnv) (policy : ProviderRetryPolicy) (result : Agent.AssistantMessage × Trace) : Prop :=
  result.2.attempts ≤ 1 + policy.maxRetries ∧ Settled env policy.maxRetries [] (fun _ _ => False) result.2

theorem autoRetryRound_ok (i : AutoRetryInv policy state) {next : Next (Agent.AssistantMessage × Trace) AutoRetryState}
    (hRound : autoRetryRound env policy state = .ok next) :
    (∃ result, next = .done result ∧ AutoSettled env policy result) ∨
      ∃ state', next = .again state' ∧ AutoRetryInv policy state' ∧
        state'.retriesPerformed = state.retriesPerformed + 1 := by
  unfold autoRetryRound at hRound
  obtain ⟨⟨message, trace⟩, hAttempt, hRound⟩ := bind_ok hRound
  obtain ⟨hMessage, hTrace⟩ := callAttempt_ok hAttempt
  have hTried := i.tried
  rw [← hTrace] at hTried
  have hAttempts : state.retriesPerformed + 1 = trace.attempts := by rw [hTrace, ← i.attempts]
  have hEvents : trace.events = state.trace.events := by rw [hTrace]
  have hSwitched : false = decide (trace.switches ≠ []) := by rw [hTrace, i.switches]; rfl
  have hRestore : env.restoreIf false trace = .ok (none, trace) := rfl
  have hRetried : trace.events ≠ [] → 0 < state.retriesPerformed := by
    intro hSome
    rw [← i.retries, ← hEvents]
    exact List.length_pos_iff.mpr hSome
  have hBound : trace.attempts ≤ 1 + policy.maxRetries := by
    have hLeft := i.left
    omega
  have hKept : ∀ trace' : Trace, trace'.attempts = trace.attempts →
      Settled env policy.maxRetries [] (fun _ _ => False) trace' →
      ∀ message : Agent.AssistantMessage, AutoSettled env policy (message, trace') := by
    intro trace' hSame hSettled message
    exact ⟨hSame ▸ hBound, hSettled⟩
  simp only at hRound
  split at hRound
  next =>
    obtain ⟨trace', hEmit, rfl⟩ := bind_pure_ok hRound
    refine .inl ⟨_, rfl, hKept trace' (by rw [emitIf_ok hEmit]) ?_ message⟩
    refine hTried.ended hSwitched hRestore hEmit (fun _ => numbered_retries (by simp) hAttempts) ?_
    exact fun hSome => decide_eq_true (hRetried hSome)
  next hFailed =>
    split at hRound
    next hAborted =>
      obtain rfl := Except.ok.inj hRound
      refine .inl ⟨_, rfl, hKept trace rfl (hTried.aborted hSwitched hRestore ⟨message, ?_, not_not.mp hFailed, hAborted⟩) _⟩
      rw [hTrace]
      exact hMessage
    next =>
      split at hRound
      next =>
        obtain ⟨trace', hEmit, rfl⟩ := bind_pure_ok hRound
        refine .inl ⟨_, rfl, hKept trace' (by rw [emitIf_ok hEmit]) ?_ message⟩
        refine hTried.ended hSwitched hRestore hEmit (fun _ => numbered_failed hAttempts) ?_
        intro hSome
        unfold RetryEnv.discloses
        rw [decide_eq_true (hRetried hSome)]
        rfl
      next =>
        split at hRound
        next =>
          obtain ⟨trace', hEmit, rfl⟩ := bind_pure_ok hRound
          refine .inl ⟨_, rfl, hKept trace' (by rw [callEmit_ok hEmit]) ?_ message⟩
          exact hTried.ended_always hSwitched hRestore hEmit (numbered_failed hAttempts)
        next =>
          split at hRound
          next =>
            obtain ⟨trace', hEmit, rfl⟩ := bind_pure_ok hRound
            refine .inl ⟨_, rfl, hKept trace' (by rw [callEmit_ok hEmit]) ?_ message⟩
            exact hTried.ended_always hSwitched hRestore hEmit (numbered_failed hAttempts)
          next hLeft =>
            obtain ⟨started, hStart, hRound⟩ := bind_ok hRound
            have hStarted := callEmit_ok hStart
            have hTried' : Tried policy.maxRetries [] started := by
              rw [hStarted]
              exact hTried.started rfl
            split at hRound
            next =>
              obtain rfl := Except.ok.inj hRound
              refine .inr ⟨_, rfl, ?_, rfl⟩
              constructor
              · exact Nat.not_lt.mp hLeft
              · rw [hStarted]
                exact hAttempts.symm
              · rw [hStarted, hTrace]
                show oneMore state.trace.onProvider = _
                rw [i.onProvider]
                rfl
              · rw [hStarted, hTrace]
                exact i.switches
              · exact hTried'.restores
              · exact hTried'.starts
              · rw [hStarted]
                show (trace.events ++ [_]).length = _
                rw [List.length_append, hEvents, i.retries]
                rfl
            next hWait =>
              obtain ⟨trace', hEmit, rfl⟩ := bind_pure_ok hRound
              have hSwitched' : false = decide (started.switches ≠ []) := by
                rw [hStarted]
                exact hSwitched
              refine .inl ⟨_, rfl, hKept trace' (by rw [callEmit_ok hEmit, hStarted]) ?_ _⟩
              exact hTried'.ended_always hSwitched' rfl hEmit (numbered_cancelled hWait)

theorem autoRetryInv_opened (policy : ProviderRetryPolicy) : AutoRetryInv policy ⟨0, .opened⟩ :=
  ⟨Nat.zero_le _, rfl, rfl, rfl, rfl, fun event hMem => (by cases hMem), rfl⟩

theorem runTurnWithAutoRetry_settled (env : RetryEnv) (policy : ProviderRetryPolicy) :
    ∃ outcome, runTurnWithAutoRetry env policy = some outcome ∧
      ∀ result, outcome = .ok result → AutoSettled env policy result := by
  obtain ⟨outcome, hOutcome⟩ := run_ends (fun state => policy.maxRetries - state.retriesPerformed)
    (fun state state' i hRound => by
      obtain ⟨result, hNext, -⟩ | ⟨state'', hNext, i', hMore⟩ := autoRetryRound_ok i hRound
      · cases hNext
      · obtain rfl := Next.again.inj hNext
        have hLeft := i'.left
        exact ⟨i', by omega⟩)
    (autoRetryInv_opened policy) (Nat.lt_succ_of_le (Nat.sub_le _ _))
  refine ⟨outcome, hOutcome, ?_⟩
  rintro result rfl
  refine run_ok ?_ ?_ (autoRetryInv_opened policy) hOutcome
  · intro state state' i hRound
    obtain ⟨result', hNext, -⟩ | ⟨state'', hNext, i', -⟩ := autoRetryRound_ok i hRound
    · cases hNext
    · obtain rfl := Next.again.inj hNext
      exact i'
  · intro state result' i hRound
    obtain ⟨result'', hNext, hSettled⟩ | ⟨state', hNext, -⟩ := autoRetryRound_ok i hRound
    · obtain rfl := Next.done.inj hNext
      exact hSettled
    · cases hNext

end PrimeAgent.Retry
