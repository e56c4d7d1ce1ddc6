import PrimeAgent.Retry.Settled

/-! # The chain of candidates

The failover loop walks the candidates in their order, one budget of retries each, under the ceiling of the whole episode.
-/
namespace PrimeAgent.Retry

open Rounds

variable {env : RetryEnv} {quickPolicy : ProviderRetryPolicy} {failover : ProviderFailoverPolicy}
  {candidates : List Agent.Model} {state : FailoverState}

structure FailoverInv (failover : ProviderFailoverPolicy) (candidates : List Agent.Model) (state : FailoverState) :
    Prop where
  total : state.totalRetries ≤ maxTotalProviderRetries
  attempts : state.trace.attempts = state.totalRetries
  left : state.retriesOnProvider ≤ failover.maxRetries
  onProvider : ∃ others, state.trace.onProvider = state.retriesOnProvider :: others ∧
    (∀ attempts ∈ others, attempts ≤ 1 + failover.maxRetries) ∧ others.length = state.trace.switches.length
  sum : state.trace.onProvider.sum = state.trace.attempts
  index : state.candidateIndex ≤ candidates.length
  switches : state.trace.switches = candidates.take state.candidateIndex
  switched : state.switched = decide (state.trace.switches ≠ [])
  restores : state.trace.restores = 0
  starts : ∀ event ∈ state.trace.events, event.isStart
  retries : state.trace.events.length = state.totalRetries

theorem FailoverInv.tried (i : FailoverInv failover candidates state) :
    Tried failover.maxRetries candidates
      { state.trace with attempts := state.trace.attempts + 1, onProvider := oneMore state.trace.onProvider } := by
  obtain ⟨others, hOn, hOthers, hLength⟩ := i.onProvider
  have hLeft := i.left
  constructor
  · intro attempts hMem
    simp only [hOn, oneMore] at hMem
    obtain rfl | hMem := List.mem_cons.mp hMem
    · omega
    · exact hOthers attempts hMem
  · have hSum := i.sum
    rw [hOn, List.sum_cons] at hSum
    show (oneMore state.trace.onProvider).sum = state.trace.attempts + 1
    rw [hOn, oneMore, List.sum_cons]
    omega
  · show (oneMore state.trace.onProvider).length = state.trace.switches.length + 1
    rw [hOn, oneMore, List.length_cons, hLength]
  · show state.trace.switches <+: candidates
    rw [i.switches]
    exact List.take_prefix _ _
  · exact i.restores
  · exact i.starts

def ChainSpent (failover : ProviderFailoverPolicy) (candidates : List Agent.Model) (switches : List Agent.Model)
    (onProvider : List Nat) : Prop :=
  switches = candidates ∧ onProvider.head? = some (1 + failover.maxRetries)

def FailoverSettled (env : RetryEnv) (failover : ProviderFailoverPolicy) (candidates : List Agent.Model)
    (result : Agent.AssistantMessage × Trace) : Prop :=
  result.2.attempts ≤ 1 + maxTotalProviderRetries ∧
    Settled env failover.maxRetries candidates (ChainSpent failover candidates) result.2

theorem failoverRound_ok (i : FailoverInv failover candidates state)
    {next : Next (Agent.AssistantMessage × Trace) FailoverState}
    (hRound : failoverRound env quickPolicy failover candidates state = .ok next) :
    (∃ result, next = .done result ∧ FailoverSettled env failover candidates result) ∨
      ∃ state', next = .again state' ∧ FailoverInv failover candidates state' ∧
        state'.totalRetries = state.totalRetries + 1 := by
  unfold failoverRound at hRound
  obtain ⟨⟨message, trace⟩, hAttempt, hRound⟩ := bind_ok hRound
  obtain ⟨hMessage, hTrace⟩ := callAttempt_ok hAttempt
  have hTried := i.tried
  rw [← hTrace] at hTried
  obtain ⟨others, hOn, hOthers, hLength⟩ := i.onProvider
  have hOn' : trace.onProvider = (state.retriesOnProvider + 1) :: others := by rw [hTrace, hOn, oneMore]
  have hAttempts : state.totalRetries + 1 = trace.attempts := by rw [hTrace, ← i.attempts]
  have hEvents : trace.events = state.trace.events := by rw [hTrace]
  have hSwitches : trace.switches = state.trace.switches := by rw [hTrace]
  have hSwitched : state.switched = decide (trace.switches ≠ []) := by rw [hSwitches]; exact i.switched
  have hRetried : trace.events ≠ [] → 0 < state.totalRetries := by
    intro hSome
    rw [← i.retries, ← hEvents]
    exact List.length_pos_iff.mpr hSome
  have hBound : trace.attempts ≤ 1 + maxTotalProviderRetries := by
    have hTotal := i.total
    omega
  have hKept : ∀ trace' : Trace, trace'.attempts = trace.attempts →
      Settled env failover.maxRetries candidates (ChainSpent failover candidates) trace' →
      ∀ message : Agent.AssistantMessage, FailoverSettled env failover candidates (message, trace') := by
    intro trace' hSame hSettled message
    exact ⟨hSame ▸ hBound, hSettled⟩
  simp only at hRound
  split at hRound
  next =>
    obtain ⟨⟨restoredModel, restored⟩, hRestore, hRound⟩ := bind_ok hRound
    obtain ⟨trace', hEmit, rfl⟩ := bind_pure_ok hRound
    refine .inl ⟨_, rfl, hKept trace' (by rw [emitIf_ok hEmit, restoreIf_ok hRestore]) ?_ message⟩
    refine hTried.ended hSwitched hRestore hEmit (fun _ => numbered_retries (by simp) hAttempts) ?_
    intro hSome
    rw [decide_eq_true (hRetried hSome)]
    exact Bool.or_true _
  next hFailed =>
    split at hRound
    next hAborted =>
      obtain ⟨⟨restoredModel, restored⟩, hRestore, hPure⟩ := bind_ok hRound
      obtain rfl := Except.ok.inj hPure
      have hRaced : AbortRaced env trace := by
        refine ⟨message, ?_, not_not.mp hFailed, hAborted⟩
        rw [hTrace]
        exact hMessage
      exact .inl ⟨_, rfl, hKept restored (by rw [restoreIf_ok hRestore]) (hTried.aborted hSwitched hRestore hRaced) _⟩
    next =>
      split at hRound
      next =>
        obtain ⟨⟨restoredModel, restored⟩, hRestore, hRound⟩ := bind_ok hRound
        obtain ⟨trace', hEmit, rfl⟩ := bind_pure_ok hRound
        refine .inl ⟨_, rfl, hKept trace' (by rw [emitIf_ok hEmit, restoreIf_ok hRestore]) ?_ message⟩
        refine hTried.ended hSwitched hRestore hEmit (fun _ => numbered_failed hAttempts) ?_
        intro hSome
        unfold RetryEnv.discloses
        rw [decide_eq_true (hRetried hSome)]
        rfl
      next =>
        split at hRound
        next =>
          obtain ⟨⟨restoredModel, restored⟩, hRestore, hRound⟩ := bind_ok hRound
          obtain ⟨trace', hEmit, rfl⟩ := bind_pure_ok hRound
          refine .inl ⟨_, rfl, hKept trace' (by rw [callEmit_ok hEmit, restoreIf_ok hRestore]) ?_ message⟩
          exact hTried.ended_always hSwitched hRestore hEmit (numbered_failed hAttempts)
        next hCeiling =>
          split at hRound
          next hOver =>
            split at hRound
            next hNoNext =>
              obtain ⟨⟨restoredModel, restored⟩, hRestore, hRound⟩ := bind_ok hRound
              obtain ⟨trace', hEmit, rfl⟩ := bind_pure_ok hRound
              refine .inl ⟨_, rfl, hKept trace' (by rw [callEmit_ok hEmit, restoreIf_ok hRestore]) ?_ message⟩
              refine hTried.ended_always hSwitched hRestore hEmit ⟨by simp, .inr ⟨rfl, .inr ⟨?_, ?_⟩⟩⟩
              · rw [hSwitches, i.switches]
                exact List.take_of_length_le (List.getElem?_eq_none_iff.mp hNoNext)
              · have hLeft := i.left
                rw [hOn', List.head?_cons]
                congr 1
                omega
            next candidate hNext =>
              obtain ⟨switched, hSwitch, hRound⟩ := bind_ok hRound
              obtain ⟨started, hStart, rfl⟩ := bind_pure_ok hRound
              have hStarted := callEmit_ok hStart
              rw [callSwitch_ok hSwitch] at hStarted
              have hIndex : state.candidateIndex < candidates.length := (List.getElem?_eq_some_iff.mp hNext).1
              have hLonger : trace.switches ++ [candidate] = candidates.take (state.candidateIndex + 1) := by
                rw [hSwitches, i.switches, List.take_add_one, hNext]
                rfl
              refine .inr ⟨_, rfl, ?_, rfl⟩
              constructor
              · exact Nat.not_lt.mp hCeiling
              · rw [hStarted]
                exact hAttempts.symm
              · exact Nat.zero_le _
              · refine ⟨(state.retriesOnProvider + 1) :: others, ?_, ?_, ?_⟩
                · rw [hStarted]
                  show 0 :: trace.onProvider = _
                  rw [hOn']
                · rw [← hOn']
                  exact hTried.onProvider
                · rw [hStarted]
                  show _ = (trace.switches ++ [candidate]).length
                  rw [List.length_append, List.length_cons, hLength, hSwitches]
                  rfl
              · rw [hStarted]
                show (0 :: trace.onProvider).sum = trace.attempts
                rw [List.sum_cons, Nat.zero_add]
                exact hTried.sum
              · exact hIndex
              · rw [hStarted]
                exact hLonger
              · rw [hStarted]
                show true = decide (trace.switches ++ [candidate] ≠ [])
                simp
              · rw [hStarted]
                exact hTried.restores
              · rw [hStarted]
                exact (hTried.started rfl).starts
              · rw [hStarted]
                show (trace.events ++ [_]).length = _
                rw [List.length_append, hEvents, i.retries]
                rfl
          next hLeft =>
            split at hRound
            next =>
              obtain ⟨⟨restoredModel, restored⟩, hRestore, hRound⟩ := bind_ok hRound
              obtain ⟨trace', hEmit, rfl⟩ := bind_pure_ok hRound
              refine .inl ⟨_, rfl, hKept trace' (by rw [callEmit_ok hEmit, restoreIf_ok hRestore]) ?_ message⟩
              exact hTried.ended_always hSwitched hRestore hEmit (numbered_failed hAttempts)
            next =>
              obtain ⟨started, hStart, hRound⟩ := bind_ok hRound
              have hStarted := callEmit_ok hStart
              have hTried' : Tried failover.maxRetries candidates started := by
                rw [hStarted]
                exact hTried.started rfl
              have hSwitched' : state.switched = decide (started.switches ≠ []) := by
                rw [hStarted]
                exact hSwitched
              split at hRound
              next =>
                obtain rfl := Except.ok.inj hRound
                refine .inr ⟨_, rfl, ?_, rfl⟩
                constructor
                · exact Nat.not_lt.mp hCeiling
                · rw [hStarted]
                  exact hAttempts.symm
                · exact Nat.not_lt.mp hLeft
                · refine ⟨others, ?_, hOthers, ?_⟩
                  · rw [hStarted]
                    exact hOn'
                  · rw [hStarted]
                    show _ = trace.switches.length
                    rw [hSwitches, hLength]
                · exact hTried'.sum
                · exact i.index
                · rw [hStarted]
                  show trace.switches = _
                  rw [hSwitches, i.switches]
                · exact hSwitched'
                · exact hTried'.restores
                · exact hTried'.starts
                · rw [hStarted]
                  show (trace.events ++ [_]).length = _
                  rw [List.length_append, hEvents, i.retries]
                  rfl
              next hWait =>
                obtain ⟨⟨restoredModel, restored⟩, hRestore, hRound⟩ := bind_ok hRound
                obtain ⟨trace', hEmit, rfl⟩ := bind_pure_ok hRound
                refine .inl ⟨_, rfl, hKept trace' (by rw [callEmit_ok hEmit, restoreIf_ok hRestore, hStarted]) ?_ _⟩
                exact hTried'.ended_always hSwitched' hRestore hEmit (numbered_cancelled hWait)

theorem failoverInv_opened (failover : ProviderFailoverPolicy) (candidates : List Agent.Model) :
    FailoverInv failover candidates ⟨0, 0, 0, false, .opened⟩ := by
  constructor
  · exact Nat.zero_le _
  · rfl
  · exact Nat.zero_le _
  · exact ⟨[], rfl, fun attempts hMem => (by cases hMem), rfl⟩
  · rfl
  · exact Nat.zero_le _
  · rfl
  · rfl
  · rfl
  · exact fun event hMem => (by cases hMem)
  · rfl

def TurnSettled (env : RetryEnv) (quickPolicy : ProviderRetryPolicy) (failover : ProviderFailoverPolicy)
    (candidates : List Agent.Model) (result : Agent.AssistantMessage × Trace) : Prop :=
  if ¬ failover.enabled ∨ candidates = [] then AutoSettled env quickPolicy result
  else FailoverSettled env failover candidates result

theorem runTurnWithProviderFailover_settled (env : RetryEnv) (quickPolicy : ProviderRetryPolicy)
    (failover : ProviderFailoverPolicy) (candidates : List Agent.Model) :
    ∃ outcome, runTurnWithProviderFailover env quickPolicy failover candidates = some outcome ∧
      ∀ result, outcome = .ok result → TurnSettled env quickPolicy failover candidates result := by
  unfold runTurnWithProviderFailover TurnSettled
  split
  next => exact runTurnWithAutoRetry_settled env quickPolicy
  next =>
    have hOpened := failoverInv_opened failover candidates
    obtain ⟨outcome, hOutcome⟩ := run_ends (fun state => maxTotalProviderRetries - state.totalRetries)
      (fun state state' i hRound => by
        obtain ⟨result, hNext, -⟩ | ⟨state'', hNext, i', hMore⟩ := failoverRound_ok i hRound
        · cases hNext
        · obtain rfl := Next.again.inj hNext
          have hTotal := i'.total
          exact ⟨i', by omega⟩)
      hOpened (Nat.lt_succ_of_le (Nat.sub_le _ _))
    refine ⟨outcome, hOutcome, ?_⟩
    rintro result rfl
    refine run_ok ?_ ?_ hOpened hOutcome
    · intro state state' i hRound
      obtain ⟨result', hNext, -⟩ | ⟨state'', hNext, i', -⟩ := failoverRound_ok i hRound
      · cases hNext
      · obtain rfl := Next.again.inj hNext
        exact i'
    · intro state result' i hRound
      obtain ⟨result'', hNext, hSettled⟩ | ⟨state', hNext, -⟩ := failoverRound_ok i hRound
      · obtain rfl := Next.done.inj hNext
        exact hSettled
      · cases hNext

theorem retries_settled (env : RetryEnv) (quickPolicy : ProviderRetryPolicy) (failover : ProviderFailoverPolicy)
    (candidates : List Agent.Model) :
    (∃ outcome, runTurnWithAutoRetry env quickPolicy = some outcome ∧
      ∀ result, outcome = .ok result → AutoSettled env quickPolicy result) ∧
    ∃ outcome, runTurnWithProviderFailover env quickPolicy failover candidates = some outcome ∧
      ∀ result, outcome = .ok result → TurnSettled env quickPolicy failover candidates result :=
  ⟨runTurnWithAutoRetry_settled env quickPolicy,
    runTurnWithProviderFailover_settled env quickPolicy failover candidates⟩

def failedTurn : Agent.AssistantMessage where
  content := []
  api := ""
  provider := "primary"
  model := "m"
  responseModel := none
  responseId := none
  diagnostics := none
  usage := Agent.Usage.zero
  stopReason := .error
  stopReasonRaw := none
  errorMessage := some "provider down"
  timestamp := 0

def downEnv : RetryEnv where
  attempt _ := .ok failedTurn
  aborted _ := false
  emit _ := .ok ()
  wait _ _ := true
  switch _ := .ok ()
  restore _ := .ok none
  park := none
  jitter _ delayMs := delayMs
  contextOverflow _ := false

theorem auto_retry_over_ceiling : ¬ ∀ env policy result, runTurnWithAutoRetry env policy = some (.ok result) →
    result.2.attempts ≤ 1 + maxTotalProviderRetries := by
  intro hCeiling
  have hRun : ((runTurnWithAutoRetry downEnv ⟨true, 9, 0, 0, 0⟩).bind fun outcome =>
      outcome.toOption.map fun result => result.2.attempts) = some 10 := by decide
  cases hOutcome : runTurnWithAutoRetry downEnv ⟨true, 9, 0, 0, 0⟩ with
  | none =>
    rw [hOutcome] at hRun
    cases hRun
  | some outcome =>
    cases outcome with
    | error error =>
      rw [hOutcome] at hRun
      cases hRun
    | ok result =>
      have hBound := hCeiling downEnv _ result hOutcome
      rw [hOutcome] at hRun
      have hTen : result.2.attempts = 10 := Option.some.inj hRun
      rw [hTen] at hBound
      exact absurd hBound (by decide)

end PrimeAgent.Retry
