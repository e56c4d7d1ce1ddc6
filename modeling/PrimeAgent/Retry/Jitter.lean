import PrimeAgent.Retry.Chain
import Mathlib.Data.Rat.Floor

/-! # The waits of the retry loops

`provider_retry_delay` bounds a wait by the backoff, the server's request and the ceiling of timers; `jittered_delay_ms`
then spreads it by a fifth to either side. The factor is taken as the exact number.
-/
namespace PrimeAgent.Retry

open Rounds

def retryJitterFraction : ℚ := 1 / 5

def jitteredDelayMs (delayMs : Nat) (rand01 : ℚ) : Nat :=
  let rand01 := max 0 (min rand01 1)
  let factor := 1 + retryJitterFraction * (2 * rand01 - 1)
  min ⌊delayMs * factor + 1 / 2⌋.toNat maxU64

def RetryEnv.sampled (env : RetryEnv) (rand01 : Nat → ℚ) : RetryEnv :=
  { env with jitter := fun call delayMs => jitteredDelayMs delayMs (rand01 call) }

variable {env : RetryEnv} {rand01 : Nat → ℚ} {policy quickPolicy : ProviderRetryPolicy} {failover : ProviderFailoverPolicy}
  {candidates : List Agent.Model} {trace trace' : Trace} {event : AutoRetryEvent} {retryAfterMs : Option Nat}
  {attempt attempt' delayMs delayMs' : Nat} {result : Agent.AssistantMessage × Trace}

/-! ## Before the jitter -/

theorem providerRetryDelay_wait (hDelay : providerRetryDelay attempt retryAfterMs policy = .wait delayMs) :
    delayMs = min (max (min (min (policy.baseDelayMs * min (2 ^ (attempt - 1)) maxU64) maxU64) policy.maxDelayMs)
      (retryAfterMs.getD 0)) maxTimerDelayMs := by
  unfold providerRetryDelay at hDelay
  split at hDelay
  next => cases hDelay
  next => exact (ProviderRetryDelay.wait.inj hDelay).symm

/-- What holds of a wait before it is jittered; where no product leaves `u64` the saturation changes nothing. -/
structure Computed (policy : ProviderRetryPolicy) (attempt : Nat) (retryAfterMs : Option Nat) (delayMs : Nat) : Prop where
  server : min (retryAfterMs.getD 0) maxTimerDelayMs ≤ delayMs
  ceiling : delayMs ≤ maxTimerDelayMs
  most : delayMs ≤ max policy.maxDelayMs (retryAfterMs.getD 0)
  mono : ∀ attempt' delayMs', attempt ≤ attempt' →
    providerRetryDelay attempt' retryAfterMs policy = .wait delayMs' → delayMs ≤ delayMs'
  fits : min (2 ^ (attempt - 1)) maxU64 ≤ maxU64 ∧
    min (policy.baseDelayMs * min (2 ^ (attempt - 1)) maxU64) maxU64 ≤ maxU64

theorem backoff_mono (hAttempt : attempt ≤ attempt') (base : Nat) :
    base * min (2 ^ (attempt - 1)) maxU64 ≤ base * min (2 ^ (attempt' - 1)) maxU64 := by
  have hPow : 2 ^ (attempt - 1) ≤ 2 ^ (attempt' - 1) := Nat.pow_le_pow_right (by decide) (Nat.sub_le_sub_right hAttempt 1)
  exact Nat.mul_le_mul_left base (min_le_min_right maxU64 hPow)

theorem computed_of_wait (hDelay : providerRetryDelay attempt retryAfterMs policy = .wait delayMs) :
    Computed policy attempt retryAfterMs delayMs := by
  have hEq := providerRetryDelay_wait hDelay
  constructor
  · rw [hEq]
    exact min_le_min_right _ (le_max_right _ _)
  · rw [hEq]
    exact min_le_right _ _
  · rw [hEq]
    exact (min_le_left _ _).trans (max_le_max_right _ (min_le_right _ _))
  · intro attempt' delayMs' hAttempt hDelay'
    rw [hEq, providerRetryDelay_wait hDelay']
    have hBackoff := backoff_mono hAttempt policy.baseDelayMs
    exact min_le_min_right _ (max_le_max_right _ (min_le_min_right _ (min_le_min_right _ hBackoff)))
  · exact ⟨min_le_right _ _, min_le_right _ _⟩

/-! ## The jitter -/

/-- The jitter stays within a fifth of the wait, up to the rounding, and never saturates. -/
structure Jittered (delayMs jittered : Nat) : Prop where
  least : 4 / 5 * (delayMs : ℚ) ≤ jittered + 1 / 2
  most : (jittered : ℚ) ≤ 6 / 5 * delayMs + 1 / 2
  fits : jittered < maxU64

theorem jittered_of_computed (hCeiling : delayMs ≤ maxTimerDelayMs) (sample : ℚ) :
    Jittered delayMs (jitteredDelayMs delayMs sample) := by
  have hCast : (delayMs : ℚ) ≤ 2147483647 := by exact_mod_cast hCeiling
  have hNonneg : (0 : ℚ) ≤ delayMs := Nat.cast_nonneg delayMs
  have hLow : (0 : ℚ) ≤ max 0 (min sample 1) := le_max_left _ _
  have hHigh : max 0 (min sample 1) ≤ (1 : ℚ) := max_le zero_le_one (min_le_right _ _)
  generalize hClamped : max 0 (min sample 1) = clamped at hLow hHigh
  have hEq : jitteredDelayMs delayMs sample =
      min ⌊delayMs * (1 + retryJitterFraction * (2 * clamped - 1)) + 1 / 2⌋.toNat maxU64 := by
    rw [jitteredDelayMs, hClamped]
  have hFactor : 4 / 5 ≤ 1 + retryJitterFraction * (2 * clamped - 1) ∧
      1 + retryJitterFraction * (2 * clamped - 1) ≤ 6 / 5 := by
    unfold retryJitterFraction
    constructor <;> linarith
  generalize 1 + retryJitterFraction * (2 * clamped - 1) = factor at hEq hFactor
  have hLeast : 4 / 5 * (delayMs : ℚ) ≤ delayMs * factor := by
    rw [mul_comm]
    exact mul_le_mul_of_nonneg_left hFactor.1 hNonneg
  have hMost : delayMs * factor ≤ 6 / 5 * (delayMs : ℚ) := by
    rw [mul_comm (6 / 5 : ℚ)]
    exact mul_le_mul_of_nonneg_left hFactor.2 hNonneg
  generalize (delayMs : ℚ) * factor = product at hEq hLeast hMost
  have hFloorPos : 0 ≤ ⌊product + 1 / 2⌋ := Int.floor_nonneg.mpr (by linarith)
  obtain ⟨rounded, hRounded⟩ := Int.eq_ofNat_of_zero_le hFloorPos
  have hBelow : (rounded : ℚ) ≤ product + 1 / 2 := by
    have hFloor := Int.floor_le (product + 1 / 2)
    rw [hRounded] at hFloor
    exact_mod_cast hFloor
  have hAbove : product + 1 / 2 < rounded + 1 := by
    have hFloor := Int.lt_floor_add_one (product + 1 / 2)
    rw [hRounded] at hFloor
    exact_mod_cast hFloor
  have hSmall : rounded < maxU64 := by
    have hLt : (rounded : ℚ) < 18446744073709551615 := by linarith
    exact_mod_cast hLt
  rw [hRounded, Int.toNat_natCast, min_eq_left hSmall.le] at hEq
  rw [hEq]
  exact ⟨by linarith, by linarith, hSmall⟩

/-! ## The loops -/

def Waited (env : RetryEnv) (rand01 : Nat → ℚ) (policy : ProviderRetryPolicy) : AutoRetryEvent → Prop
  | .start attempt _ delayMs _ .quick => ∃ call message computed, env.attempt call = .ok message ∧
      providerRetryDelay attempt (providerStreamFailureRetryAfterMs message) policy = .wait computed ∧
      delayMs = jitteredDelayMs computed (rand01 (call + 1))
  | .start _ _ delayMs _ (.backup _) => delayMs = 0
  | .ended .. => True

def AllWaited (env : RetryEnv) (rand01 : Nat → ℚ) (policy : ProviderRetryPolicy) (trace : Trace) : Prop :=
  ∀ event ∈ trace.events, Waited env rand01 policy event

section

variable (hWaited : AllWaited env rand01 policy trace)

include hWaited

theorem AllWaited.emit (hEmit : (env.sampled rand01).callEmit event trace = .ok trace')
    (hEvent : Waited env rand01 policy event) :
    AllWaited env rand01 policy trace' := by
  intro event' hMem
  rw [callEmit_ok hEmit] at hMem
  rcases List.mem_append.mp hMem with hOld | hNew
  · exact hWaited event' hOld
  · obtain rfl := List.mem_singleton.mp hNew
    exact hEvent

theorem AllWaited.emitIf {test : Bool} (hEmit : (env.sampled rand01).emitIf test event trace = .ok trace')
    (hEvent : Waited env rand01 policy event) :
    AllWaited env rand01 policy trace' := by
  cases test with
  | false =>
    obtain rfl := Except.ok.inj hEmit
    exact hWaited
  | true => exact hWaited.emit hEmit hEvent

theorem AllWaited.restore {switched : Bool} {restoredModel : Option String}
    (hRestore : (env.sampled rand01).restoreIf switched trace = .ok (restoredModel, trace')) :
    AllWaited env rand01 policy trace' := by
  rw [restoreIf_ok hRestore]
  exact hWaited

end

def Leaves {σ : Type} (traceOf : σ → Trace) (good : Trace → Prop) : Next (Agent.AssistantMessage × Trace) σ → Prop
  | .done result => good result.2
  | .again state => good (traceOf state)

theorem autoRetryRound_waited {state : AutoRetryState} (hWaited : AllWaited env rand01 policy state.trace)
    {next : Next (Agent.AssistantMessage × Trace) AutoRetryState}
    (hRound : autoRetryRound (env.sampled rand01) policy state = .ok next) :
    Leaves AutoRetryState.trace (AllWaited env rand01 policy) next := by
  unfold autoRetryRound at hRound
  obtain ⟨⟨message, trace⟩, hAttempt, hRound⟩ := bind_ok hRound
  obtain ⟨hMessage, hTrace⟩ := callAttempt_ok hAttempt
  have hTried : AllWaited env rand01 policy trace := by
    rw [hTrace]
    exact hWaited
  simp only at hRound
  split at hRound
  next =>
    obtain ⟨trace', hEmit, rfl⟩ := bind_pure_ok hRound
    exact hTried.emitIf hEmit trivial
  next =>
    split at hRound
    next =>
      obtain rfl := Except.ok.inj hRound
      exact hTried
    next =>
      split at hRound
      next =>
        obtain ⟨trace', hEmit, rfl⟩ := bind_pure_ok hRound
        exact hTried.emitIf hEmit trivial
      next =>
        split at hRound
        next =>
          obtain ⟨trace', hEmit, rfl⟩ := bind_pure_ok hRound
          exact hTried.emit hEmit trivial
        next computed hDelay =>
          split at hRound
          next =>
            obtain ⟨trace', hEmit, rfl⟩ := bind_pure_ok hRound
            exact hTried.emit hEmit trivial
          next =>
            obtain ⟨started, hStart, hRound⟩ := bind_ok hRound
            have hCall : trace.attempts = state.trace.attempts + 1 := by rw [hTrace]
            have hStarted : AllWaited env rand01 policy started :=
              hTried.emit hStart ⟨_, message, computed, hMessage, hDelay, by rw [hCall]; rfl⟩
            split at hRound
            next =>
              obtain rfl := Except.ok.inj hRound
              exact hStarted
            next =>
              obtain ⟨trace', hEmit, rfl⟩ := bind_pure_ok hRound
              exact hStarted.emit hEmit trivial

theorem failoverRound_waited {state : FailoverState}
    (hWaited : AllWaited env rand01 (perProviderPolicy failover quickPolicy.maxRetryDelayMs) state.trace)
    {next : Next (Agent.AssistantMessage × Trace) FailoverState}
    (hRound : failoverRound (env.sampled rand01) quickPolicy failover candidates state = .ok next) :
    Leaves FailoverState.trace (AllWaited env rand01 (perProviderPolicy failover quickPolicy.maxRetryDelayMs)) next := by
  unfold failoverRound at hRound
  obtain ⟨⟨message, trace⟩, hAttempt, hRound⟩ := bind_ok hRound
  obtain ⟨hMessage, hTrace⟩ := callAttempt_ok hAttempt
  have hTried : AllWaited env rand01 (perProviderPolicy failover quickPolicy.maxRetryDelayMs) trace := by
    rw [hTrace]
    exact hWaited
  simp only at hRound
  split at hRound
  next =>
    obtain ⟨⟨_, restored⟩, hRestore, hRound⟩ := bind_ok hRound
    obtain ⟨trace', hEmit, rfl⟩ := bind_pure_ok hRound
    exact (hTried.restore hRestore).emitIf hEmit trivial
  next =>
    split at hRound
    next =>
      obtain ⟨⟨_, restored⟩, hRestore, hPure⟩ := bind_ok hRound
      obtain rfl := Except.ok.inj hPure
      exact hTried.restore hRestore
    next =>
      split at hRound
      next =>
        obtain ⟨⟨_, restored⟩, hRestore, hRound⟩ := bind_ok hRound
        obtain ⟨trace', hEmit, rfl⟩ := bind_pure_ok hRound
        exact (hTried.restore hRestore).emitIf hEmit trivial
      next =>
        split at hRound
        next =>
          obtain ⟨⟨_, restored⟩, hRestore, hRound⟩ := bind_ok hRound
          obtain ⟨trace', hEmit, rfl⟩ := bind_pure_ok hRound
          exact (hTried.restore hRestore).emit hEmit trivial
        next =>
          split at hRound
          next =>
            split at hRound
            next =>
              obtain ⟨⟨_, restored⟩, hRestore, hRound⟩ := bind_ok hRound
              obtain ⟨trace', hEmit, rfl⟩ := bind_pure_ok hRound
              exact (hTried.restore hRestore).emit hEmit trivial
            next =>
              obtain ⟨switched, hSwitch, hRound⟩ := bind_ok hRound
              obtain ⟨trace', hEmit, rfl⟩ := bind_pure_ok hRound
              have hSwitched : AllWaited env rand01 (perProviderPolicy failover quickPolicy.maxRetryDelayMs) switched := by
                rw [callSwitch_ok hSwitch]
                exact hTried
              exact hSwitched.emit hEmit rfl
          next =>
            split at hRound
            next =>
              obtain ⟨⟨_, restored⟩, hRestore, hRound⟩ := bind_ok hRound
              obtain ⟨trace', hEmit, rfl⟩ := bind_pure_ok hRound
              exact (hTried.restore hRestore).emit hEmit trivial
            next computed hDelay =>
              obtain ⟨started, hStart, hRound⟩ := bind_ok hRound
              have hCall : trace.attempts = state.trace.attempts + 1 := by rw [hTrace]
              have hStarted : AllWaited env rand01 (perProviderPolicy failover quickPolicy.maxRetryDelayMs) started :=
                hTried.emit hStart ⟨_, message, computed, hMessage, hDelay, by rw [hCall]; rfl⟩
              split at hRound
              next =>
                obtain rfl := Except.ok.inj hRound
                exact hStarted
              next =>
                obtain ⟨⟨_, restored⟩, hRestore, hRound⟩ := bind_ok hRound
                obtain ⟨trace', hEmit, rfl⟩ := bind_pure_ok hRound
                exact (hStarted.restore hRestore).emit hEmit trivial

theorem run_waited {σ : Type} {round : σ → Except String (Next (Agent.AssistantMessage × Trace) σ)}
    {traceOf : σ → Trace} {good : Trace → Prop}
    (hRound : ∀ state next, good (traceOf state) → round state = .ok next → Leaves traceOf good next) {rounds : Nat}
    {state : σ} (hState : good (traceOf state)) (hRun : run round rounds state = some (.ok result)) : good result.2 :=
  @run_ok _ _ _ round (fun state => good (traceOf state)) (fun result => good result.2)
    (fun state _ hGood hNext => hRound state _ hGood hNext) (fun state _ hGood hNext => hRound state _ hGood hNext)
    _ _ hState _ hRun

theorem allWaited_opened : AllWaited env rand01 policy .opened :=
  fun _ hMem => nomatch hMem

theorem runTurnWithAutoRetry_waited (hRun : runTurnWithAutoRetry (env.sampled rand01) policy = some (.ok result)) :
    AllWaited env rand01 policy result.2 :=
  run_waited (fun _ _ hWaited hRound => autoRetryRound_waited hWaited hRound) allWaited_opened hRun

def schedule (quickPolicy : ProviderRetryPolicy) (failover : ProviderFailoverPolicy) (candidates : List Agent.Model) :
    ProviderRetryPolicy :=
  if ¬ failover.enabled ∨ candidates = [] then quickPolicy
  else perProviderPolicy failover quickPolicy.maxRetryDelayMs

theorem runTurnWithProviderFailover_waited
    (hRun : runTurnWithProviderFailover (env.sampled rand01) quickPolicy failover candidates = some (.ok result)) :
    AllWaited env rand01 (schedule quickPolicy failover candidates) result.2 := by
  unfold runTurnWithProviderFailover at hRun
  unfold schedule
  split at hRun
  next hQuick =>
    rw [if_pos hQuick]
    exact runTurnWithAutoRetry_waited hRun
  next hChain =>
    rw [if_neg hChain]
    exact run_waited (fun _ _ hWaited hRound => failoverRound_waited hWaited hRound) allWaited_opened hRun

def limitedTurn : Agent.AssistantMessage :=
  { failedTurn with
    diagnostics := some
      [⟨"provider_stream_failure", 0, none, some (.object [("retryAfterMs", .number (.posInt 1000))])⟩] }

def limitedEnv : RetryEnv :=
  { downEnv with attempt := fun _ => .ok limitedTurn }

end PrimeAgent.Retry
