import PrimeAgent.Agent.Types
import PrimeAgent.Lib.Rounds
import Mathlib.Data.List.Infix

/-! # Provider retry policy

Which failures of a turn are retried, and after which wait.
-/
namespace PrimeAgent.Retry



structure ProviderRetryPolicy where
  enabled : Bool
  maxRetries : Nat
  baseDelayMs : Nat
  /-- Zero disables the cap on a wait that the server requests. -/
  maxRetryDelayMs : Nat
  maxDelayMs : Nat

structure ProviderFailoverPolicy where
  enabled : Bool
  maxRetries : Nat
  baseDelayMs : Nat
  maxDelayMs : Nat

def maxU64 : Nat := 2 ^ 64 - 1

def maxTimerDelayMs : Nat := 2147483647

def maxTotalProviderRetries : Nat := 8

inductive ProviderRetryDelay where
  | wait (delayMs : Nat)
  | exceedsCap (retryAfterMs : Nat)

/-- The delay before retry `attempt`, which counts from one. -/
def providerRetryDelay (attempt : Nat) (retryAfterMs : Option Nat) (policy : ProviderRetryPolicy) : ProviderRetryDelay :=
  match retryAfterMs.filter fun requested => 0 < policy.maxRetryDelayMs ∧ policy.maxRetryDelayMs < requested with
  | some requested => .exceedsCap requested
  | none =>
    let exponential := min (min (policy.baseDelayMs * min (2 ^ (attempt - 1)) maxU64) maxU64) policy.maxDelayMs
    .wait (min (max exponential (retryAfterMs.getD 0)) maxTimerDelayMs)

def perProviderPolicy (failover : ProviderFailoverPolicy) (serverWaitCapMs : Nat) : ProviderRetryPolicy where
  enabled := true
  maxRetries := failover.maxRetries
  baseDelayMs := failover.baseDelayMs
  maxRetryDelayMs := serverWaitCapMs
  maxDelayMs := failover.maxDelayMs

def failoverRetryDelay (attempt : Nat) (retryAfterMs : Option Nat) (failover : ProviderFailoverPolicy)
    (serverWaitCapMs : Nat) : ProviderRetryDelay :=
  providerRetryDelay attempt retryAfterMs (perProviderPolicy failover serverWaitCapMs)

/-! ## Failures -/

def isAgentLifecycleFailure (message : Agent.AssistantMessage) : Bool :=
  message.diagnostics.any fun diagnostics => diagnostics.any (·.kind == "agent_lifecycle_failure")

def isFauxProviderQueueExhausted (message : Agent.AssistantMessage) : Bool :=
  message.provider == "faux" && message.errorMessage == some "No more faux responses queued"

def providerStreamFailureDetails (message : Agent.AssistantMessage) : Option Json :=
  (message.diagnostics.bind fun diagnostics => diagnostics.find? (·.kind == "provider_stream_failure")).bind fun diagnostic =>
    diagnostic.details.filter (·.isObject)

def providerStreamFailureKind (message : Agent.AssistantMessage) : Option String :=
  (providerStreamFailureDetails message).bind fun details => (details.get "kind").bind Json.asStr

def providerStreamFailureRetryAfterMs (message : Agent.AssistantMessage) : Option Nat :=
  (providerStreamFailureDetails message).bind fun details => (details.get "retryAfterMs").bind Json.asU64

def providerStreamFailureStatus (message : Agent.AssistantMessage) : Option Nat :=
  ((providerStreamFailureDetails message).bind fun details => (details.get "status").bind Json.asU64).filter (· < 2 ^ 16)

def unsupportedToolFailureMarker : String := "no endpoints found that support tool use"

/-- `to_ascii_lowercase` and `contains`, on the characters. -/
def containsIgnoringCase (marker text : String) : Bool :=
  decide (marker.toList <:+: text.toList.map Char.toLower)

def isUnsupportedToolFailure (message : Agent.AssistantMessage) : Bool :=
  providerStreamFailureStatus message == some 404 &&
    message.errorMessage.any (containsIgnoringCase unsupportedToolFailureMarker)

def hasProviderStreamFailure (message : Agent.AssistantMessage) : Bool :=
  !isFauxProviderQueueExhausted message && (providerStreamFailureDetails message).isSome

def isPermanentProviderFailureKind (kind : Option String) (retriesPerformed : Nat) (status : Option Nat) : Bool :=
  match kind with
  | some kind =>
    if kind = "invalid_request" ∧ status = some 404 then false
    else if kind ∈ ["invalid_request", "refusal", "permission", "safety", "payment_required"] then true
    else kind == "auth" && decide (0 < retriesPerformed)
  | none => false

def isQuotaBlockFailure (message : Agent.AssistantMessage) : Bool :=
  providerStreamFailureKind message == some "rate_limit"

def finalErrorOf (message : Agent.AssistantMessage) : String :=
  (message.errorMessage.filter (· ≠ "")).getD "Unknown error"

def withStopReasonAborted (message : Agent.AssistantMessage) : Agent.AssistantMessage :=
  { message with stopReason := .aborted }

end PrimeAgent.Retry

/-! ## The retry loops

`run_turn_with_auto_retry` tries a turn again on its provider, and `run_turn_with_provider_failover` goes on to the next
candidate when a provider's retries are spent. A trace records the calls that a loop makes.
-/
namespace PrimeAgent.Retry

open Rounds

inductive RetryStartReason where
  | quick
  | backup (backupModel : String)
deriving DecidableEq

inductive AutoRetryEvent where
  | start (attempt maxAttempts delayMs : Nat) (errorMessage : String) (reason : RetryStartReason)
  | ended (success : Bool) (attempt : Nat) (finalError restoredModel : Option String)
deriving DecidableEq

/-- The callbacks and the signal: what each of their calls gives, counted by the attempts and the events so far. -/
structure RetryEnv where
  attempt : Nat → Except String Agent.AssistantMessage
  aborted : Nat → Bool
  emit : Nat → Except String Unit
  wait : Nat → Nat → Bool
  switch : Nat → Except String Unit
  restore : Nat → Except String (Option String)
  park : Option (Agent.AssistantMessage → String → Option String)
  /-- `jittered_delay_ms` with the sample of this call. -/
  jitter : Nat → Nat → Nat
  /-- `is_context_overflow_failure`, whose patterns are regular expressions. -/
  contextOverflow : Agent.AssistantMessage → Bool

structure Trace where
  attempts : Nat
  /-- The attempts on each provider, those on the current one first. -/
  onProvider : List Nat
  events : List AutoRetryEvent
  switches : List Agent.Model
  restores : Nat

def Trace.opened : Trace := ⟨0, [0], [], [], 0⟩

def oneMore : List Nat → List Nat
  | [] => []
  | attempts :: others => (attempts + 1) :: others

namespace RetryEnv

def callAttempt (env : RetryEnv) (trace : Trace) : Except String (Agent.AssistantMessage × Trace) := do
  let message ← env.attempt trace.attempts
  return (message, { trace with attempts := trace.attempts + 1, onProvider := oneMore trace.onProvider })

def callEmit (env : RetryEnv) (event : AutoRetryEvent) (trace : Trace) : Except String Trace := do
  env.emit trace.events.length
  return { trace with events := trace.events ++ [event] }

def callSwitch (env : RetryEnv) (next : Agent.Model) (trace : Trace) : Except String Trace := do
  env.switch trace.switches.length
  return { trace with switches := trace.switches ++ [next], onProvider := 0 :: trace.onProvider }

def callRestore (env : RetryEnv) (trace : Trace) : Except String (Option String × Trace) := do
  let restoredModel ← env.restore trace.restores
  return (restoredModel, { trace with restores := trace.restores + 1 })

def restoreIf (env : RetryEnv) (switched : Bool) (trace : Trace) : Except String (Option String × Trace) :=
  if switched then env.callRestore trace else pure (none, trace)

def emitIf (env : RetryEnv) (test : Bool) (event : AutoRetryEvent) (trace : Trace) : Except String Trace :=
  if test then env.callEmit event trace else pure trace

def nonRetryable (env : RetryEnv) (retriesPerformed : Nat) (message : Agent.AssistantMessage) : Bool :=
  isAgentLifecycleFailure message || isFauxProviderQueueExhausted message || env.contextOverflow message ||
    isUnsupportedToolFailure message ||
    isPermanentProviderFailureKind (providerStreamFailureKind message) retriesPerformed (providerStreamFailureStatus message)

def discloses (env : RetryEnv) (retriesPerformed : Nat) (message : Agent.AssistantMessage) : Bool :=
  decide (0 < retriesPerformed) || (hasProviderStreamFailure message && !env.contextOverflow message)

def waitError (env : RetryEnv) (capMs retryAfterMs : Nat) (message : Agent.AssistantMessage) : String :=
  let abort := "Provider requested a " ++ toString ((retryAfterMs + 999) / 1000) ++
    "s wait before retrying (above retry.provider.maxRetryDelayMs=" ++ toString capMs ++ "ms)"
  let parked := if isQuotaBlockFailure message then env.park.bind fun park => park message abort else none
  parked.getD (abort ++ ": " ++ message.errorMessage.getD "unknown error")

end RetryEnv

/-! ## On one provider -/

structure AutoRetryState where
  retriesPerformed : Nat
  trace : Trace

def autoRetryRound (env : RetryEnv) (policy : ProviderRetryPolicy) (state : AutoRetryState) :
    Except String (Next (Agent.AssistantMessage × Trace) AutoRetryState) := do
  let (message, trace) ← env.callAttempt state.trace
  if message.stopReason ≠ .error then
    let trace ← env.emitIf (decide (0 < state.retriesPerformed)) (.ended true state.retriesPerformed none none) trace
    return .done (message, trace)
  else if env.aborted trace.attempts then
    return .done (withStopReasonAborted message, trace)
  else if ¬ policy.enabled ∨ env.nonRetryable state.retriesPerformed message then
    let trace ← env.emitIf (env.discloses state.retriesPerformed message)
      (.ended false state.retriesPerformed (some (finalErrorOf message)) none) trace
    return .done (message, trace)
  else
    let retriesPerformed := state.retriesPerformed + 1
    match providerRetryDelay retriesPerformed (providerStreamFailureRetryAfterMs message) policy with
    | .exceedsCap retryAfterMs =>
      let trace ← env.callEmit (.ended false (retriesPerformed - 1)
        (some (env.waitError policy.maxRetryDelayMs retryAfterMs message)) none) trace
      return .done (message, trace)
    | .wait delayMs =>
      if policy.maxRetries < retriesPerformed then
        let trace ← env.callEmit (.ended false (retriesPerformed - 1) (some (finalErrorOf message)) none) trace
        return .done (message, trace)
      else
        let delayMs := env.jitter trace.attempts delayMs
        let trace ← env.callEmit (.start retriesPerformed policy.maxRetries delayMs (finalErrorOf message) .quick) trace
        if env.wait trace.attempts delayMs then
          return .again ⟨retriesPerformed, trace⟩
        else
          let trace ← env.callEmit (.ended false retriesPerformed (some "Retry cancelled") none) trace
          return .done (withStopReasonAborted message, trace)

def runTurnWithAutoRetry (env : RetryEnv) (policy : ProviderRetryPolicy) :
    Option (Except String (Agent.AssistantMessage × Trace)) :=
  run (autoRetryRound env policy) (policy.maxRetries + 1) ⟨0, .opened⟩

/-! ## Over the candidates -/

structure FailoverState where
  totalRetries : Nat
  retriesOnProvider : Nat
  candidateIndex : Nat
  switched : Bool
  trace : Trace

def failoverRound (env : RetryEnv) (quickPolicy : ProviderRetryPolicy) (failover : ProviderFailoverPolicy)
    (candidates : List Agent.Model) (state : FailoverState) :
    Except String (Next (Agent.AssistantMessage × Trace) FailoverState) := do
  let (message, trace) ← env.callAttempt state.trace
  if message.stopReason ≠ .error then
    let (restoredModel, trace) ← env.restoreIf state.switched trace
    let trace ← env.emitIf (state.switched || decide (0 < state.totalRetries))
      (.ended true state.totalRetries none restoredModel) trace
    return .done (message, trace)
  else if env.aborted trace.attempts then
    let (_, trace) ← env.restoreIf state.switched trace
    return .done (withStopReasonAborted message, trace)
  else if env.nonRetryable state.totalRetries message then
    let (_, trace) ← env.restoreIf state.switched trace
    let trace ← env.emitIf (env.discloses state.totalRetries message)
      (.ended false state.totalRetries (some (finalErrorOf message)) none) trace
    return .done (message, trace)
  else
    let totalRetries := state.totalRetries + 1
    let retriesOnProvider := state.retriesOnProvider + 1
    if maxTotalProviderRetries < totalRetries then
      let (_, trace) ← env.restoreIf state.switched trace
      let trace ← env.callEmit (.ended false (totalRetries - 1) (some (finalErrorOf message)) none) trace
      return .done (message, trace)
    else if failover.maxRetries < retriesOnProvider then
      match candidates[state.candidateIndex]? with
      | none =>
        let (_, trace) ← env.restoreIf state.switched trace
        let trace ← env.callEmit (.ended false totalRetries (some (finalErrorOf message)) none) trace
        return .done (message, trace)
      | some next =>
        let trace ← env.callSwitch next trace
        let trace ← env.callEmit (.start totalRetries failover.maxRetries 0 (finalErrorOf message)
          (.backup (next.provider ++ "/" ++ next.id))) trace
        return .again ⟨totalRetries, 0, state.candidateIndex + 1, true, trace⟩
    else
      match failoverRetryDelay retriesOnProvider (providerStreamFailureRetryAfterMs message) failover
          quickPolicy.maxRetryDelayMs with
      | .exceedsCap retryAfterMs =>
        let (_, trace) ← env.restoreIf state.switched trace
        let trace ← env.callEmit (.ended false (totalRetries - 1)
          (some (env.waitError quickPolicy.maxRetryDelayMs retryAfterMs message)) none) trace
        return .done (message, trace)
      | .wait delayMs =>
        let delayMs := env.jitter trace.attempts delayMs
        let trace ← env.callEmit (.start retriesOnProvider failover.maxRetries delayMs (finalErrorOf message) .quick) trace
        if env.wait trace.attempts delayMs then
          return .again ⟨totalRetries, retriesOnProvider, state.candidateIndex, state.switched, trace⟩
        else
          let (_, trace) ← env.restoreIf state.switched trace
          let trace ← env.callEmit (.ended false totalRetries (some "Retry cancelled") none) trace
          return .done (withStopReasonAborted message, trace)

def runTurnWithProviderFailover (env : RetryEnv) (quickPolicy : ProviderRetryPolicy) (failover : ProviderFailoverPolicy)
    (candidates : List Agent.Model) : Option (Except String (Agent.AssistantMessage × Trace)) :=
  if ¬ failover.enabled ∨ candidates = [] then runTurnWithAutoRetry env quickPolicy
  else run (failoverRound env quickPolicy failover candidates) (maxTotalProviderRetries + 1) ⟨0, 0, 0, false, .opened⟩

end PrimeAgent.Retry
