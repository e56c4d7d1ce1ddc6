import PrimeAgent.Session.Timestamp

/-! # The state of a goal

`GoalState` with its normal form, and the driver that holds it beside what it never persists.
-/
namespace PrimeAgent.Goal

inductive GoalStatus where
  | idle | active | paused | budgetLimited | complete | error
deriving DecidableEq, Repr

structure GoalState where
  active : Bool
  status : GoalStatus
  goalId : Option String
  objective : Option Text
  tokenBudget : Option Nat
  tokensUsed : Nat
  timeUsedSeconds : Nat
  continuationsUsed : Nat
  createdAt : Option Nat
  noProgressStreak : Option Nat
  noProgressTurnMs : Option Int
  updatedAt : Option Nat
  lastReason : Option String
  lastError : Option String
deriving DecidableEq

def emptyGoalState : GoalState where
  active := false
  status := .idle
  goalId := none
  objective := none
  tokenBudget := none
  tokensUsed := 0
  timeUsedSeconds := 0
  continuationsUsed := 0
  createdAt := none
  noProgressStreak := none
  noProgressTurnMs := none
  updatedAt := none
  lastReason := none
  lastError := none

def normalizeGoalState (goal : GoalState) : GoalState :=
  let createdAt := match goal.createdAt with
    | some createdAt => some createdAt
    | none => if goal.goalId.isSome || goal.objective.isSome then goal.updatedAt else none
  { goal with active := goal.status == .active, createdAt := createdAt }

def creationElapsedSeconds (createdAt : Option Nat) (now : Nat) : Nat :=
  createdAt.elim 0 fun created => (now - created) / 1000

def maxThreadGoalObjectiveChars : Nat := 4000

inductive GoalError where
  | invalid (message : String)
  | persist
deriving DecidableEq

def validateGoalObjective (value : Text) : Except GoalError Text :=
  let objective := trim value
  if objective = [] then .error (.invalid "Goal objective must not be empty.")
  else if maxThreadGoalObjectiveChars < objective.length then
    .error (.invalid "Goal objective must be at most 4000 characters.")
  else .ok objective

def validateGoalBudget (value : Option Nat) : Except GoalError (Option Nat) :=
  if value = some 0 then .error (.invalid "Goal token budget must be a positive integer.") else .ok value

/-- What a usage with these counts charges; a count is read as an `i64`, and a negative one as nothing. -/
def goalTokenDeltaForUsage (input output : Nat) : Nat :=
  (i64 input).toNat + (i64 output).toNat

structure GoalDriver where
  state : GoalState
  accountedMessages : List String
  owedContinuationForRlmWork : Bool
  pendingContinuation : Bool
  noProgressStreak : Nat
  noProgressBackoffUntilMs : Nat
  parkedRefusalUntilMs : Nat
  countedNoProgressTurnMs : Option Int
deriving DecidableEq

def GoalDriver.new : GoalDriver where
  state := emptyGoalState
  accountedMessages := []
  owedContinuationForRlmWork := false
  pendingContinuation := false
  noProgressStreak := 0
  noProgressBackoffUntilMs := 0
  parkedRefusalUntilMs := 0
  countedNoProgressTurnMs := none

structure Held where
  driver : GoalDriver
  rows : List GoalState

/-- How the write of a goal row ends: the append fails, or the flush behind it, which leaves the row in the session. -/
inductive Persist where
  | done | appendFailed | flushFailed
deriving DecidableEq

/-- The clock and the writes at the places of one operation that read the one and make the others. -/
structure OpEnv where
  now : Nat → Nat
  persist : Nat → Persist
  goalId : String

structure GoalContext where
  goalId : Option String
  objective : Text
  status : GoalStatus
  continuationsUsed : Nat
deriving DecidableEq

def createGoalContextMessage (goal : GoalState) : Option GoalContext :=
  goal.objective.map fun objective => ⟨goal.goalId, objective, goal.status, goal.continuationsUsed⟩

inductive TurnPart where
  | text (text : String)
  | thinking (thinking : String)
  | toolCall

structure SettledTurn where
  stopReason : StopReason
  errorMessage : Option String
  failureKind : Option String
  content : List TurnPart
  timestamp : Int

def turnProducedNoOutput (turn : SettledTurn) : Bool :=
  turn.content.all fun
    | .text text => text == ""
    | .thinking thinking => thinking == ""
    | .toolCall => false

def terminalProviderFailure (turn : SettledTurn) : Option String :=
  if turn.stopReason ≠ .error then none
  else if turn.failureKind = some "rate_limit" then none
  else some ((turn.errorMessage.filter (· ≠ "")).getD "Assistant response failed")

end PrimeAgent.Goal

/-! ## The goal driver

Each operation writes the next state to the session before it holds it.
-/
namespace PrimeAgent.Goal

inductive UsageOutcome where
  | accounted | budgetReached | ignored
deriving DecidableEq, Repr

inductive GoalBranchReload where
  | sameTimeline | faithfulBranch
deriving DecidableEq

def recorded (now : Nat) (next : GoalState) : GoalState :=
  let normalized := normalizeGoalState { next with updatedAt := some now }
  match normalized.createdAt with
  | some createdAt => { normalized with timeUsedSeconds := creationElapsedSeconds (some createdAt) now }
  | none => normalized

def stateWithCreationElapsed (now : Nat) (state : GoalState) : GoalState :=
  match state.createdAt with
  | some createdAt => { state with timeUsedSeconds := creationElapsedSeconds (some createdAt) now }
  | none => state

namespace Held

/-- `true` where the row is durable and the state is held. -/
def setState (now : Nat) (persist : Persist) (next : GoalState) (h : Held) : Bool × Held :=
  let row := recorded now next
  match persist with
  | .appendFailed => (false, h)
  | .flushFailed => (false, { h with rows := h.rows ++ [row] })
  | .done =>
    (true, { driver := { h.driver with
               state := row
               pendingContinuation := if row.status ≠ .active then false else h.driver.pendingContinuation }
             rows := h.rows ++ [row] })

def start (env : OpEnv) (objectiveText : Text) (tokenBudget : Option Nat) (h : Held) : Except GoalError GoalState × Held :=
  match validateGoalObjective objectiveText, validateGoalBudget tokenBudget with
  | .error error, _ => (.error error, h)
  | .ok _, .error error => (.error error, h)
  | .ok objective, .ok budget =>
    let goal : GoalState :=
      { active := true, status := .active, goalId := some env.goalId, objective := some objective, tokenBudget := budget
        tokensUsed := 0, timeUsedSeconds := 0, continuationsUsed := 0, createdAt := some (env.now 0)
        noProgressStreak := some 0, noProgressTurnMs := none, updatedAt := some (env.now 0)
        lastReason := none, lastError := none }
    let previous := h.driver
    let fresh : GoalDriver := { GoalDriver.new with state := previous.state }
    match setState (env.now 1) (env.persist 0) goal { h with driver := fresh } with
    | (false, h) =>
      (.error .persist, { h with driver := { previous with
        state := h.driver.state
        pendingContinuation := previous.pendingContinuation || h.driver.pendingContinuation } })
    | (true, h) => (.ok (stateWithCreationElapsed (env.now 2) h.driver.state), h)

def clear (env : OpEnv) (h : Held) : Except GoalError Unit × Held :=
  match setState (env.now 0) (env.persist 0) emptyGoalState h with
  | (false, h) => (.error .persist, h)
  | (true, h) =>
    (.ok (), { h with driver := { h.driver with owedContinuationForRlmWork := false, pendingContinuation := false } })

def budgetReason (budget : Option Nat) : String :=
  budget.elim "" fun budget => "Reached " ++ toString budget ++ " token goal budget"

def recordAssistantUsage (env : OpEnv) (messageId : String) (input output : Nat) (h : Held) :
    Except GoalError UsageOutcome × Held :=
  if h.driver.state.status ≠ .active then (.ok .ignored, h)
  else if messageId ∈ h.driver.accountedMessages then (.ok .ignored, h)
  else
    let next := { h.driver.state with
      tokensUsed := h.driver.state.tokensUsed + goalTokenDeltaForUsage input output }
    let reached := next.tokenBudget.any (· ≤ next.tokensUsed)
    let next := if reached then
        { next with active := false, status := .budgetLimited, lastReason := some (budgetReason next.tokenBudget),
                    lastError := none }
      else next
    match setState (env.now 0) (env.persist 0) next h with
    | (false, h) => (.error .persist, h)
    | (true, h) =>
      (.ok (if reached then .budgetReached else .accounted),
        { h with driver := { h.driver with accountedMessages := messageId :: h.driver.accountedMessages } })

def pause (env : OpEnv) (reason : String) (h : Held) : Except GoalError Unit × Held :=
  if h.driver.state.status ≠ .active then (.ok (), h)
  else
    match setState (env.now 0) (env.persist 0) { h.driver.state with
        active := false, status := .paused, lastReason := some reason, lastError := none } h with
    | (false, h) => (.error .persist, h)
    | (true, h) =>
      (.ok (), { h with driver := { h.driver with owedContinuationForRlmWork := false, pendingContinuation := false } })

def exhausted (state : GoalState) : Bool :=
  state.tokenBudget.any (· ≤ state.tokensUsed)

def resume (env : OpEnv) (h : Held) : Except GoalError (Option GoalContext) × Held :=
  if h.driver.state.objective = none then (.ok none, h)
  else if h.driver.state.status ≠ .paused ∧ h.driver.state.status ≠ .budgetLimited then (.ok none, h)
  else
    let exhausted := exhausted h.driver.state
    let nextStatus : GoalStatus := if exhausted then .budgetLimited else .active
    match setState (env.now 0) (env.persist 0) { h.driver.state with
        active := nextStatus == .active, status := nextStatus
        lastReason := if exhausted then some "Goal token budget already reached" else none, lastError := none } h with
    | (false, h) => (.error .persist, h)
    | (true, h) => (.ok (if nextStatus = .active then createGoalContextMessage h.driver.state else none), h)

def complete (env : OpEnv) (h : Held) : Except GoalError Unit × Held :=
  if h.driver.state.objective = none ∨ h.driver.state.status = .idle then (.ok (), h)
  else
    match setState (env.now 0) (env.persist 0) { h.driver.state with
        active := false, status := .complete, lastReason := some "Goal achieved", lastError := none } h with
    | (false, h) => (.error .persist, h)
    | (true, h) => (.ok (), h)

def finishForTerminalMessage (env : OpEnv) (stopReason : StopReason) (errorMessage : Option String) (h : Held) :
    Except GoalError Unit × Held :=
  if h.driver.state.status ≠ .active then (.ok (), h)
  else if stopReason ≠ .error then (.ok (), h)
  else
    let reason := (errorMessage.filter (· ≠ "")).getD "Assistant response failed"
    match setState (env.now 0) (env.persist 0) { h.driver.state with
        active := false, status := .error, lastReason := some reason, lastError := some reason } h with
    | (false, h) => (.error .persist, h)
    | (true, h) => (.ok (), h)

/-! ## The mint -/

def continuationNoProgressCap : Nat := 3

def backoffBaseMs : Nat := 10000

def capReason : String :=
  "Goal continuation cap reached: consecutive turns made no progress"

/-- `2u64.saturating_pow`. -/
def saturatingPow (exponent : Nat) : Nat :=
  min (2 ^ exponent) (2 ^ 64 - 1)

def capped (streak : Nat) (state : GoalState) : GoalState :=
  { state with
    active := false, status := .error, noProgressStreak := some streak, lastReason := some capReason
    lastError := some capReason }

def progressGate (env : OpEnv) (turn : SettledTurn) (h : Held) : Except GoalError Bool × Held :=
  let turnIsThisGoals := h.driver.state.createdAt.all fun createdAt => i64 createdAt < turn.timestamp
  let turnIsNew := h.driver.countedNoProgressTurnMs.all fun examined => examined < turn.timestamp
  match terminalProviderFailure turn with
  | some error =>
    if turnIsThisGoals then
      match finishForTerminalMessage env .error (some error) h with
      | (.error error, h) => (.error error, h)
      | (.ok _, h) => (.ok false, h)
    else (.ok true, h)
  | none =>
    if turnIsThisGoals && turnIsNew then
      if turn.failureKind = some "rate_limit" then
        (.ok false, { h with driver := { h.driver with
          countedNoProgressTurnMs := some turn.timestamp
          noProgressBackoffUntilMs := 0
          parkedRefusalUntilMs := env.now 0 + backoffBaseMs } })
      else if turnProducedNoOutput turn then
        let streak := h.driver.noProgressStreak + 1
        let counted := { h with driver := { h.driver with
          countedNoProgressTurnMs := some turn.timestamp
          noProgressStreak := streak
          noProgressBackoffUntilMs := env.now 0 + backoffBaseMs * saturatingPow (streak - 1) } }
        match setState (env.now 1) (env.persist 0) { h.driver.state with
            noProgressStreak := some streak, noProgressTurnMs := some turn.timestamp } counted with
        | (false, h) => (.error .persist, h)
        | (true, h) =>
          if continuationNoProgressCap ≤ streak then
            match setState (env.now 2) (env.persist 1) (capped streak h.driver.state) h with
            | (false, h) => (.error .persist, h)
            | (true, h) => (.ok false, h)
          else (.ok false, h)
      else if h.driver.noProgressStreak ≠ 0 then
        let reset := { h with driver := { h.driver with
          noProgressStreak := 0, noProgressBackoffUntilMs := 0, parkedRefusalUntilMs := 0
          countedNoProgressTurnMs := some turn.timestamp } }
        match setState (env.now 1) (env.persist 0) { h.driver.state with
            noProgressStreak := some 0, noProgressTurnMs := some turn.timestamp } reset with
        | (false, h) => (.error .persist, h)
        | (true, h) => (.ok true, h)
      else (.ok true, h)
    else (.ok true, h)

def mint (env : OpEnv) (h : Held) : Except GoalError (Option GoalContext) × Held :=
  if h.driver.state.status = .active ∧ continuationNoProgressCap ≤ h.driver.noProgressStreak then
    match setState (env.now 3) (env.persist 2) (capped h.driver.noProgressStreak h.driver.state) h with
    | (false, h) => (.error .persist, h)
    | (true, h) => (.ok none, h)
  else if env.now 4 < h.driver.noProgressBackoffUntilMs ∨ env.now 4 < h.driver.parkedRefusalUntilMs then (.ok none, h)
  else if h.driver.pendingContinuation then (.ok none, h)
  else
    match setState (env.now 5) (env.persist 3) { h.driver.state with
        continuationsUsed := h.driver.state.continuationsUsed + 1, lastReason := none, lastError := none } h with
    | (false, h) => (.error .persist, h)
    | (true, h) =>
      let message := createGoalContextMessage h.driver.state
      (.ok message, { h with driver := { h.driver with
        pendingContinuation := message.isSome || h.driver.pendingContinuation } })

def nextContinuationMessage (env : OpEnv) (lastTurn : Option SettledTurn) (h : Held) :
    Except GoalError (Option GoalContext) × Held :=
  if h.driver.state.status ≠ .active ∨ h.driver.state.objective = none then (.ok none, h)
  else
    match lastTurn with
    | none => mint env h
    | some turn =>
      match progressGate env turn h with
      | (.error error, h) => (.error error, h)
      | (.ok false, h) => (.ok none, h)
      | (.ok true, h) => mint env h

def markContinuationOwed (h : Held) : Held :=
  if h.driver.pendingContinuation then h
  else { h with driver := { h.driver with owedContinuationForRlmWork := true } }

def owe (owed : Bool) (h : Held) : Held :=
  { h with driver := { h.driver with owedContinuationForRlmWork := owed } }

def takeOwedContinuation (env : OpEnv) (lastTurn : Option SettledTurn) (h : Held) :
    Except GoalError (Option GoalContext) × Held :=
  if h.driver.owedContinuationForRlmWork = false then (.ok none, h)
  else if h.driver.pendingContinuation then (.ok none, h)
  else
    match nextContinuationMessage env lastTurn (h.owe false) with
    | (.ok none, h) => (.ok none, if h.driver.state.status = .active then h.owe true else h)
    | (.ok (some message), h) => (.ok (some message), h)
    | (.error error, h) => (.error error, h.owe true)

def continuationConsumed (h : Held) : Held :=
  { h with driver := { h.driver with pendingContinuation := false } }

def rollbackContinuationMint (env : OpEnv) (h : Held) : Except GoalError Unit × Held :=
  if h.driver.state.continuationsUsed = 0 then (.ok (), h.continuationConsumed)
  else
    match setState (env.now 0) (env.persist 0) { h.driver.state with
        continuationsUsed := h.driver.state.continuationsUsed - 1 } h with
    | (false, h) => (.error .persist, h.continuationConsumed)
    | (true, h) => (.ok (), h.continuationConsumed)

/-! ## The reload -/

def latestPersistedState (cut : Option Nat) (h : Held) : GoalState :=
  ((cut.bind fun i => h.rows[i]?).map normalizeGoalState).getD emptyGoalState

def guardAdopted (staleFailure : Option String) (reloaded : GoalState) : GoalState :=
  if reloaded.status = .active then
    match staleFailure with
    | some error => { reloaded with active := false, status := .error, lastReason := some error, lastError := some error }
    | none => reloaded
  else reloaded

def sameGoal (reloaded previous : GoalState) : Bool :=
  reloaded.goalId.isSome && reloaded.goalId == previous.goalId

def reloadFromBranch (rule : GoalBranchReload) (cut : Option Nat) (staleFailure : Option String) (h : Held) : Held :=
  let previous := h.driver.state
  let reloaded := h.latestPersistedState cut
  if rule = .sameTimeline ∧ sameGoal reloaded previous then
    { h with driver := { h.driver with state := { previous with
        tokensUsed := max previous.tokensUsed reloaded.tokensUsed
        continuationsUsed := max previous.continuationsUsed reloaded.continuationsUsed
        timeUsedSeconds := max previous.timeUsedSeconds reloaded.timeUsedSeconds } } }
  else
    { h with driver := { h.driver with
        pendingContinuation := false
        owedContinuationForRlmWork := false
        noProgressStreak := reloaded.noProgressStreak.getD 0
        noProgressBackoffUntilMs := 0
        parkedRefusalUntilMs := 0
        countedNoProgressTurnMs := reloaded.noProgressTurnMs
        state := guardAdopted staleFailure reloaded } }

end Held

end PrimeAgent.Goal
