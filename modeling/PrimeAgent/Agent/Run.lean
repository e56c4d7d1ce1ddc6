import PrimeAgent.Agent.Response
import PrimeAgent.Agent.Tools

/-! # The turn loop

`agent_loop/run.rs` and the entry points of `agent_loop/entry.rs`. The loop's variables are threaded as a value; both of
its loops run on fuel.
-/
namespace PrimeAgent.Agent

/-- The variables of `run_loop`. -/
structure LoopState where
  currentContext : AgentContext
  newMessages : List AgentMessage
  pendingMessages : List AgentMessage
  firstTurn : Bool
  lastTurn : Option ShouldStopAfterTurnContext

def LoopState.pushMessages (st : LoopState) (messages : List AgentMessage) : LoopState :=
  { st with
    currentContext := { st.currentContext with messages := st.currentContext.messages ++ messages }
    newMessages := st.newMessages ++ messages }

/-- The run ends with `AgentEnd` and all its messages. -/
def endAgent (newMessages : List AgentMessage) : Loop (List AgentMessage) := do
  emit (.agentEnd newMessages)
  pure newMessages

def shouldStopBeforeTurn (config : AgentLoopConfig) (st : LoopState) : Loop Bool :=
  if !st.firstTurn && config.shouldStopBeforeTurn then ask .shouldStopBeforeTurn else pure false

def emitMessages : List AgentMessage → Loop Unit
  | [] => pure ()
  | message :: rest => do
    emit (.messageStart message)
    emit (.messageEnd message)
    emitMessages rest

inductive Turn where
  | ended (newMessages : List AgentMessage)
  | next (st : LoopState) (hasMoreToolCalls : Bool)

def endTurn (newMessages : List AgentMessage) : Loop Turn := do
  let newMessages ← endAgent newMessages
  pure (.ended newMessages)

def beginTurn (st : LoopState) : Loop LoopState := do
  throwIfAborted .turn
  (if st.firstTurn then pure () else emit .turnStart)
  emitMessages st.pendingMessages
  pure { (st.pushMessages st.pendingMessages) with pendingMessages := [], firstTurn := false }

def runToolCalls (fuel : Nat) (config : AgentLoopConfig) (st : LoopState) (message : AssistantMessage) :
    Loop (List ToolResultMessage × Bool) :=
  if message.toolCalls.isEmpty then pure ([], false)
  else do
    let batch ← executeToolCalls fuel config st.currentContext message
    pure (batch.messages, !batch.terminate)

/-- What follows `TurnEnd`: the stop hooks and the poll for steering. -/
def settleTurn (config : AgentLoopConfig) (st : LoopState) (turn : ShouldStopAfterTurnContext)
    (hasMoreToolCalls : Bool) : Loop Turn := do
  let stop ← settlePostTurn (raceHook config.shouldStopAfterTurn (raceWithAbort (.shouldStopAfterTurn turn)) false)
  match stop with
  | .aborted | .completed true => endTurn st.newMessages
  | .completed false =>
    if ← shouldStopBeforeTurn config st then endTurn st.newMessages
    else
      match ← settlePostTurn (pollMessagesUnlessAborted .steering) with
      | .aborted => endTurn st.newMessages
      | .completed messages =>
        -- Steering drained by this poll owns the turn boundary; stop only when it was empty.
        let stop ← (if messages.isEmpty then shouldStopBeforeTurn config st else pure false)
        if stop then endTurn st.newMessages
        else pure (.next { st with pendingMessages := messages } hasMoreToolCalls)

def runTurn (fuel : Nat) (config : AgentLoopConfig) (st : LoopState) : Loop Turn := do
  let st ← beginTurn st
  let (context, message) ← streamAssistantResponse fuel config st.currentContext
  let st := { st with currentContext := context, newMessages := st.newMessages ++ [.assistant message] }
  if message.stopReason = .error ∨ message.stopReason = .aborted then
    emit (.turnEnd (.assistant message) [])
    endTurn st.newMessages
  else
    let (toolResults, hasMoreToolCalls) ← runToolCalls fuel config st message
    let st := st.pushMessages (toolResults.map .toolResult)
    emit (.turnEnd (.assistant message) toolResults)
    if ← isAborted then endTurn st.newMessages
    else
      let turn := { message, toolResults, context := st.currentContext, newMessages := st.newMessages }
      settleTurn config { st with lastTurn := some turn } turn hasMoreToolCalls

def runTurns (config : AgentLoopConfig) : (fuel : Nat) → LoopState → (hasMoreToolCalls : Bool) → Loop Turn
  | 0, _, _ => .spent
  | fuel + 1, st, hasMoreToolCalls =>
    if hasMoreToolCalls || !st.pendingMessages.isEmpty then do
      match ← runTurn fuel config st with
      | .ended newMessages => pure (.ended newMessages)
      | .next st hasMoreToolCalls => runTurns config fuel st hasMoreToolCalls
    else pure (.next st hasMoreToolCalls)

def pollContinuation (config : AgentLoopConfig) (st : LoopState) : Loop (PostTurnResult (List AgentMessage)) :=
  match st.lastTurn with
  | none => pure (.completed [])
  | some turn =>
    settlePostTurn (raceHook config.getContinuationMessages (raceWithAbort (.getContinuationMessages turn)) [])

def pollForMore (config : AgentLoopConfig) (st : LoopState) : Loop (List AgentMessage) := do
  if ← shouldStopBeforeTurn config st then pure []
  else
    match ← settlePostTurn (pollMessagesUnlessAborted .followUp) with
    | .aborted => pure []
    | .completed followUps =>
      if !followUps.isEmpty then pure followUps
      else if ← shouldStopBeforeTurn config st then pure []
      else
        match ← pollContinuation config st with
        | .aborted => pure []
        | .completed messages => pure messages

def runLoopFrom (config : AgentLoopConfig) : (fuel : Nat) → LoopState → Loop (List AgentMessage)
  | 0, _ => .spent
  | fuel + 1, st => do
    throwIfAborted .turn
    match ← runTurns config fuel st true with
    | .ended newMessages => pure newMessages
    | .next st _ =>
      let messages ← pollForMore config st
      if messages.isEmpty then endAgent st.newMessages
      else runLoopFrom config fuel { st with pendingMessages := messages }

def runLoop (fuel : Nat) (config : AgentLoopConfig) (context : AgentContext) (newMessages : List AgentMessage) :
    Loop (List AgentMessage) := do
  let pendingMessages ← pollMessagesUnlessAborted (.initialSteering config.skipInitialSteeringPoll)
  runLoopFrom config fuel
    { currentContext := context, newMessages, pendingMessages, firstTurn := true, lastTurn := none }

def runAgentLoop (fuel : Nat) (prompts : List AgentMessage) (context : AgentContext) (config : AgentLoopConfig) :
    Loop (List AgentMessage) := do
  emit .agentStart
  emit .turnStart
  emitMessages prompts
  runLoop fuel config { context with messages := context.messages ++ prompts } prompts

def runAgentLoopContinue (fuel : Nat) (context : AgentContext) (config : AgentLoopConfig) :
    Loop (List AgentMessage) :=
  match context.messages.getLast? with
  | none => .fail (.other "Cannot continue: no messages in context")
  | some last =>
    if last.role = "assistant" then .fail (.other "Cannot continue from message role: assistant")
    else do
      emit .agentStart
      emit .turnStart
      runLoop fuel config context []

end PrimeAgent.Agent

/-! ## The run lifecycle

The prompt and continue runs of `agent.rs`: registration, the loop's configuration, the failure handler, and the runs
that `continue_run` makes of queued messages.
-/
namespace PrimeAgent.Agent

/-- What an `AgentInner` is built with. -/
structure AgentInner where
  transformContext : Bool
  streamFn : Bool
  getApiKey : Bool
  beforeToolCall : Bool
  afterToolCall : Bool
  shouldStopAfterTurn : Bool
  shouldStopBeforeTurn : Bool
  toolExecution : ToolExecutionMode

inductive AgentPromptInput where
  | messages (messages : List AgentMessage)
  | text (text : String) (images : List ImageContent)

def loopConfig (inner : AgentInner) (snapshot : Snapshot) (skipInitialSteeringPoll : Bool)
    (modelOverride : Option Model) : AgentLoopConfig :=
  { model := modelOverride.getD snapshot.model
    apiKey := none
    transformContext := inner.transformContext
    getApiKey := inner.getApiKey
    shouldStopAfterTurn := inner.shouldStopAfterTurn
    shouldStopBeforeTurn := inner.shouldStopBeforeTurn
    getContinuationMessages := snapshot.continuation
    toolExecution := inner.toolExecution
    beforeToolCall := inner.beforeToolCall
    afterToolCall := inner.afterToolCall
    skipInitialSteeringPoll
    streamFn := inner.streamFn }

def assistantMessageDiagnostic (kind : String) (error : AgentError) (details : Option Json) :
    Loop AssistantMessageDiagnostic := do
  let timestamp ← ask .now
  pure { kind, timestamp, error := some (.string error.text), details }

def failureDiagnostics (error : AgentError) : Loop (Option (List AssistantMessageDiagnostic)) := do
  let details := .object [("source", .string "run_with_lifecycle")]
  let diagnostic ← assistantMessageDiagnostic "agent_lifecycle_failure" error (some details)
  pure (some [diagnostic])

def failureMessage (model : Model) (error : AgentError) (aborted : Bool)
    (diagnostics : Option (List AssistantMessageDiagnostic)) (timestamp : Int) : AssistantMessage :=
  { content := [.text { text := "", textSignature := none }]
    api := model.api
    provider := model.provider
    model := model.id
    responseModel := none
    responseId := none
    diagnostics
    usage := Usage.zero
    stopReason := if aborted then .aborted else .error
    stopReasonRaw := none
    errorMessage := some error.text
    timestamp }

def handleRunFailure (model : Model) (error : AgentError) (aborted : Bool) : Loop Unit := do
  let diagnostics ← (if aborted then pure none else failureDiagnostics error)
  let timestamp ← ask .now
  let message := failureMessage model error aborted diagnostics timestamp
  ask (.recordError error.text)
  emit (.messageStart (.assistant message))
  emit (.messageEnd (.assistant message))
  emit (.agentEnd [.assistant message])

def runWithLifecycle (executor : Option Model → Loop Unit) : Loop Unit := do
  let runOverride ← ask .modelOverride
  let stateModel ← ask .stateModel
  let runModel := runOverride.getD stateModel
  if ← ask (.register runModel) then
    ask .startRun
    match ← (executor runOverride).attempt with
    | .ok _ => ask .finishRun
    | .error error => do
      let aborted ← isAborted
      handleRunFailure runModel error aborted
      ask .finishRun
      .fail error
  else .fail (.other "Agent is already processing.")

def runPromptMessages (fuel : Nat) (inner : AgentInner) (messages : List AgentMessage)
    (skipInitialSteeringPoll : Bool) : Loop Unit :=
  runWithLifecycle fun modelOverride => do
    let snapshot ← ask (.snapshot false)
    let config := loopConfig inner snapshot skipInitialSteeringPoll modelOverride
    let _ ← runAgentLoop fuel messages snapshot.context config
    pure ()

def runContinuation (fuel : Nat) (inner : AgentInner) : Loop Unit :=
  runWithLifecycle fun modelOverride => do
    let snapshot ← ask (.snapshot true)
    let config := loopConfig inner snapshot false modelOverride
    let _ ← runAgentLoopContinue fuel snapshot.context config
    pure ()

def runQueuedMessages (fuel : Nat) (inner : AgentInner) : Loop Bool := do
  let queuedSteering ← ask .drainSteering
  if !queuedSteering.isEmpty then
    runPromptMessages fuel inner queuedSteering true
    pure true
  else
    let queuedFollowUps ← ask .drainFollowUp
    if !queuedFollowUps.isEmpty then
      runPromptMessages fuel inner queuedFollowUps false
      pure true
    else pure false

def normalizePromptInput : AgentPromptInput → Loop (List AgentMessage)
  | .messages messages => pure messages
  | .text text images => do
    let timestamp ← ask .now
    let content := .parts (.text { text, textSignature := none } :: images.map .image)
    pure [.standard (.user { content, timestamp })]

def prompt (fuel : Nat) (inner : AgentInner) (input : AgentPromptInput) : Loop Unit := do
  if ← ask .isProcessing then
    .fail (.other ("Agent is already processing a prompt. Use steer() or followUp() to queue messages, " ++
      "or wait for completion."))
  else
    let messages ← normalizePromptInput input
    runPromptMessages fuel inner messages false

def continueRun (fuel : Nat) (inner : AgentInner) : Loop Unit := do
  if ← ask .isProcessing then
    .fail (.continuation .busy "Agent is already processing. Wait for completion before continuing.")
  else
    match ← ask .lastMessage with
    | none =>
      if ← runQueuedMessages fuel inner then pure ()
      else .fail (.continuation .nothingToContinue "No messages to continue from")
    | some lastMessage =>
      if lastMessage.role = "assistant" then
        if ← runQueuedMessages fuel inner then pure ()
        else .fail (.continuation .nothingToContinue "Cannot continue from message role: assistant")
      else
        let queuedRun ← (if lastMessage.role = "custom" then runQueuedMessages fuel inner else pure false)
        if queuedRun then pure () else runContinuation fuel inner

inductive Request where
  | prompt (input : AgentPromptInput)
  | continueRun

def Request.run (fuel : Nat) (inner : AgentInner) : Request → Loop Unit
  | .prompt input => Agent.prompt fuel inner input
  | .continueRun => Agent.continueRun fuel inner

end PrimeAgent.Agent
