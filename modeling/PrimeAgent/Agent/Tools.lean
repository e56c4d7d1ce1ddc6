import PrimeAgent.Agent.State

/-! # Tool calls

`agent_loop/tools.rs` and `agent_loop/tool_call.rs`. The tasks of a parallel batch are programs of their own: between
two steps of the loop the scheduler lets them take any turns.
-/
namespace PrimeAgent.Agent

inductive Preparation where
  | prepared (prepared : PreparedToolCall)
  | immediate (result : AgentToolResult) (isError : Bool)

structure FinalizedToolCallOutcome where
  toolCall : ToolCall
  result : AgentToolResult
  isError : Bool

structure ExecutedToolCallOutcome where
  result : AgentToolResult
  isError : Bool

structure ExecutedToolCallBatch where
  messages : List ToolResultMessage
  terminate : Bool

/-! ## One call -/

def prepareToolCallInner (config : AgentLoopConfig) (context : AgentContext) (assistantMessage : AssistantMessage)
    (toolCall : ToolCall) (tool : AgentTool) : Loop Preparation := do
  let arguments := (tool.prepareArguments toolCall.arguments).getD toolCall.arguments
  let args ← .ofExcept ((tool.validateToolArguments arguments).mapError .other)
  if config.beforeToolCall then
    match ← raceWithAbort (.beforeToolCall { assistantMessage, toolCall, args, context }) with
    | some ⟨true, reason⟩ => pure (.immediate (.error (reason.getD "Tool execution was blocked")) true)
    | _ => pure (.prepared { toolCall, tool, args })
  else pure (.prepared { toolCall, tool, args })

def prepareToolCall (config : AgentLoopConfig) (context : AgentContext) (assistantMessage : AssistantMessage)
    (toolCall : ToolCall) : Loop Preparation :=
  match context.tools.find? fun tool => tool.name == toolCall.name with
  | none => pure (.immediate (.error s!"Tool {toolCall.name} not found") true)
  | some tool => do
    match ← (prepareToolCallInner config context assistantMessage toolCall tool).attempt with
    | .ok preparation => pure preparation
    | .error error => pure (.immediate (.error error.text) true)

def errorToolResult (error : AgentError) : Loop AgentToolResult := do
  if ← isAborted then pure (.error "Tool execution aborted") else pure (.error error.text)

def emitToolExecutionUpdate (prepared : PreparedToolCall) (partialResult : AgentToolResult) : Loop Unit :=
  emit (.toolExecutionUpdate prepared.toolCall.id prepared.tool.name prepared.toolCall.arguments partialResult)

def awaitTool (prepared : PreparedToolCall) : (fuel : Nat) → Loop (Except AgentError AgentToolResult)
  | 0 => .spent
  | fuel + 1 => do
    match ← ask (.executeTool prepared) with
    | .update partialResult => do
      emitToolExecutionUpdate prepared partialResult
      awaitTool prepared fuel
    | .returned result => pure result

def awaitEmitter (prepared : PreparedToolCall) : (fuel : Nat) → Loop (Except AgentError Unit)
  | 0 => .spent
  | fuel + 1 => do
    match ← ask (.awaitUpdates prepared) with
    | .update partialResult => do
      emitToolExecutionUpdate prepared partialResult
      awaitEmitter prepared fuel
    | .settled => pure (.ok ())
    | .aborted => pure (.error .aborted)

def executePreparedToolCall (fuel : Nat) (prepared : PreparedToolCall) : Loop ExecutedToolCallOutcome := do
  match ← awaitTool prepared fuel with
  | .ok result =>
    match ← awaitEmitter prepared fuel with
    | .ok _ => pure { result, isError := false }
    | .error error =>
      if (← isAborted) && error.isAbortError then pure { result, isError := false }
      else
        let result ← errorToolResult error
        pure { result, isError := true }
  | .error error =>
    let _ ← awaitEmitter prepared fuel
    let result ← errorToolResult error
    pure { result, isError := true }

/-- The overrides of `after_tool_call`, field by field. -/
def ExecutedToolCallOutcome.override (executed : ExecutedToolCallOutcome) (overrides : AfterToolCallResult) :
    ExecutedToolCallOutcome :=
  { result :=
      { content := overrides.content.getD executed.result.content
        details := overrides.details.getD executed.result.details
        terminate := overrides.terminate.or executed.result.terminate }
    isError := overrides.isError.getD executed.isError }

def finalizeExecutedToolCall (config : AgentLoopConfig) (context : AgentContext)
    (assistantMessage : AssistantMessage) (prepared : PreparedToolCall) (executed : ExecutedToolCallOutcome) :
    Loop FinalizedToolCallOutcome := do
  let toolCall := prepared.toolCall
  if config.afterToolCall then
    let hook : AfterToolCallContext :=
      { assistantMessage, toolCall, args := prepared.args, result := executed.result,
        isError := executed.isError, context }
    match ← ask (.race (.afterToolCall hook)) with
    | .ok (some overrides) =>
      let ⟨result, isError⟩ := executed.override overrides
      pure { toolCall, result, isError }
    | .ok none => pure { toolCall, result := executed.result, isError := executed.isError }
    | .error error => pure { toolCall, result := .error error.text, isError := true }
  else pure { toolCall, result := executed.result, isError := executed.isError }

def emitToolExecutionStart (toolCall : ToolCall) : Loop Unit :=
  emit (.toolExecutionStart toolCall.id toolCall.name toolCall.arguments)

def emitToolExecutionEnd (finalized : FinalizedToolCallOutcome) : Loop Unit :=
  emit (.toolExecutionEnd finalized.toolCall.id finalized.toolCall.name finalized.result finalized.isError)

def createToolResultMessage (finalized : FinalizedToolCallOutcome) : Loop ToolResultMessage := do
  let timestamp ← ask .now
  pure
    { toolCallId := finalized.toolCall.id
      toolName := finalized.toolCall.name
      content := finalized.result.content
      details := if finalized.result.details = .null then none else some finalized.result.details
      isError := finalized.isError
      timestamp }

def emitToolResultMessage (message : ToolResultMessage) : Loop Unit := do
  emit (.messageStart (.toolResult message))
  emit (.messageEnd (.toolResult message))

def runPreparedToolCall (fuel : Nat) (config : AgentLoopConfig) (context : AgentContext)
    (assistantMessage : AssistantMessage) (prepared : PreparedToolCall) : Loop FinalizedToolCallOutcome := do
  let executed ← executePreparedToolCall fuel prepared
  finalizeExecutedToolCall config context assistantMessage prepared executed

/-! ## A batch -/

def shouldTerminateToolBatch (finalizedCalls : List FinalizedToolCallOutcome) : Bool :=
  !finalizedCalls.isEmpty && finalizedCalls.all fun finalized => finalized.result.terminate == some true

def finishBatch (finalizedCalls : List FinalizedToolCallOutcome) (messages : List ToolResultMessage) :
    ExecutedToolCallBatch :=
  { messages, terminate := shouldTerminateToolBatch finalizedCalls }

def executeToolCallsSequential (fuel : Nat) (config : AgentLoopConfig) (context : AgentContext)
    (assistantMessage : AssistantMessage) :
    List ToolCall → List FinalizedToolCallOutcome → List ToolResultMessage → Loop ExecutedToolCallBatch
  | [], finalizedCalls, messages => pure (finishBatch finalizedCalls messages)
  | toolCall :: rest, finalizedCalls, messages => do
    if ← isAborted then pure (finishBatch finalizedCalls messages)
    else
      emitToolExecutionStart toolCall
      let finalized ← (do
        match ← prepareToolCall config context assistantMessage toolCall with
        | .immediate result isError => pure { toolCall, result, isError }
        | .prepared prepared => runPreparedToolCall fuel config context assistantMessage prepared)
      emitToolExecutionEnd finalized
      let message ← createToolResultMessage finalized
      emitToolResultMessage message
      let finalizedCalls := finalizedCalls ++ [finalized]
      let messages := messages ++ [message]
      if ← isAborted then pure (finishBatch finalizedCalls messages)
      else executeToolCallsSequential fuel config context assistantMessage rest finalizedCalls messages

abbrev TaskOrOutcome :=
  Loop FinalizedToolCallOutcome

def toolCallTask (fuel : Nat) (config : AgentLoopConfig) (context : AgentContext)
    (assistantMessage : AssistantMessage) (prepared : PreparedToolCall) : TaskOrOutcome := do
  let finalized ← runPreparedToolCall fuel config context assistantMessage prepared
  emitToolExecutionEnd finalized
  pure finalized

def runTasks (entries : List TaskOrOutcome) : Loop (List TaskOrOutcome) := do
  let turns ← ask .schedule
  .interleave turns entries

def spawnToolCalls (fuel : Nat) (config : AgentLoopConfig) (context : AgentContext)
    (assistantMessage : AssistantMessage) :
    List ToolCall → List TaskOrOutcome → Loop (List TaskOrOutcome)
  | [], entries => pure entries
  | toolCall :: rest, entries => do
    let entries ← runTasks entries
    emitToolExecutionStart toolCall
    let entries ← runTasks entries
    let preparation ← prepareToolCall config context assistantMessage toolCall
    let entries ← runTasks entries
    match preparation with
    | .immediate result isError => do
      let finalized := { toolCall, result, isError }
      emitToolExecutionEnd finalized
      spawnToolCalls fuel config context assistantMessage rest (entries ++ [.done finalized])
    | .prepared prepared =>
      let task := toolCallTask fuel config context assistantMessage prepared
      spawnToolCalls fuel config context assistantMessage rest (entries ++ [task])

def emitToolResultMessages : List FinalizedToolCallOutcome → Loop (List ToolResultMessage)
  | [] => pure []
  | finalized :: rest => do
    let message ← createToolResultMessage finalized
    emitToolResultMessage message
    let messages ← emitToolResultMessages rest
    pure (message :: messages)

def executeToolCallsParallel (fuel : Nat) (config : AgentLoopConfig) (context : AgentContext)
    (assistantMessage : AssistantMessage) (toolCalls : List ToolCall) : Loop ExecutedToolCallBatch := do
  let entries ← spawnToolCalls fuel config context assistantMessage toolCalls []
  let entries ← runTasks entries
  let finalizedCalls ← .gather entries
  let messages ← emitToolResultMessages finalizedCalls
  pure (finishBatch finalizedCalls messages)

def runsSequentially (toolExecution : ToolExecutionMode) (tools : List AgentTool) (toolCalls : List ToolCall) : Bool :=
  let hasSequentialToolCall := toolCalls.any fun toolCall =>
    (tools.find? fun tool => tool.name == toolCall.name).bind (·.executionMode) == some .sequential
  toolExecution == .sequential || hasSequentialToolCall

def executeToolCalls (fuel : Nat) (config : AgentLoopConfig) (context : AgentContext)
    (assistantMessage : AssistantMessage) : Loop ExecutedToolCallBatch :=
  if runsSequentially config.toolExecution context.tools assistantMessage.toolCalls then
    executeToolCallsSequential fuel config context assistantMessage assistantMessage.toolCalls [] []
  else executeToolCallsParallel fuel config context assistantMessage assistantMessage.toolCalls

end PrimeAgent.Agent
