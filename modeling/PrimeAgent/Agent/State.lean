import PrimeAgent.Agent.Types
import PrimeAgent.Lib.Program
import Mathlib.Data.List.Perm.Basic

/-! # The agent's state

The state every emitted event is reduced into: `agent.rs`.
-/
namespace PrimeAgent.Agent

/-- `MutableAgentState`. -/
structure AgentState where
  systemPrompt : String
  model : Model
  tools : List AgentTool
  messages : List AgentMessage
  isStreaming : Bool
  streamingMessage : Option AgentMessage
  pendingToolCalls : List String
  errorMessage : Option String

namespace AgentState

/-- The state change of `process_events`. -/
def processEvents (state : AgentState) : AgentEvent → AgentState
  | .messageStart message => { state with streamingMessage := some message }
  | .messageUpdate message _ => { state with streamingMessage := some message }
  | .messageEnd message => { state with streamingMessage := none, messages := state.messages ++ [message] }
  | .toolExecutionStart toolCallId _ _ =>
    { state with pendingToolCalls := state.pendingToolCalls.insert toolCallId }
  | .toolExecutionEnd toolCallId _ _ _ =>
    { state with pendingToolCalls := state.pendingToolCalls.filter (· != toolCallId) }
  | .turnEnd (.standard (.assistant message)) _ =>
    { state with errorMessage := message.errorMessage.or state.errorMessage }
  | .turnEnd _ _ => state
  | .agentEnd _ => { state with streamingMessage := none }
  | .agentStart | .turnStart | .toolExecutionUpdate .. => state

/-- What `run_with_lifecycle` sets once the run has registered. -/
def startRun (state : AgentState) : AgentState :=
  { state with isStreaming := true, streamingMessage := none, errorMessage := none }

def finishRun (state : AgentState) : AgentState :=
  { state with isStreaming := false, streamingMessage := none, pendingToolCalls := [] }

/-- `snapshot_locked`. -/
def snapshot (state : AgentState) : AgentContext :=
  { systemPrompt := state.systemPrompt, messages := state.messages, tools := state.tools }

end AgentState

end PrimeAgent.Agent

/-! ## What the loop calls

The loop's hooks, the model stream, the tools, the abort signal and the agent's own lock and queues are calls of the
program; `agent_loop/mod.rs`, and the abort and settlement helpers of `agent_loop/abort.rs`. The event sink does not
fail.
-/
namespace PrimeAgent.Agent

/-- `AgentLoopConfig`. Of a hook the loop knows only whether it is installed. -/
structure AgentLoopConfig where
  model : Model
  apiKey : Option String
  transformContext : Bool
  getApiKey : Bool
  shouldStopAfterTurn : Bool
  shouldStopBeforeTurn : Bool
  getContinuationMessages : Bool
  toolExecution : ToolExecutionMode
  beforeToolCall : Bool
  afterToolCall : Bool
  /-- The first poll of the steering queue answers nothing and leaves the queue alone. -/
  skipInitialSteeringPoll : Bool
  streamFn : Bool

structure PreparedToolCall where
  toolCall : ToolCall
  tool : AgentTool
  args : Json

inductive Poll where
  | initialSteering (skip : Bool)
  | steering
  | followUp
deriving DecidableEq

inductive Operation where
  /-- A future that is ready at once, where no hook is installed. -/
  | ready
  | transformContext (messages : List AgentMessage)
  | convertToLlm (messages : List AgentMessage)
  | getApiKey (provider : String)
  | openStream (model : Model) (context : LlmContext) (apiKey : Option String)
  | nextEvent
  | streamResult
  | shouldStopAfterTurn (context : ShouldStopAfterTurnContext)
  | poll (poll : Poll)
  | getContinuationMessages (context : GetContinuationMessagesContext)
  | beforeToolCall (context : BeforeToolCallContext)
  | afterToolCall (context : AfterToolCallContext)

@[reducible] def Operation.Value : Operation → Type
  | ready => Unit
  | transformContext _ => List AgentMessage
  | convertToLlm _ => List Message
  | getApiKey _ => Option String
  | openStream .. => Unit
  | nextEvent => Option AssistantMessageEvent
  | streamResult => AssistantMessage
  | shouldStopAfterTurn _ => Bool
  | poll _ => List AgentMessage
  | getContinuationMessages _ => List AgentMessage
  | beforeToolCall _ => Option BeforeToolCallResult
  | afterToolCall _ => Option AfterToolCallResult

/-- What an executing tool does next: one of its updates reaches the sink, or the race is over. -/
inductive ToolProgress where
  | update (partialResult : AgentToolResult)
  | returned (result : Except AgentError AgentToolResult)

/-- What the emitter of a tool's updates does next. `aborted` leaves it running, with what it still holds. -/
inductive EmitterProgress where
  | update (partialResult : AgentToolResult)
  | settled
  | aborted

inductive Site where
  | turn | response
deriving DecidableEq

inductive Call where
  | emit (event : AgentEvent)
  | isAborted
  | throwIfAborted (site : Site)
  | race (operation : Operation)
  | closeStream
  | shouldStopBeforeTurn
  | executeTool (prepared : PreparedToolCall)
  | awaitUpdates (prepared : PreparedToolCall)
  /-- The turns the tasks of a parallel batch take before the loop goes on. -/
  | schedule
  | now
  | isProcessing
  | lastMessage
  | drainSteering
  | drainFollowUp
  | modelOverride
  | stateModel
  | register (model : Model)
  | startRun
  | snapshot (continuing : Bool)
  | recordError (text : String)
  | finishRun

/-- What a run takes over from the agent as it starts; `continuation` tells whether that hook is installed. -/
structure Snapshot where
  context : AgentContext
  model : Model
  continuation : Bool

@[reducible] def Call.Answer : Call → Type
  | emit _ => Unit
  | isAborted => Bool
  | throwIfAborted _ => Bool
  | race operation => Except AgentError operation.Value
  | closeStream => Unit
  | shouldStopBeforeTurn => Bool
  | executeTool _ => ToolProgress
  | awaitUpdates _ => EmitterProgress
  | schedule => List Nat
  | now => Int
  | isProcessing => Bool
  | lastMessage => Option AgentMessage
  | drainSteering => List AgentMessage
  | drainFollowUp => List AgentMessage
  | modelOverride => Option Model
  | stateModel => Model
  | register _ => Bool
  | startRun => Unit
  | snapshot _ => Snapshot
  | recordError _ => Unit
  | finishRun => Unit

abbrev Loop (ρ : Type) :=
  Program Call Call.Answer AgentError ρ

def ask (call : Call) : Loop call.Answer :=
  Program.ask call

def emit (event : AgentEvent) : Loop Unit :=
  ask (.emit event)

def isAborted : Loop Bool :=
  ask .isAborted

def throwIfAborted (site : Site) : Loop Unit := do
  if ← ask (.throwIfAborted site) then .fail .aborted else pure ()

def raceWithAbort (operation : Operation) : Loop operation.Value :=
  ask (.race operation) >>= .ofExcept

def raceHook {α : Type} (installed : Bool) (hook : Loop α) (absent : α) : Loop α :=
  if installed then hook
  else do
    raceWithAbort .ready
    pure absent

inductive PostTurnResult (α : Type) where
  | completed (value : α)
  | aborted

/-- An abort rejection collapses into `aborted`; every other error propagates. -/
def settlePostTurn {α : Type} (operation : Loop α) : Loop (PostTurnResult α) := do
  match ← operation.attempt with
  | .ok value => pure (.completed value)
  | .error error =>
    if (← isAborted) && error.isAbortError then pure .aborted else .fail error

def pollMessagesUnlessAborted (poll : Poll) : Loop (List AgentMessage) := do
  if ← isAborted then pure [] else raceWithAbort (.poll poll)

def createAbortedAssistantMessage (config : AgentLoopConfig) (partialMessage : Option AssistantMessage) :
    Loop AssistantMessage := do
  let timestamp ← ask .now
  pure
    { content := (partialMessage.map (·.content)).getD [.text { text := "", textSignature := none }]
      api := (partialMessage.map (·.api)).getD config.model.api
      provider := (partialMessage.map (·.provider)).getD config.model.provider
      model := (partialMessage.map (·.model)).getD config.model.id
      responseModel := none
      responseId := none
      diagnostics := none
      usage := (partialMessage.map (·.usage)).getD Usage.zero
      stopReason := .aborted
      stopReasonRaw := none
      errorMessage := some AgentError.abortErrorMessage
      timestamp }

end PrimeAgent.Agent
