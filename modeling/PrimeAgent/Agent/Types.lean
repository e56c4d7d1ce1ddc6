import PrimeAgent.Types.Ai

/-! # The agent loop's domain types

`pa-agent/src/types.rs` and the event protocol of `stream.rs`. The crate has message types of its own: arguments are
any JSON value, timestamps are signed, and a host's messages keep the role and the payload it gave them.
-/
namespace PrimeAgent.Agent

inductive ToolExecutionMode where
  | sequential | parallel
deriving DecidableEq, Repr

structure ToolCall where
  id : String
  name : String
  arguments : Json
  thoughtSignature : Option String
deriving DecidableEq

inductive AssistantContent where
  | text (content : TextContent)
  | thinking (content : ThinkingContent)
  | toolCall (call : ToolCall)
deriving DecidableEq

def Usage.zero : Usage :=
  { input := 0, output := 0, cacheRead := 0, cacheWrite := 0, totalTokens := 0,
    cost := { input := ⟨0⟩, output := ⟨0⟩, cacheRead := ⟨0⟩, cacheWrite := ⟨0⟩, total := ⟨0⟩ } }

structure AssistantMessageDiagnostic where
  kind : String
  timestamp : Int
  error : Option Json
  details : Option Json
deriving DecidableEq

structure AssistantMessage where
  content : List AssistantContent
  api : String
  provider : String
  model : String
  responseModel : Option String
  responseId : Option String
  diagnostics : Option (List AssistantMessageDiagnostic)
  usage : Usage
  stopReason : StopReason
  stopReasonRaw : Option String
  errorMessage : Option String
  timestamp : Int
deriving DecidableEq

def AssistantMessage.toolCalls (message : AssistantMessage) : List ToolCall :=
  message.content.filterMap fun
    | .toolCall call => some call
    | _ => none

inductive ToolResultContent where
  | text (content : TextContent)
  | image (content : ImageContent)
deriving DecidableEq

structure ToolResultMessage where
  toolCallId : String
  toolName : String
  content : List ToolResultContent
  details : Option Json
  isError : Bool
  timestamp : Int
deriving DecidableEq

inductive UserPart where
  | text (content : TextContent)
  | image (content : ImageContent)
deriving DecidableEq

inductive UserContent where
  | text (text : String)
  | parts (parts : List UserPart)
deriving DecidableEq

structure UserMessage where
  content : UserContent
  timestamp : Int
deriving DecidableEq

inductive Message where
  | user (message : UserMessage)
  | assistant (message : AssistantMessage)
  | toolResult (message : ToolResultMessage)
deriving DecidableEq

structure CustomAgentMessage where
  role : String
  payload : Json
deriving DecidableEq

inductive AgentMessage where
  | standard (message : Message)
  | custom (message : CustomAgentMessage)
deriving DecidableEq

namespace AgentMessage

def role : AgentMessage → String
  | standard (.user _) => "user"
  | standard (.assistant _) => "assistant"
  | standard (.toolResult _) => "toolResult"
  | custom message => message.role

abbrev assistant (message : AssistantMessage) : AgentMessage :=
  standard (.assistant message)

abbrev toolResult (message : ToolResultMessage) : AgentMessage :=
  standard (.toolResult message)

end AgentMessage

structure Model where
  id : String
  api : String
  provider : String
deriving DecidableEq

structure AgentToolResult where
  content : List ToolResultContent
  details : Json
  terminate : Option Bool
deriving DecidableEq

def AgentToolResult.error (text : String) : AgentToolResult :=
  { content := [.text { text, textSignature := none }], details := .object [], terminate := none }

/-- A tool as the loop sees it before it runs it; `validateToolArguments` checks against `parameters`. -/
structure AgentTool where
  name : String
  description : String
  parameters : Json
  prepareArguments : Json → Option Json
  validateToolArguments : Json → Except String Json
  executionMode : Option ToolExecutionMode

structure AgentContext where
  systemPrompt : String
  messages : List AgentMessage
  tools : List AgentTool

/-! ## The stream protocol -/

inductive AssistantMessageEvent where
  | start (partialMessage : AssistantMessage)
  | textStart (contentIndex : Nat) (partialMessage : AssistantMessage)
  | textDelta (contentIndex : Nat) (delta : String) (partialMessage : AssistantMessage)
  | textEnd (contentIndex : Nat) (content : String) (partialMessage : AssistantMessage)
  | thinkingStart (contentIndex : Nat) (partialMessage : AssistantMessage)
  | thinkingDelta (contentIndex : Nat) (delta : String) (partialMessage : AssistantMessage)
  | thinkingEnd (contentIndex : Nat) (partialMessage : AssistantMessage)
  | toolCallStart (contentIndex : Nat) (partialMessage : AssistantMessage)
  | toolCallDelta (contentIndex : Nat) (delta : String) (partialMessage : AssistantMessage)
  | toolCallEnd (contentIndex : Nat) (toolCall : ToolCall) (partialMessage : AssistantMessage)
  | done (reason : StopReason) (message : AssistantMessage)
  | error (reason : StopReason) (error : AssistantMessage)
deriving DecidableEq

namespace AssistantMessageEvent

/-- The final message of a `done` or `error` event. -/
def terminalMessage : AssistantMessageEvent → Option AssistantMessage
  | done _ message => some message
  | error _ message => some message
  | _ => none

def isDelta : AssistantMessageEvent → Bool
  | textStart .. | textDelta .. | textEnd .. | thinkingStart .. | thinkingDelta .. | thinkingEnd ..
  | toolCallStart .. | toolCallDelta .. | toolCallEnd .. => true
  | _ => false

end AssistantMessageEvent

structure ToolDefinition where
  name : String
  description : String
  parameters : Json
deriving DecidableEq

structure LlmContext where
  systemPrompt : Option String
  messages : List Message
  tools : List ToolDefinition
deriving DecidableEq

/-! ## What the loop emits -/

inductive AgentEvent where
  | agentStart
  /-- Last event of a run; carries all messages produced by the run. -/
  | agentEnd (messages : List AgentMessage)
  | turnStart
  | turnEnd (message : AgentMessage) (toolResults : List ToolResultMessage)
  | messageStart (message : AgentMessage)
  | messageUpdate (message : AgentMessage) (assistantMessageEvent : AssistantMessageEvent)
  | messageEnd (message : AgentMessage)
  | toolExecutionStart (toolCallId toolName : String) (args : Json)
  | toolExecutionUpdate (toolCallId toolName : String) (args : Json) (partialResult : AgentToolResult)
  | toolExecutionEnd (toolCallId toolName : String) (result : AgentToolResult) (isError : Bool)
deriving DecidableEq

/-! ## What the hooks see and say -/

structure BeforeToolCallResult where
  block : Bool
  reason : Option String
deriving DecidableEq

/-- A field left `none` keeps what the tool returned. -/
structure AfterToolCallResult where
  content : Option (List ToolResultContent)
  details : Option Json
  isError : Option Bool
  terminate : Option Bool
deriving DecidableEq

structure BeforeToolCallContext where
  assistantMessage : AssistantMessage
  toolCall : ToolCall
  args : Json
  context : AgentContext

structure AfterToolCallContext where
  assistantMessage : AssistantMessage
  toolCall : ToolCall
  args : Json
  result : AgentToolResult
  isError : Bool
  context : AgentContext

/-- What `shouldStopAfterTurn` and the continuation hook are given. -/
structure ShouldStopAfterTurnContext where
  message : AssistantMessage
  toolResults : List ToolResultMessage
  context : AgentContext
  newMessages : List AgentMessage

abbrev GetContinuationMessagesContext := ShouldStopAfterTurnContext

/-! ## Errors -/

inductive AgentContinueErrorCode where
  | busy | nothingToContinue
deriving DecidableEq, Repr

inductive AgentError where
  | aborted
  | continuation (code : AgentContinueErrorCode) (message : String)
  | other (message : String)
deriving DecidableEq

namespace AgentError

def abortErrorMessage : String :=
  "Request was aborted"

def text : AgentError → String
  | aborted => abortErrorMessage
  | continuation _ message | other message => message

def isAbortError : AgentError → Bool
  | aborted => true
  | _ => false

end AgentError

end PrimeAgent.Agent
