import PrimeAgent.Types.Json

/-! # Model-facing messages

The message surface of `pa-types/src/ai`. The `rest` catch-all maps hold fields nothing in the
session code reads, and are left out.
-/
namespace PrimeAgent

inductive ServiceTier where
  | auto | default | flex | scale | priority
deriving DecidableEq, Repr

structure TextContent where
  text : String
  textSignature : Option String
deriving DecidableEq

structure ThinkingContent where
  thinking : String
  thinkingSignature : Option String
  redacted : Option Bool
deriving DecidableEq

structure ImageContent where
  data : String
  mimeType : String
deriving DecidableEq

structure ToolCall where
  id : String
  name : String
  arguments : JsonMap
  thoughtSignature : Option String
deriving DecidableEq

/-- A block that is no well-formed known variant is kept verbatim as `raw`. -/
inductive UserContentBlock where
  | text (content : TextContent)
  | image (content : ImageContent)
  | raw (value : Json)
deriving DecidableEq

inductive AssistantContentBlock where
  | text (content : TextContent)
  | thinking (content : ThinkingContent)
  | toolCall (call : ToolCall)
deriving DecidableEq

inductive UserContent where
  | text (text : String)
  | blocks (blocks : List UserContentBlock)
deriving DecidableEq

/-- A number as JavaScript has it: always an `f64`. -/
abbrev JsNumber := F64

structure UsageCost where
  input : JsNumber
  output : JsNumber
  cacheRead : JsNumber
  cacheWrite : JsNumber
  total : JsNumber
deriving DecidableEq

structure Usage where
  input : Nat
  output : Nat
  cacheRead : Nat
  cacheWrite : Nat
  totalTokens : Nat
  cost : UsageCost
deriving DecidableEq

inductive StopReason where
  | stop | length | toolUse | error | aborted
deriving DecidableEq, Repr

inductive DiagnosticCode where
  | str (text : String)
  | num (value : JsNumber)
deriving DecidableEq

structure DiagnosticErrorInfo where
  name : Option String
  message : String
  stack : Option String
  code : Option DiagnosticCode
deriving DecidableEq

structure AssistantMessageDiagnostic where
  type : String
  timestamp : Nat
  error : Option DiagnosticErrorInfo
  details : Option JsonMap
deriving DecidableEq

structure UserMessage where
  content : UserContent
  timestamp : Nat
deriving DecidableEq

structure AssistantMessage where
  content : List AssistantContentBlock
  api : String
  provider : String
  model : String
  responseModel : Option String
  responseId : Option String
  diagnostics : Option (List AssistantMessageDiagnostic)
  usage : Usage
  stopReason : StopReason
  stopReasonRaw : Option String
  errorMessage : Option String
  timestamp : Nat
deriving DecidableEq

structure ToolResultMessage where
  toolCallId : String
  toolName : String
  content : List UserContentBlock
  details : Option Json
  isError : Bool
  timestamp : Nat
deriving DecidableEq

end PrimeAgent
