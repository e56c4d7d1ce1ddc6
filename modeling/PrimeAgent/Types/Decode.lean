import PrimeAgent.Types.Session

/-! # Decoding session entries

What serde makes of a JSON value. A derived struct is read from an object by field name, or from an
array by position; a struct with a flattened field is read from an object only.
-/
namespace PrimeAgent

namespace Decode

structure Fields where
  get : String → Option Json
  named : Bool

def fieldsOfMap : Json → Option Fields
  | .object members => some ⟨(members.lookup ·), true⟩
  | _ => none

def fieldsOf (names : List String) : Json → Option Fields
  | .object members => some ⟨(members.lookup ·), true⟩
  | .array items =>
    if items.length ≤ names.length then some ⟨fun name => items[names.idxOf name]?, false⟩ else none
  | _ => none

variable {α : Type}

def orNull (decode : Json → Option α) : Json → Option (Option α)
  | .null => some none
  | value => (decode value).map some

def Fields.required (fields : Fields) (name : String) (decode : Json → Option α) : Option α :=
  (fields.get name).bind decode

/-- `#[serde(default)] Option<T>`. -/
def Fields.defaulted (fields : Fields) (name : String) (decode : Json → Option α) : Option (Option α) :=
  match fields.get name with
  | none => some none
  | some value => orNull decode value

/-- `Option<T>` without a default: it may be missing from an object, but not from an array. -/
def Fields.optional (fields : Fields) (name : String) (decode : Json → Option α) : Option (Option α) :=
  match fields.get name with
  | none => if fields.named then some none else none
  | some value => orNull decode value

def bool : Json → Option Bool
  | .bool b => some b
  | _ => none

def u64 : Json → Option Nat :=
  Json.asU64

def u32 (value : Json) : Option Nat :=
  (u64 value).filter (· < 2 ^ 32)

def i64 : Json → Option Int
  | .number (.posInt n) => if n < 2 ^ 63 then some n else none
  | .number (.negInt n) => some n
  | _ => none

def string : Json → Option String :=
  Json.asStr

def value (v : Json) : Option Json :=
  some v

def jsonMap : Json → Option JsonMap
  | .object members => some members
  | _ => none

def list (decode : Json → Option α) : Json → Option (List α)
  | .array items => items.mapM decode
  | _ => none

def unitVariant (variants : List (String × α)) : Json → Option α
  | .string name => variants.lookup name
  | .object [(name, .null)] | .object [(name, .object [])] => variants.lookup name
  | _ => none

def variantName (names : List String) : Json → Option String
  | .string name => if name ∈ names then some name else none
  | .number (.posInt i) => names[i]?
  | _ => none

end Decode

open Decode

def ServiceTier.ofValue : Json → Option ServiceTier :=
  unitVariant [("auto", .auto), ("default", .default), ("flex", .flex), ("scale", .scale), ("priority", .priority)]

def StopReason.ofValue : Json → Option StopReason :=
  unitVariant [("stop", .stop), ("length", .length), ("toolUse", .toolUse), ("tool_calls", .toolUse),
    ("error", .error), ("aborted", .aborted)]

def ChildUsageOrigin.ofValue : Json → Option ChildUsageOrigin :=
  unitVariant [("spawn_task", .spawnTask), ("agent_message", .agentMessage), ("direct_user", .directUser)]

def SessionStateStatus.ofValue : Json → Option SessionStateStatus :=
  unitVariant [("active", .active), ("archived", .archived), ("crash", .crash)]

def JsNumber.ofValue : Json → Option JsNumber :=
  Json.asF64

def TextContent.ofValue (v : Json) : Option TextContent := do
  let f ← fieldsOfMap v
  some ⟨← f.required "text" string, ← f.defaulted "textSignature" string⟩

def ThinkingContent.ofValue (v : Json) : Option ThinkingContent := do
  let f ← fieldsOfMap v
  some ⟨← f.required "thinking" string, ← f.defaulted "thinkingSignature" string, ← f.defaulted "redacted" bool⟩

def ImageContent.ofValue (v : Json) : Option ImageContent := do
  let f ← fieldsOfMap v
  some ⟨← f.required "data" string, ← f.required "mimeType" string⟩

def ToolCall.ofValue (v : Json) : Option ToolCall := do
  let f ← fieldsOfMap v
  some ⟨← f.required "id" string, ← f.required "name" string, ← f.required "arguments" jsonMap,
    ← f.defaulted "thoughtSignature" string⟩

def UserContentBlock.ofValue (v : Json) : Option UserContentBlock :=
  match (v.get "type").bind Json.asStr with
  | some "text" => (TextContent.ofValue v).map .text
  | some "image" => (ImageContent.ofValue v).map .image
  | _ => some (.raw v)

def AssistantContentBlock.ofValue (v : Json) : Option AssistantContentBlock :=
  match (v.get "type").bind (variantName ["text", "thinking", "toolCall"]) with
  | some "text" => (TextContent.ofValue v).map .text
  | some "thinking" => (ThinkingContent.ofValue v).map .thinking
  | some "toolCall" => (ToolCall.ofValue v).map .toolCall
  | _ => none

def UserContent.ofValue : Json → Option UserContent
  | .string s => some (.text s)
  | v => (list UserContentBlock.ofValue v).map .blocks

def UsageCost.ofValue (v : Json) : Option UsageCost := do
  let f ← fieldsOf ["input", "output", "cacheRead", "cacheWrite", "total"] v
  some ⟨← f.required "input" JsNumber.ofValue, ← f.required "output" JsNumber.ofValue,
    ← f.required "cacheRead" JsNumber.ofValue, ← f.required "cacheWrite" JsNumber.ofValue,
    ← f.required "total" JsNumber.ofValue⟩

def Usage.ofValue (v : Json) : Option Usage := do
  let f ← fieldsOf ["input", "output", "cacheRead", "cacheWrite", "totalTokens", "cost"] v
  some ⟨← f.required "input" u64, ← f.required "output" u64, ← f.required "cacheRead" u64,
    ← f.required "cacheWrite" u64, ← f.required "totalTokens" u64, ← f.required "cost" UsageCost.ofValue⟩

def DiagnosticCode.ofValue : Json → Option DiagnosticCode
  | .string text => some (.str text)
  | v => (JsNumber.ofValue v).map .num

def DiagnosticErrorInfo.ofValue (v : Json) : Option DiagnosticErrorInfo := do
  let f ← fieldsOfMap v
  some ⟨← f.defaulted "name" string, ← f.required "message" string, ← f.defaulted "stack" string,
    ← f.defaulted "code" DiagnosticCode.ofValue⟩

def AssistantMessageDiagnostic.ofValue (v : Json) : Option AssistantMessageDiagnostic := do
  let f ← fieldsOf ["type", "timestamp", "error", "details"] v
  some ⟨← f.required "type" string, ← f.required "timestamp" u64, ← f.defaulted "error" DiagnosticErrorInfo.ofValue,
    ← f.defaulted "details" jsonMap⟩

def UserMessage.ofValue (v : Json) : Option UserMessage := do
  let f ← fieldsOfMap v
  some ⟨← f.required "content" UserContent.ofValue, ← f.required "timestamp" u64⟩

def AssistantMessage.ofValue (v : Json) : Option AssistantMessage := do
  let f ← fieldsOfMap v
  some
    { content := ← f.required "content" (list AssistantContentBlock.ofValue)
      api := ← f.required "api" string
      provider := ← f.required "provider" string
      model := ← f.required "model" string
      responseModel := ← f.defaulted "responseModel" string
      responseId := ← f.defaulted "responseId" string
      diagnostics := ← f.defaulted "diagnostics" (list AssistantMessageDiagnostic.ofValue)
      usage := ← f.required "usage" Usage.ofValue
      stopReason := ← f.required "stopReason" StopReason.ofValue
      stopReasonRaw := ← f.defaulted "stopReasonRaw" string
      errorMessage := ← f.defaulted "errorMessage" string
      timestamp := ← f.required "timestamp" u64 }

def ToolResultMessage.ofValue (v : Json) : Option ToolResultMessage := do
  let f ← fieldsOfMap v
  some
    { toolCallId := ← f.required "toolCallId" string
      toolName := ← match f.get "toolName" with
        | none => some ""
        | some name => string name
      content := ← f.required "content" (list UserContentBlock.ofValue)
      details := ← f.defaulted "details" value
      isError := ← f.required "isError" bool
      timestamp := ← f.required "timestamp" u64 }

def BashExecutionMessage.ofFields (f : Fields) : Option BashExecutionMessage := do
  some
    { command := ← f.required "command" string
      output := ← f.required "output" string
      exitCode := ← f.defaulted "exitCode" Decode.i64
      cancelled := ← f.required "cancelled" bool
      truncated := ← f.required "truncated" bool
      fullOutputPath := ← f.defaulted "fullOutputPath" string
      timestamp := ← f.required "timestamp" u64
      excludeFromContext := ← f.defaulted "excludeFromContext" bool }

def BashExecutionMessage.ofValue (v : Json) : Option BashExecutionMessage :=
  (fieldsOf ["command", "output", "exitCode", "cancelled", "truncated", "fullOutputPath", "timestamp",
    "excludeFromContext"] v).bind BashExecutionMessage.ofFields

def CustomMessage.ofValue (v : Json) : Option CustomMessage := do
  let f ← fieldsOfMap v
  some ⟨← f.required "customType" string, ← f.required "content" UserContent.ofValue, ← f.required "display" bool,
    ← f.defaulted "details" value, ← f.required "timestamp" u64⟩

def BranchSummaryMessage.ofValue (v : Json) : Option BranchSummaryMessage := do
  let f ← fieldsOf ["summary", "fromId", "timestamp"] v
  some ⟨← f.required "summary" string, ← f.required "fromId" string, ← f.required "timestamp" u64⟩

def CompactionSummaryMessage.ofValue (v : Json) : Option CompactionSummaryMessage := do
  let f ← fieldsOf ["summary", "tokensBefore", "retainedMessageCount", "customInstructions", "harnessDigest",
    "harnessStateFingerprint", "timestamp"] v
  some
    { summary := ← f.required "summary" string
      tokensBefore := ← f.required "tokensBefore" u64
      retainedMessageCount := ← f.defaulted "retainedMessageCount" u64
      customInstructions := ← f.defaulted "customInstructions" string
      harnessDigest := ← f.defaulted "harnessDigest" string
      harnessStateFingerprint := ← f.defaulted "harnessStateFingerprint" string
      timestamp := ← f.required "timestamp" u64 }

def AgentMessage.roles : List String :=
  ["user", "assistant", "toolResult", "bashExecution", "custom", "branchSummary", "compactionSummary"]

/-- A message is tagged by `role`; in an array the tag is the first element. -/
def AgentMessage.ofValue (v : Json) : Option AgentMessage := do
  let (tag, payload) ← match v with
    | .object members => (members.lookup "role").map (·, v)
    | .array (tag :: items) => some (tag, .array items)
    | _ => none
  match ← variantName AgentMessage.roles tag with
  | "user" => (UserMessage.ofValue payload).map .user
  | "assistant" => (AssistantMessage.ofValue payload).map .assistant
  | "toolResult" => (ToolResultMessage.ofValue payload).map .toolResult
  | "bashExecution" => (BashExecutionMessage.ofValue payload).map .bashExecution
  | "custom" => (CustomMessage.ofValue payload).map .custom
  | "branchSummary" => (BranchSummaryMessage.ofValue payload).map .branchSummary
  | _ => (CompactionSummaryMessage.ofValue payload).map .compactionSummary

def GitContext.ofValue (v : Json) : Option GitContext := do
  let f ← fieldsOf ["repoUrl", "commit", "branch"] v
  some ⟨← f.defaulted "repoUrl" string, ← f.defaulted "commit" string, ← f.defaulted "branch" string⟩

def SessionHeader.ofFields (f : Fields) : Option SessionHeader := do
  some
    { version := ← f.defaulted "version" u32
      id := ← f.required "id" string
      timestamp := ← f.required "timestamp" string
      cwd := ← f.required "cwd" string
      parentSession := ← f.defaulted "parentSession" string
      rlmDepth := ← f.defaulted "rlmDepth" u64
      git := ← f.defaulted "git" GitContext.ofValue }

def EntryBase.ofFields (f : Fields) : Option EntryBase := do
  some ⟨← f.optional "id" string, ← f.defaulted "parentId" string, ← f.defaulted "timestamp" string⟩

def ThinkingLevelChangeEntry.ofFields (f : Fields) : Option ThinkingLevelChangeEntry := do
  some ⟨← f.required "thinkingLevel" string⟩

def ServiceTierChangeEntry.ofFields (f : Fields) : Option ServiceTierChangeEntry := do
  some ⟨← f.defaulted "serviceTier" ServiceTier.ofValue⟩

def ModelChangeEntry.ofFields (f : Fields) : Option ModelChangeEntry := do
  some ⟨← f.required "provider" string, ← f.required "modelId" string⟩

def CompactionEntry.ofFields (f : Fields) : Option CompactionEntry := do
  some
    { summary := ← f.required "summary" string
      firstKeptEntryId := ← f.required "firstKeptEntryId" string
      tokensBefore := ← f.required "tokensBefore" u64
      details := ← f.defaulted "details" value
      fromHook := ← f.defaulted "fromHook" bool
      customInstructions := ← f.defaulted "customInstructions" string
      usage := ← f.defaulted "usage" Usage.ofValue
      harnessDigest := ← f.defaulted "harnessDigest" string
      harnessStateFingerprint := ← f.defaulted "harnessStateFingerprint" string }

def BranchSummaryEntry.ofFields (f : Fields) : Option BranchSummaryEntry := do
  some ⟨← f.required "fromId" string, ← f.required "summary" string, ← f.defaulted "details" value,
    ← f.defaulted "fromHook" bool, ← f.defaulted "usage" Usage.ofValue⟩

def CustomEntry.ofFields (f : Fields) : Option CustomEntry := do
  some ⟨← f.required "customType" string, ← f.defaulted "data" value⟩

def ChildUsageAttributionEntry.ofFields (f : Fields) : Option ChildUsageAttributionEntry := do
  some ⟨← f.required "targetId" string, ← f.required "childUsage" Usage.ofValue,
    ← f.required "aggregateUsage" Usage.ofValue, ← f.defaulted "origin" ChildUsageOrigin.ofValue⟩

def LabelEntry.ofFields (f : Fields) : Option LabelEntry := do
  some ⟨← f.required "targetId" string, ← f.defaulted "label" string⟩

def SessionInfoEntry.ofFields (f : Fields) : Option SessionInfoEntry := do
  some ⟨← f.defaulted "name" string⟩

def SessionState.ofValue (v : Json) : Option SessionState := do
  let f ← fieldsOf ["status"] v
  some ⟨← f.required "status" SessionStateStatus.ofValue⟩

def SessionStateEntry.ofFields (f : Fields) : Option SessionStateEntry := do
  some ⟨← f.required "state" SessionState.ofValue⟩

def GitStateEntry.ofFields (f : Fields) : Option GitStateEntry := do
  some ⟨← f.required "git" GitContext.ofValue⟩

def CustomMessageEntry.ofFields (f : Fields) : Option CustomMessageEntry := do
  some ⟨← f.required "customType" string, ← f.required "content" UserContent.ofValue,
    ← f.defaulted "details" value, ← f.required "display" bool⟩

def payloadEntry {α : Type} (decode : Fields → Option α) (build : α → EntryBase → FileEntry) (f : Fields) :
    Option FileEntry := do
  some (build (← decode f) (← EntryBase.ofFields f))

/-- `KnownFileEntry`, by its `type` tag. -/
def knownKinds : List (String × (Fields → Option FileEntry)) :=
  [("session", fun f => (SessionHeader.ofFields f).map .header),
    ("message", payloadEntry (·.required "message" AgentMessage.ofValue) .message),
    ("thinking_level_change", payloadEntry ThinkingLevelChangeEntry.ofFields .thinkingLevelChange),
    ("service_tier_change", payloadEntry ServiceTierChangeEntry.ofFields .serviceTierChange),
    ("model_change", payloadEntry ModelChangeEntry.ofFields .modelChange),
    ("compaction", payloadEntry CompactionEntry.ofFields .compaction),
    ("branch_summary", payloadEntry BranchSummaryEntry.ofFields .branchSummary),
    ("custom", payloadEntry CustomEntry.ofFields .custom),
    ("child_usage_attributed", payloadEntry ChildUsageAttributionEntry.ofFields .childUsageAttributed),
    ("label", payloadEntry LabelEntry.ofFields .label),
    ("session_info", payloadEntry SessionInfoEntry.ofFields .sessionInfo),
    ("session_state", payloadEntry SessionStateEntry.ofFields .sessionState),
    ("git_state", payloadEntry GitStateEntry.ofFields .gitState),
    ("custom_message", payloadEntry CustomMessageEntry.ofFields .customMessage)]

def KnownFileEntry.ofMembers (members : JsonMap) : Option FileEntry := do
  let kind ← (members.lookup "type").bind Json.asStr
  let decode ← knownKinds.lookup kind
  decode ⟨(members.lookup ·), true⟩

def FileEntry.ofValue : Json → Option FileEntry
  | .object members => some ((KnownFileEntry.ofMembers members).getD (.unknown members))
  | _ => none

example : (FileEntry.ofValue (.object [("type", .string "model_change"), ("id", .string "m1"),
    ("provider", .number (.posInt 123)), ("modelId", .null)])).map (·.id) = some (some "m1") := by decide

end PrimeAgent
