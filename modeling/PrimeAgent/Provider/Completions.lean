import PrimeAgent.Provider.Events

/-! # The OpenAI completions stream

`handle_chunk` and what `run_stream` does once the chunks have come. Tool-call deltas are led to their
block by the index they carry, and by their id where the index is missing or not yet known. Token usage
and prices are left out.
-/
namespace PrimeAgent.Provider.Completions

/-- `parser` reads tool arguments, `print` is the text of a JSON value. -/
structure Env where
  parser : StreamingParser
  print : Json → String
  model_id : String

structure StreamingState where
  content : List AssistantContentBlock
  text_block : Option Nat
  thinking_block : Option Nat
  tool_call_blocks_by_index : List (Nat × Nat)
  tool_call_blocks_by_id : List (String × Nat)
  tool_call_partial_args : List (Nat × StreamingJsonAccumulator)
  reasoning_details_by_index : List (Nat × JsonMap)
  next_reasoning_details_index : Nat
  reasoning_details_block : Option Nat
  response_id : Option String
  response_model : Option String
  response_service_tier : Option String
  stop_reason : StopReason
  error_message : Option String
  pushed : List Pushed

namespace StreamingState

def initial : StreamingState :=
  { content := [], text_block := none, thinking_block := none, tool_call_blocks_by_index := []
    tool_call_blocks_by_id := [], tool_call_partial_args := [], reasoning_details_by_index := []
    next_reasoning_details_index := 0, reasoning_details_block := none, response_id := none
    response_model := none, response_service_tier := none, stop_reason := .stop, error_message := none
    pushed := [] }

def push (event : List AssistantContentBlock → Pushed) (state : StreamingState) : StreamingState :=
  { state with pushed := state.pushed ++ [event state.content] }

def openBlock (block : AssistantContentBlock) (announce : Nat → List AssistantContentBlock → Pushed)
    (state : StreamingState) : StreamingState :=
  push (announce state.content.length) { state with content := state.content ++ [block] }

def modify (position : Nat) (change : AssistantContentBlock → AssistantContentBlock) (state : StreamingState) :
    StreamingState :=
  { state with content := state.content.modify position change }

def ensure_text_block (state : StreamingState) : Nat × StreamingState :=
  match state.text_block with
  | some position => (position, state)
  | none =>
    (state.content.length, openBlock (.text ⟨"", none⟩) .textStart
      { state with text_block := some state.content.length })

def ensure_thinking_block (signature : String) (state : StreamingState) : Nat × StreamingState :=
  match state.thinking_block with
  | some position => (position, state)
  | none =>
    (state.content.length, openBlock (.thinking ⟨"", some signature, none⟩) .thinkingStart
      { state with thinking_block := some state.content.length })

def bindKeys (index : Option Nat) (id : Option String) (position : Nat) (state : StreamingState) : StreamingState :=
  { state with
    tool_call_blocks_by_index := (index.map (·, position)).toList ++ state.tool_call_blocks_by_index
    tool_call_blocks_by_id := (id.map (·, position)).toList ++ state.tool_call_blocks_by_id }

def lookupBlock (index : Option Nat) (id : Option String) (state : StreamingState) : Option Nat :=
  (index.bind fun index => state.tool_call_blocks_by_index.lookup index).or
    (id.bind fun id => state.tool_call_blocks_by_id.lookup id)

def ensure_tool_call_block (index : Option Nat) (id : Option String) (state : StreamingState) :
    Nat × StreamingState :=
  match lookupBlock index id state with
  | some position => (position, bindKeys index id position state)
  | none =>
    (state.content.length, openBlock (.toolCall ⟨id.getD "", "", [], none⟩) .toolcallStart
      (bindKeys index id state.content.length state))

end StreamingState

/-- A member of a delta's `tool_calls`. -/
structure ToolDelta where
  index : Option Nat
  id : Option String
  name : Option String
  fragment : Option String
deriving DecidableEq

def ToolDelta.of (tool_call : Json) : ToolDelta :=
  let function (key : String) := ((tool_call.get "function").bind (Json.get key)).bind Json.asStr
  { index := (tool_call.get "index").bind Json.asU64
    id := (tool_call.get "id").bind Json.asStr
    name := function "name"
    fragment := function "arguments" }

def nameCall (delta : ToolDelta) : AssistantContentBlock → AssistantContentBlock
  | .toolCall call => .toolCall { call with
      id := if call.id = "" then delta.id.getD call.id else call.id
      name := if call.name = "" then delta.name.getD call.name else call.name }
  | block => block

def needsId : AssistantContentBlock → Bool
  | .toolCall call => call.id == ""
  | _ => false

open StreamingState

def nameBlock (delta : ToolDelta) (position : Nat) (state : StreamingState) : StreamingState :=
  if state.content[position]?.any needsId then
    bindKeys none delta.id position (state.modify position (nameCall delta))
  else state.modify position (nameCall delta)

def appendArguments (env : Env) (position : Nat) (fragment : String) (state : StreamingState) : StreamingState :=
  let appended := ((state.tool_call_partial_args.lookup position).getD .default).append env.parser fragment
  { state with
    tool_call_partial_args := (position, appended.2) :: state.tool_call_partial_args
    content := state.content.modify position (setArguments appended.1) }

def handle_tool_call (env : Env) (state : StreamingState) (delta : ToolDelta) : StreamingState :=
  let ensured := ensure_tool_call_block delta.index delta.id state
  let named := nameBlock delta ensured.1 ensured.2
  let appended := match delta.fragment with
    | some fragment => appendArguments env ensured.1 fragment named
    | none => named
  push (.toolcallDelta ensured.1 (delta.fragment.getD "")) appended

def mergeDetail (merged : JsonMap) (member : String × Json) : JsonMap :=
  match merged.lookup member.1, member.2 with
  | some (.string previous), .string fragment =>
    if member.1 = "text" ∨ member.1 = "summary" then merged.set member.1 (.string (previous ++ fragment))
    else merged.set member.1 member.2
  | _, _ => merged.set member.1 member.2

def mergeAt (index : Nat) (detail : JsonMap) : List (Nat × JsonMap) → List (Nat × JsonMap)
  | [] => [(index, detail)]
  | (existing, merged) :: rest =>
    if existing = index then (existing, detail.foldl mergeDetail merged) :: rest
    else (existing, merged) :: mergeAt index detail rest

def signCall (id signature : String) : AssistantContentBlock → AssistantContentBlock
  | .toolCall call => if call.id = id then .toolCall { call with thoughtSignature := some signature } else .toolCall call
  | block => block

def handle_reasoning_detail (env : Env) (state : StreamingState) (detail : Json) : StreamingState :=
  match detail with
  | .object members =>
    let index := ((detail.get "index").bind Json.asU64).getD state.next_reasoning_details_index
    let state := { state with
      next_reasoning_details_index := max state.next_reasoning_details_index (index + 1)
      reasoning_details_by_index := mergeAt index members state.reasoning_details_by_index }
    if (detail.get "type").bind Json.asStr = some "reasoning.encrypted" then
      match (detail.get "id").bind Json.asStr, detail.get "data" with
      | some id, some data =>
        if data = .null then state
        else { state with content := state.content.map (signCall id (env.print detail)) }
      | _, _ => state
    else state
  | _ => state

def REASONING_FIELDS : List String :=
  ["reasoning_content", "reasoning", "reasoning_text"]

def reasoningField (delta : Json) : Option (String × String) :=
  REASONING_FIELDS.findSome? fun field =>
    match (delta.get field).bind Json.asStr with
    | some value => if value = "" then none else some (field, value)
    | none => none

def handle_text (delta : Json) (state : StreamingState) : StreamingState :=
  match (delta.get "content").bind Json.asStr with
  | none => state
  | some content =>
    if content = "" then state
    else
      let ensured := state.ensure_text_block
      push (.textDelta ensured.1 content) (ensured.2.modify ensured.1 (pushText content))

def handle_reasoning (delta : Json) (state : StreamingState) : StreamingState :=
  match reasoningField delta with
  | none => state
  | some (field, value) =>
    let ensured := state.ensure_thinking_block field
    push (.thinkingDelta ensured.1 value) (ensured.2.modify ensured.1 (pushThinking value))

def items : Option Json → List Json
  | some (.array items) => items
  | _ => []

def toolCalls (delta : Json) : List ToolDelta :=
  (items (delta.get "tool_calls")).map ToolDelta.of

def openReasoning (state : StreamingState) : StreamingState :=
  if state.reasoning_details_by_index ≠ [] ∧ state.reasoning_details_block = none then
    openBlock (.thinking ⟨"", none, some true⟩) .thinkingStart
      { state with reasoning_details_block := some state.content.length }
  else state

def handle_details (env : Env) (delta : Json) (state : StreamingState) : StreamingState :=
  match delta.get "reasoning_details" with
  | some (.array details) => openReasoning (details.foldl (handle_reasoning_detail env) state)
  | _ => state

def handle_delta (env : Env) (delta : Json) (state : StreamingState) : StreamingState :=
  handle_details env delta
    ((toolCalls delta).foldl (handle_tool_call env) (handle_reasoning delta (handle_text delta state)))

def map_stop_reason : String → StopReason × Option String
  | "stop" | "end" => (.stop, none)
  | "length" => (.length, none)
  | "function_call" | "tool_calls" => (.toolUse, none)
  | reason => (.error, some ("Provider finish_reason: " ++ reason))

def noteChunk (env : Env) (chunk : Json) (state : StreamingState) : StreamingState :=
  { state with
    response_id := state.response_id.or ((chunk.get "id").bind Json.asStr)
    response_service_tier := ((chunk.get "service_tier").bind Json.asStr).or state.response_service_tier
    response_model := match (chunk.get "model").bind Json.asStr with
      | some model =>
        if model ≠ "" ∧ model ≠ env.model_id ∧ state.response_model = none then some model else state.response_model
      | none => state.response_model }

def noteFinish (choice : Json) (state : StreamingState) : StreamingState :=
  match (choice.get "finish_reason").bind Json.asStr with
  | none => state
  | some reason =>
    { state with
      stop_reason := (map_stop_reason reason).1
      error_message := (map_stop_reason reason).2.or state.error_message }

def firstChoice (chunk : Json) : Option Json :=
  (items (chunk.get "choices")).head?

def deltaOf (chunk : Json) : Option Json :=
  ((firstChoice chunk).bind (Json.get "delta")).filter Json.isObject

def handle_chunk (env : Env) (state : StreamingState) (chunk : Json) : StreamingState :=
  if chunk.isObject then
    let noted := noteChunk env chunk state
    match firstChoice chunk with
    | none => noted
    | some choice =>
      match deltaOf chunk with
      | none => noteFinish choice noted
      | some delta => handle_delta env delta (noteFinish choice noted)
  else state

def REASONING_DETAILS_SIGNATURE_TYPE : String := "openai-completions.reasoning_details.v1"

def encode_reasoning_details_signature (env : Env) (state : StreamingState) : StreamingState :=
  match state.reasoning_details_block with
  | none => state
  | some position =>
    let sorted := state.reasoning_details_by_index.mergeSort (fun detail other => detail.1 ≤ other.1)
    let signature := env.print (.object [("type", .string REASONING_DETAILS_SIGNATURE_TYPE),
      ("details", .array (sorted.map fun detail => .object detail.2))])
    state.modify position fun
      | .thinking content => .thinking { content with thinkingSignature := some signature }
      | block => block

def finish_block (env : Env) (state : StreamingState) (position : Nat) : StreamingState :=
  match state.content[position]? with
  | none => state
  | some (.text content) => state.push (.textEnd position content.text)
  | some (.thinking content) => state.push (.thinkingEnd position content.thinking)
  | some (.toolCall call) =>
    let parsed := ((state.tool_call_partial_args.lookup position).map fun scratch =>
      env.parser.parse scratch.text).getD (.object [])
    let ended := { call with arguments := objectOrEmpty parsed }
    push (.toolcallEnd position ended)
      { state with
        tool_call_partial_args := state.tool_call_partial_args.filter (·.1 ≠ position)
        content := state.content.set position (.toolCall ended) }

def finish_blocks (env : Env) (state : StreamingState) : StreamingState :=
  (List.range state.content.length).foldl (finish_block env) state

def stream (env : Env) (chunks : List Json) : StreamingState :=
  finish_blocks env (encode_reasoning_details_signature env (chunks.foldl (handle_chunk env) .initial))

end PrimeAgent.Provider.Completions
