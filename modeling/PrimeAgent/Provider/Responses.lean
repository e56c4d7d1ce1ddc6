import PrimeAgent.Provider.Events

/-! # The OpenAI responses stream

`handle_event` of the `ResponsesStreamProcessor`. An output item that is being streamed has a slot under
its output index, an event without an index goes to the index last named. Token usage and prices are
left out, and of a failure the kind, which is read off its error type.
-/
namespace PrimeAgent.Provider.Responses

/-- `parser` reads tool arguments, `print` and `read` are the text of a JSON value and back. -/
structure Env where
  parser : StreamingParser
  print : Json → String
  read : String → Option Json
  provider : String

/-- One output item: its object kept for replay, the scratch of its arguments, and its block. -/
structure Slot where
  item : Json
  partial_json : StreamingJsonAccumulator
  content_index : Nat
deriving DecidableEq

structure StreamFailure where
  message : String
  provider_error_type : Option String
deriving DecidableEq

structure Processor where
  content : List AssistantContentBlock
  slots : List (Nat × Slot)
  current_output_index : Option Nat
  saw_terminal_response : Bool
  response_id : Option String
  stop_reason : StopReason
  stop_reason_raw : Option String
  pushed : List Pushed

inductive Handled where
  | ok (processor : Processor)
  | failed (processor : Processor) (error : StreamFailure)
  | panicked

def Handled.ofOption : Option Processor → Handled
  | some processor => .ok processor
  | none => .panicked

def isText : AssistantContentBlock → Bool
  | .text _ => true
  | _ => false

def isThinking : AssistantContentBlock → Bool
  | .thinking _ => true
  | _ => false

def isCall : AssistantContentBlock → Bool
  | .toolCall _ => true
  | _ => false

namespace Processor

def initial : Processor :=
  { content := [], slots := [], current_output_index := none, saw_terminal_response := false
    response_id := none, stop_reason := .stop, stop_reason_raw := none, pushed := [] }

def push (event : List AssistantContentBlock → Pushed) (processor : Processor) : Processor :=
  { processor with pushed := processor.pushed ++ [event processor.content] }

def modify (position : Nat) (change : AssistantContentBlock → AssistantContentBlock) (processor : Processor) :
    Processor :=
  { processor with content := processor.content.modify position change }

/-- `slots.insert(index, slot)`. -/
def setSlot (index : Nat) (slot : Slot) (processor : Processor) : Processor :=
  { processor with slots := (index, slot) :: processor.slots.filter (·.1 ≠ index) }

/-- `slots.remove(&index)`. -/
def removeSlot (index : Nat) (processor : Processor) : Processor :=
  { processor with slots := processor.slots.filter (·.1 ≠ index) }

def current_slot (output_index : Option Nat) (processor : Processor) : Option (Nat × Slot) :=
  (output_index.or processor.current_output_index).bind fun index =>
    (processor.slots.lookup index).map fun slot => (index, slot)

def holds (kind : AssistantContentBlock → Bool) (position : Nat) (processor : Processor) : Bool :=
  processor.content[position]?.any kind

end Processor

open Processor

def outputIndex (event : Json) : Option Nat :=
  (event.get "output_index").bind Json.asU64

def itemOf (event : Json) : Json :=
  (event.get "item").getD .null

def noteIndex (event : Json) (processor : Processor) : Processor :=
  if (event.get "output_index").isSome then { processor with current_output_index := outputIndex event }
  else processor

def callOf (item : Json) (arguments : JsonMap) : ToolCall :=
  { id := strField "call_id" item ++ "|" ++ strField "id" item
    name := strField "name" item, arguments, thoughtSignature := none }

def newBlock (item : Json) :
    Option (AssistantContentBlock × (Nat → List AssistantContentBlock → Pushed) × StreamingJsonAccumulator) :=
  match typeOf item with
  | "reasoning" => some (.thinking ⟨"", none, none⟩, .thinkingStart, .default)
  | "message" => some (.text ⟨"", none⟩, .textStart, .default)
  | "function_call" => some (.toolCall (callOf item []), .toolcallStart, .new (strField "arguments" item))
  | _ => none

def output_item_added (output_index : Option Nat) (item : Json) (processor : Processor) : Processor :=
  match newBlock item with
  | none => processor
  | some (block, announce, scratch) =>
    let opened := push (announce processor.content.length) { processor with content := processor.content ++ [block] }
    match output_index with
    | some index => opened.setSlot index ⟨item, scratch, processor.content.length⟩
    | none => opened

/-- `entry(key).or_insert_with(|| json!([]))`, and what an array there becomes; `none` where the item
is no object. -/
def changeParts (key : String) (change : List Json → List Json) : Json → Option Json
  | .object members =>
    match members.lookup key with
    | none => some (.object (JsonMap.set key (.array (change [])) members))
    | some (.array parts) => some (.object (JsonMap.set key (.array (change parts)) members))
    | some _ => some (.object members)
  | _ => none

def lastPart (key : String) (item : Json) : Option Json :=
  match item.get key with
  | some (.array parts) => parts.getLast?
  | _ => none

def setLast (part : Json) (parts : List Json) : List Json :=
  parts.dropLast ++ [part]

def extend (field text : String) : Json → Option Json
  | .object members =>
    match members.lookup field with
    | some (.string held) => some (.object (JsonMap.set field (.string (held ++ text)) members))
    | _ => none
  | _ => none

def addPart (type key : String) (output_index : Option Nat) (part : Json) (processor : Processor) :
    Option Processor :=
  match processor.current_slot output_index with
  | none => some processor
  | some (index, slot) =>
    if (slot.item.get "type").bind Json.asStr = some type then
      (changeParts key (· ++ [part]) slot.item).map fun item => processor.setSlot index { slot with item }
    else some processor

def content_part_added (output_index : Option Nat) (part : Option Json) (processor : Processor) : Option Processor :=
  let part_type := (part.map typeOf).getD ""
  if part_type = "output_text" ∨ part_type = "refusal" then
    addPart "message" "content" output_index (part.getD .null) processor
  else some processor

/-- `none` where the last part of the summary is no object. -/
def reasoning_summary_text_delta (output_index : Option Nat) (delta : String) (processor : Processor) :
    Option Processor :=
  match processor.current_slot output_index with
  | none => some processor
  | some (index, slot) =>
    if processor.holds isThinking slot.content_index then
      match lastPart "summary" slot.item with
      | none => some processor
      | some part =>
        if part.isObject then
          match extend "text" delta part with
          | none => some processor
          | some grown =>
            (changeParts "summary" (setLast grown) slot.item).map fun item =>
              push (.thinkingDelta slot.content_index delta)
                (Processor.modify slot.content_index (pushThinking delta) (processor.setSlot index { slot with item }))
        else none
    else some processor

def extendLast (field text : String) (parts : List Json) : List Json :=
  match parts.getLast?.bind (extend field text) with
  | some grown => setLast grown parts
  | none => parts

def PART_BREAK : String := "\n\n"

def reasoning_summary_part_done (output_index : Option Nat) (processor : Processor) : Option Processor :=
  match processor.current_slot output_index with
  | none => some processor
  | some (index, slot) =>
    if processor.holds isThinking slot.content_index then
      (changeParts "summary" (extendLast "text" PART_BREAK) slot.item).map fun item =>
        push (.thinkingDelta slot.content_index PART_BREAK)
          (Processor.modify slot.content_index (pushThinking PART_BREAK) (processor.setSlot index { slot with item }))
    else some processor

def reasoning_text_delta (output_index : Option Nat) (delta : String) (processor : Processor) : Processor :=
  match processor.current_slot output_index with
  | none => processor
  | some (_, slot) =>
    if processor.holds isThinking slot.content_index then
      push (.thinkingDelta slot.content_index delta) (Processor.modify slot.content_index (pushThinking delta) processor)
    else processor

/-- `output_text.delta` and `refusal.delta`: the last part has to be of the type and to hold the field. -/
def partDelta (type field : String) (output_index : Option Nat) (delta : String) (processor : Processor) :
    Processor :=
  match processor.current_slot output_index with
  | none => processor
  | some (index, slot) =>
    if processor.holds isText slot.content_index then
      match (lastPart "content" slot.item).filter (fun part => typeOf part = type) |>.bind (extend field delta) with
      | none => processor
      | some grown =>
        let item := (changeParts "content" (setLast grown) slot.item).getD slot.item
        push (.textDelta slot.content_index delta)
          (Processor.modify slot.content_index (pushText delta) (processor.setSlot index { slot with item }))
    else processor

def output_text_delta (output_index : Option Nat) (delta : String) (processor : Processor) : Processor :=
  partDelta "output_text" "text" output_index delta processor

def refusal_delta (output_index : Option Nat) (delta : String) (processor : Processor) : Processor :=
  partDelta "refusal" "refusal" output_index delta processor

def function_call_arguments_delta (env : Env) (output_index : Option Nat) (delta : String)
    (processor : Processor) : Processor :=
  match processor.current_slot output_index with
  | none => processor
  | some (index, slot) =>
    if processor.holds isCall slot.content_index then
      let appended := slot.partial_json.append env.parser delta
      push (.toolcallDelta slot.content_index delta)
        (Processor.modify slot.content_index (setArguments appended.1)
          (processor.setSlot index { slot with partial_json := appended.2 }))
    else processor

/-- `text.strip_prefix(head)`. -/
def stripHead (head text : String) : Option String :=
  (text.toList.dropPrefix? head.toList).map String.ofList

def function_call_arguments_done (env : Env) (output_index : Option Nat) (arguments : String)
    (processor : Processor) : Processor :=
  match processor.current_slot output_index with
  | none => processor
  | some (index, slot) =>
    if processor.holds isCall slot.content_index then
      let told := Processor.modify slot.content_index (setArguments (some (env.parser.parse arguments)))
        (processor.setSlot index { slot with partial_json := .new arguments })
      match stripHead slot.partial_json.text arguments with
      | some delta => if delta = "" then told else push (.toolcallDelta slot.content_index delta) told
      | none => told
    else processor

/-- `filter_map(part.text)` joined with blank lines; empty where the member is no array. -/
def partTexts (key : String) (item : Json) : String :=
  match item.get key with
  | some (.array parts) => PART_BREAK.intercalate (parts.filterMap fun part => (part.get "text").bind Json.asStr)
  | _ => ""

def finalThinking (item : Json) (thinking : String) : String :=
  if partTexts "summary" item ≠ "" then partTexts "summary" item
  else if partTexts "content" item ≠ "" then partTexts "content" item
  else thinking

def partText (part : Json) : String :=
  if typeOf part = "output_text" then strField "text" part else strField "refusal" part

def messageText (item : Json) : String :=
  match item.get "content" with
  | some (.array parts) => joined (parts.map partText)
  | _ => ""

def phaseOf (item : Json) : Option String :=
  match (item.get "phase").bind Json.asStr with
  | some "commentary" => some "commentary"
  | some "final_answer" => some "final_answer"
  | _ => none

def encode_text_signature_v1 (env : Env) (id : String) (phase : Option String) : String :=
  env.print (.object ([("v", .number (.posInt 1)), ("id", .string id)] ++
    (phase.map fun phase => ("phase", Json.string phase)).toList))

def argumentsText (item : Json) (scratch : String) : String :=
  if strField "arguments" item = "" then scratch else strField "arguments" item

def finalArguments (env : Env) (text : String) : JsonMap :=
  if text = "" then [] else objectOrEmpty (env.parser.parse text)

def thinkingDone (env : Env) (item : Json) (position : Nat) (processor : Processor) : Processor :=
  match processor.content[position]? with
  | some (.thinking content) =>
    let thinking := finalThinking item content.thinking
    let signed := { content with thinking, thinkingSignature := some (env.print item) }
    push (.thinkingEnd position thinking) { processor with content := processor.content.set position (.thinking signed) }
  | _ => processor

def textDone (env : Env) (item : Json) (position : Nat) (processor : Processor) : Processor :=
  match processor.content[position]? with
  | some (.text content) =>
    let text := messageText item
    let signature := encode_text_signature_v1 env (strField "id" item) (phaseOf item)
    let signed := { content with text, textSignature := some signature }
    push (.textEnd position text) { processor with content := processor.content.set position (.text signed) }
  | _ => processor

def callDone (env : Env) (output_index : Option Nat) (item : Json) (position : Nat) (processor : Processor) :
    Processor :=
  if processor.holds isCall position then
    let scratch := ((processor.slots.lookup (output_index.getD 0)).map fun slot => slot.partial_json.text).getD ""
    let call := callOf item (finalArguments env (argumentsText item scratch))
    push (.toolcallEnd position call) { processor with content := processor.content.set position (.toolCall call) }
  else
    let text := ((item.get "arguments").bind Json.asStr).getD "\x7b\x7d"
    let call := callOf item (objectOrEmpty (env.parser.parse text))
    push (.toolcallEnd processor.content.length call)
      { processor with content := processor.content ++ [.toolCall call] }

def output_item_done (env : Env) (output_index : Option Nat) (item : Json) (processor : Processor) : Processor :=
  let retired := match output_index with
    | some index => processor.removeSlot index
    | none => processor
  match retired.current_slot output_index with
  | none => retired
  | some (_, slot) =>
    match typeOf item with
    | "reasoning" => thinkingDone env item slot.content_index retired
    | "message" => textDone env item slot.content_index retired
    | "function_call" => callDone env output_index item slot.content_index retired
    | _ => retired

def mergeEncrypted (env : Env) (item : Json) : AssistantContentBlock → AssistantContentBlock
  | .thinking content =>
    match item.get "encrypted_content", content.thinkingSignature.bind env.read with
    | some encrypted, some stored =>
      if encrypted ≠ .null ∧ (stored.get "id").bind Json.asStr = some (strField "id" item) ∧
          stored.get "encrypted_content" = none then
        .thinking { content with thinkingSignature := some (env.print (match stored with
          | .object members => .object (JsonMap.set "encrypted_content" encrypted members)
          | value => value)) }
      else .thinking content
    | _, _ => .thinking content
  | block => block

def mergeResponse (env : Env) (response : Json) (content : List AssistantContentBlock) :
    List AssistantContentBlock :=
  match response.get "output" with
  | some (.array items) =>
    if env.provider = "xai" then
      (items.filter fun item => typeOf item = "reasoning").foldl
        (fun content item => content.map (mergeEncrypted env item)) content
    else content
  | _ => content

def map_responses_stop_reason : Option String → StopReason
  | none | some "completed" | some "in_progress" | some "queued" => .stop
  | some "incomplete" => .length
  | some _ => .error

def response_completed (env : Env) (response : Json) (processor : Processor) : Processor :=
  let status := (response.get "status").bind Json.asStr
  let content := mergeResponse env response processor.content
  let mapped := map_responses_stop_reason status
  let stop_reason := if content.any isCall ∧ mapped = .stop then .toolUse else mapped
  { processor with
    saw_terminal_response := true
    content
    response_id := ((response.get "id").bind Json.asStr).or processor.response_id
    stop_reason
    stop_reason_raw := if stop_reason = .error then status.or processor.stop_reason_raw else processor.stop_reason_raw }

def errorOf (event : Json) : StreamFailure :=
  let code := (event.get "code").bind Json.asStr
  { message := "Error Code " ++ code.getD "" ++ ": " ++ strField "message" event, provider_error_type := code }

def failureOf (response : Json) : StreamFailure :=
  let error := response.get "error"
  let reason := ((response.get "incomplete_details").bind (Json.get "reason")).bind Json.asStr
  let field (key : String) := (error.bind (Json.get key)).bind Json.asStr
  { message := match error, reason with
      | some _, _ => (field "code").getD "unknown" ++ ": " ++ (field "message").getD "no message"
      | none, some reason => "incomplete: " ++ reason
      | none, none => "Unknown error (no error details in response)"
    provider_error_type := (field "code").or reason }

def handle_event (env : Env) (event : Json) (processor : Processor) : Handled :=
  let output_index := outputIndex event
  let delta := strField "delta" event
  let noted := noteIndex event processor
  match typeOf event with
  | "response.created" =>
    .ok { noted with
      response_id := (((event.get "response").bind (Json.get "id")).bind Json.asStr).or noted.response_id }
  | "response.output_item.added" => .ok (output_item_added output_index (itemOf event) noted)
  | "response.reasoning_summary_part.added" =>
    .ofOption (addPart "reasoning" "summary" output_index ((event.get "part").getD .null) noted)
  | "response.reasoning_summary_text.delta" => .ofOption (reasoning_summary_text_delta output_index delta noted)
  | "response.reasoning_summary_part.done" => .ofOption (reasoning_summary_part_done output_index noted)
  | "response.reasoning_text.delta" => .ok (reasoning_text_delta output_index delta noted)
  | "response.content_part.added" => .ofOption (content_part_added output_index (event.get "part") noted)
  | "response.output_text.delta" => .ok (output_text_delta output_index delta noted)
  | "response.refusal.delta" => .ok (refusal_delta output_index delta noted)
  | "response.function_call_arguments.delta" => .ok (function_call_arguments_delta env output_index delta noted)
  | "response.function_call_arguments.done" =>
    .ok (function_call_arguments_done env output_index (strField "arguments" event) noted)
  | "response.output_item.done" => .ok (output_item_done env output_index (itemOf event) noted)
  | "response.completed" | "response.incomplete" =>
    .ok (response_completed env ((event.get "response").getD .null) noted)
  | "error" => .failed noted (errorOf event)
  | "response.failed" => .failed noted (failureOf ((event.get "response").getD .null))
  | _ => .ok noted

def settleSlot (env : Env) (content : List AssistantContentBlock) (slot : Slot) : List AssistantContentBlock :=
  content.modify slot.content_index (setArguments (slot.partial_json.flush env.parser))

def settle_partial_tool_calls (env : Env) (processor : Processor) : List AssistantContentBlock :=
  (processor.slots.map Prod.snd).foldl (settleSlot env) processor.content

end PrimeAgent.Provider.Responses
