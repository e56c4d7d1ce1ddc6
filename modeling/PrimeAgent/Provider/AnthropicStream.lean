import PrimeAgent.Provider.Events

/-! # The Anthropic stream

`handle_event` of `stream_anthropic` and what `run_stream` does when the stream ends. The blocks of the
message stand beside two parallel lists, the wire index of each and its tool-argument scratch. Costs
are left out.
-/
namespace PrimeAgent.Provider.Anthropic

/-- The `delta` of a `content_block_delta`. -/
inductive Delta where
  | text (text : String)
  | thinking (thinking : String)
  | inputJson (fragment : String)
  | signature (signature : String)
  | other
deriving DecidableEq

def Delta.of (delta : Json) : Delta :=
  match typeOf delta with
  | "text_delta" => .text (strField "text" delta)
  | "thinking_delta" => .thinking (strField "thinking" delta)
  | "input_json_delta" => .inputJson (strField "partial_json" delta)
  | "signature_delta" => .signature (strField "signature" delta)
  | _ => .other

inductive Wire where
  | message_start (event : Json)
  | content_block_start (index : Nat) (block : Json)
  | content_block_delta (index : Nat) (delta : Delta)
  | content_block_stop (index : Nat)
  | message_delta (event : Json)
  | message_stop
  | other

def Wire.of (event : Json) : Wire :=
  match typeOf event with
  | "message_start" => .message_start event
  | "content_block_start" => .content_block_start (u64Field "index" event) ((event.get "content_block").getD .null)
  | "content_block_delta" =>
    .content_block_delta (u64Field "index" event) (.of ((event.get "delta").getD .null))
  | "content_block_stop" => .content_block_stop (u64Field "index" event)
  | "message_delta" => .message_delta event
  | "message_stop" => .message_stop
  | _ => .other

structure TokenUsage where
  input : Nat
  output : Nat
  cache_read : Nat
  cache_write : Nat
  total_tokens : Nat
deriving DecidableEq

/-- `parser` reads tool arguments, `tools` names the tools an OAuth caller may have renamed, and
`overflow_checks` says whether the build panics where a sum passes `u64`. -/
structure Env where
  parser : StreamingParser
  is_oauth : Bool
  tools : Option (List String)
  overflow_checks : Bool

structure StreamState where
  content : List AssistantContentBlock
  indices : List Nat
  partial_json : List StreamingJsonAccumulator
  usage : TokenUsage
  response_id : Option String
  stop_reason : StopReason
  stop_reason_raw : Option String
  saw_message_start : Bool
  saw_message_end : Bool
  pushed : List Pushed

namespace StreamState

def initial : StreamState :=
  { content := [], indices := [], partial_json := [], usage := ⟨0, 0, 0, 0, 0⟩, response_id := none
    stop_reason := .stop, stop_reason_raw := none, saw_message_start := false, saw_message_end := false
    pushed := [] }

def push (event : List AssistantContentBlock → Pushed) (state : StreamState) : StreamState :=
  { state with pushed := state.pushed ++ [event state.content] }

def position (state : StreamState) (index : Nat) : Option Nat :=
  state.indices.findIdx? (· == index)

end StreamState

def eqIgnoreAsciiCase (text other : String) : Bool :=
  text.toList.map Char.toLower == other.toList.map Char.toLower

def from_claude_code_name (name : String) (tools : Option (List String)) : String :=
  ((tools.getD []).find? (eqIgnoreAsciiCase · name)).getD name

/-- The block a `content_block_start` opens, with the event that announces it. -/
def newBlock (env : Env) (block : Json) :
    Option (AssistantContentBlock × (Nat → List AssistantContentBlock → Pushed)) :=
  match typeOf block with
  | "text" => some (.text ⟨"", none⟩, .textStart)
  | "thinking" => some (.thinking ⟨"", some "", none⟩, .thinkingStart)
  | "redacted_thinking" =>
    some (.thinking ⟨"[Reasoning redacted]", some (strField "data" block), some true⟩, .thinkingStart)
  | "tool_use" =>
    let name := strField "name" block
    some (.toolCall
      { id := strField "id" block
        name := if env.is_oauth then from_claude_code_name name env.tools else name
        arguments := ((block.get "input").map objectOrEmpty).getD []
        thoughtSignature := none }, .toolcallStart)
  | _ => none

def content_block_start (env : Env) (index : Nat) (block : Json) (state : StreamState) : StreamState :=
  match newBlock env block with
  | none => state
  | some (opened, announce) =>
    StreamState.push (announce state.content.length)
      { state with
        content := state.content ++ [opened]
        indices := state.indices ++ [index]
        partial_json := state.partial_json ++ [.default] }

def content_block_delta (env : Env) (position : Nat) (delta : Delta) (state : StreamState) : StreamState :=
  match delta with
  | .text text =>
    StreamState.push (.textDelta position text)
      { state with content := state.content.modify position (pushText text) }
  | .thinking thinking =>
    StreamState.push (.thinkingDelta position thinking)
      { state with content := state.content.modify position (pushThinking thinking) }
  | .inputJson fragment =>
    let appended := state.partial_json[position]?.map (StreamingJsonAccumulator.append env.parser fragment)
    StreamState.push (.toolcallDelta position fragment)
      { state with
        partial_json := match appended with
          | some scratch => state.partial_json.set position scratch.2
          | none => state.partial_json
        content := state.content.modify position (setArguments (appended.bind Prod.fst)) }
  | .signature signature => { state with content := state.content.modify position (pushSignature signature) }
  | .other => state

/-- `none` is the panic of `output.content[position]`. -/
def content_block_stop (env : Env) (position : Nat) (state : StreamState) : Option StreamState :=
  match state.content[position]? with
  | none => none
  | some (.text content) => some (state.push (.textEnd position content.text))
  | some (.thinking content) => some (state.push (.thinkingEnd position content.thinking))
  | some (.toolCall call) =>
    let parsed := (state.partial_json[position]?.map fun scratch => env.parser.parse scratch.text).getD (.object [])
    let ended := { call with arguments := objectOrEmpty parsed }
    some (StreamState.push (.toolcallEnd position ended)
      { state with content := state.content.set position (.toolCall ended) })

def TokenUsage.sum (usage : TokenUsage) : Nat :=
  usage.input + usage.output + usage.cache_read + usage.cache_write

/-- `usage_total_tokens`; `none` is the panic of a sum past `u64`. -/
def withTotal (env : Env) (usage : TokenUsage) : Option TokenUsage :=
  if env.overflow_checks ∧ 2 ^ 64 ≤ usage.sum then none
  else some { usage with total_tokens := usage.sum % 2 ^ 64 }

def startUsage (message : Json) (usage : TokenUsage) : TokenUsage :=
  { usage with
    input := u64Field "input_tokens" message
    output := u64Field "output_tokens" message
    cache_read := u64Field "cache_read_input_tokens" message
    cache_write := u64Field "cache_creation_input_tokens" message }

def deltaUsage (reported : Json) (usage : TokenUsage) : TokenUsage :=
  let read (key : String) (held : Nat) := ((reported.get key).bind Json.asU64).getD held
  { usage with
    input := read "input_tokens" usage.input
    output := read "output_tokens" usage.output
    cache_read := read "cache_read_input_tokens" usage.cache_read
    cache_write := read "cache_creation_input_tokens" usage.cache_write }

def map_stop_reason : String → Except String StopReason
  | "end_turn" | "pause_turn" | "stop_sequence" => .ok .stop
  | "max_tokens" => .ok .length
  | "tool_use" => .ok .toolUse
  | "refusal" | "sensitive" => .ok .error
  | reason => .error ("Unhandled stop reason: " ++ reason)

inductive Handled where
  | ok (state : StreamState)
  | refused (state : StreamState) (message : String)
  | panicked

def Handled.ofOption : Option StreamState → Handled
  | some state => .ok state
  | none => .panicked

def message_start (env : Env) (event : Json) (state : StreamState) : Option StreamState :=
  let state := { state with saw_message_start := true }
  match event.get "message" with
  | none => some state
  | some message =>
    (withTotal env (startUsage message state.usage)).map fun usage =>
      { state with
        response_id := match (message.get "id").bind Json.asStr with
          | some id => some id
          | none => state.response_id
        usage := usage }

def applyStopReason (event : Json) (state : StreamState) : Except String StreamState :=
  match ((event.get "delta").bind (Json.get "stop_reason")).bind Json.asStr with
  | none => .ok state
  | some reason =>
    match map_stop_reason reason with
    | .error message => .error message
    | .ok mapped =>
      .ok { state with
        stop_reason := mapped
        stop_reason_raw := if mapped = .error then some reason else state.stop_reason_raw }

def applyUsage (env : Env) (event : Json) (state : StreamState) : Option StreamState :=
  match event.get "usage" with
  | none => some state
  | some reported =>
    (withTotal env (deltaUsage reported state.usage)).map fun usage => { state with usage := usage }

def message_delta (env : Env) (event : Json) (state : StreamState) : Handled :=
  match applyStopReason event state with
  | .error message => .refused state message
  | .ok stopped => .ofOption (applyUsage env event stopped)

def handle_event (env : Env) (state : StreamState) (event : Json) : Handled :=
  match Wire.of event with
  | .message_start event => .ofOption (message_start env event state)
  | .content_block_start index block => .ok (content_block_start env index block state)
  | .content_block_delta index delta =>
    match state.position index with
    | some position => .ok (content_block_delta env position delta state)
    | none => .ok state
  | .content_block_stop index =>
    match state.position index with
    | some position => .ofOption (content_block_stop env position state)
    | none => .ok state
  | .message_delta event => message_delta env event state
  | .message_stop => .ok { state with saw_message_end := true }
  | .other => .ok state

def Handled.next (env : Env) : Handled → Json → Handled
  | .ok state, event => handle_event env state event
  | ended, _ => ended

def handle_events (env : Env) (events : List Json) : Handled :=
  events.foldl (Handled.next env) (.ok .initial)

def settle_partial_tool_calls (env : Env) (state : StreamState) : List AssistantContentBlock :=
  state.content.mapIdx fun position block =>
    setArguments (state.partial_json[position]?.bind (StreamingJsonAccumulator.flush env.parser)) block

/-- The message the turn ends with: `done` is a successful turn. -/
inductive Final where
  | done (content : List AssistantContentBlock)
  | error (content : List AssistantContentBlock)
deriving DecidableEq

def Final.content : Final → List AssistantContentBlock
  | .done content | .error content => content

def abandon (env : Env) (state : StreamState) : Final :=
  .error (settle_partial_tool_calls env state)

def finish (env : Env) (cancelled : Bool) (state : StreamState) : Final :=
  if state.saw_message_start && !state.saw_message_end then abandon env state
  else if cancelled then abandon env state
  else if state.stop_reason = .aborted ∨ state.stop_reason = .error then abandon env state
  else .done state.content

end PrimeAgent.Provider.Anthropic
