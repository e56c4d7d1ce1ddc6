import PrimeAgent.Agent.State

/-! # Streaming one assistant response

`agent_loop/response.rs`. What the streaming writes as it goes is a value of its own here, since an abort finishes the
message from what has been written so far.
-/
namespace PrimeAgent.Agent

def eventPartial : AssistantMessageEvent → Option AssistantMessage
  | .start message | .textStart _ message | .textDelta _ _ message | .textEnd _ _ message
  | .thinkingStart _ message | .thinkingDelta _ _ message | .thinkingEnd _ message
  | .toolCallStart _ message | .toolCallDelta _ _ message | .toolCallEnd _ _ message => some message
  | _ => none

/-- The variables of `stream_assistant_response`. -/
structure Response where
  context : AgentContext
  partialEvent : Option AssistantMessageEvent
  addedPartial : Bool

namespace Response

/-- The context with the final message in the partial one's place, or after the others where there is none. -/
def settle (response : Response) (finalMessage : AssistantMessage) : AgentContext :=
  let messages := if response.addedPartial then response.context.messages.dropLast else response.context.messages
  { response.context with messages := messages ++ [.assistant finalMessage] }

end Response

/-- The final message takes its place in the context and is closed, and opened first if no partial one was. -/
def finishResponse (response : Response) (finalMessage : AssistantMessage) :
    Loop (AgentContext × AssistantMessage) := do
  (if response.addedPartial then pure () else emit (.messageStart (.assistant finalMessage)))
  emit (.messageEnd (.assistant finalMessage))
  pure (response.settle finalMessage, finalMessage)

def resolveApiKey (config : AgentLoopConfig) : Loop (Option String) :=
  if config.getApiKey then do
    let key ← raceWithAbort (.getApiKey config.model.provider)
    pure (key.or config.apiKey)
  else pure config.apiKey

def openResponse (config : AgentLoopConfig) (context : AgentContext) : Loop Unit := do
  throwIfAborted .response
  let messages ← (if config.transformContext then raceWithAbort (.transformContext context.messages)
    else pure context.messages)
  let llmMessages ← raceWithAbort (.convertToLlm messages)
  if !config.streamFn then
    .fail (.other ("No stream function provided; the agent loop requires a model stream function " ++
      "(pa-ai integration supplies the default)"))
  else
    let resolvedApiKey ← resolveApiKey config
    let llmContext : LlmContext :=
      { systemPrompt := some context.systemPrompt
        messages := llmMessages
        tools := context.tools.map fun tool => ⟨tool.name, tool.description, tool.parameters⟩ }
    raceWithAbort (.openStream config.model llmContext resolvedApiKey)

inductive Streamed where
  | ended (context : AgentContext) (message : AssistantMessage)
  | failed (response : Response) (error : AgentError)

def readResponse : (fuel : Nat) → Response → Loop Streamed
  | 0, _ => .spent
  | fuel + 1, response => do
    match ← ask (.race .nextEvent) with
    | .error error => do
      ask .closeStream
      pure (.failed response error)
    | .ok none =>
      -- The stream ended without a terminal event.
      match ← ask (.race .streamResult) with
      | .error error => pure (.failed response error)
      | .ok finalMessage => do
        let (context, message) ← finishResponse response finalMessage
        pure (.ended context message)
    | .ok (some event) =>
      match event with
      | .start message => do
        emit (.messageStart (.assistant message))
        let context := { response.context with messages := response.context.messages ++ [.assistant message] }
        readResponse fuel { context, partialEvent := some (.start message), addedPartial := true }
      | event =>
        if event.isDelta then
          match eventPartial event with
          | some message => do
            emit (.messageUpdate (.assistant message) event)
            readResponse fuel { response with partialEvent := some event }
          | none => readResponse fuel response
        else
          match event.terminalMessage with
          | some terminal => do
            match ← ask (.race .streamResult) with
            | .ok resultMessage => do
              let (context, message) ← finishResponse response resultMessage
              pure (.ended context message)
            | .error error => do
              if (← isAborted) && error.isAbortError then
                let (context, message) ← finishResponse response terminal
                pure (.ended context message)
              else pure (.failed response error)
          | none => readResponse fuel response

/-- `stream_assistant_response_inner`. -/
def streamAssistantResponseInner (fuel : Nat) (config : AgentLoopConfig) (response : Response) : Loop Streamed := do
  match ← (openResponse config response.context).attempt with
  | .error error => pure (.failed response error)
  | .ok _ => readResponse fuel response

def streamAssistantResponse (fuel : Nat) (config : AgentLoopConfig) (context : AgentContext) :
    Loop (AgentContext × AssistantMessage) := do
  match ← streamAssistantResponseInner fuel config { context, partialEvent := none, addedPartial := false } with
  | .ended context message => pure (context, message)
  | .failed response error =>
    if (← isAborted) && error.isAbortError then
      let finalMessage ← createAbortedAssistantMessage config (response.partialEvent.bind eventPartial)
      finishResponse response finalMessage
    else .fail error

end PrimeAgent.Agent
