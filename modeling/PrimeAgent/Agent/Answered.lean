import PrimeAgent.Agent.Types

/-! # Transcripts whose tool calls are answered

After an assistant message come the results of its calls, before anything else. The law leaves out the messages that
prompts, queues and the continuation hook have handed to the run, which may be any.
-/
namespace PrimeAgent.Agent

def AssistantMessage.Stopped (message : AssistantMessage) : Prop :=
  message.stopReason = .error ∨ message.stopReason = .aborted

def StartsAnew (Handed : AgentMessage → Prop) (messages : List AgentMessage) : Prop :=
  ∀ result, messages.head? = some (.toolResult result) → Handed (.toolResult result)

/-- Each response is followed by one result for each of its calls, in their order, and by no other result. One that is
`Cut` may lack results, and is last. -/
def CallsAnswered (Handed : AgentMessage → Prop) (Cut : AssistantMessage → Prop) (messages : List AgentMessage) :
    Prop :=
  ∀ front message back, messages = front ++ .assistant message :: back → ¬message.Stopped →
    ¬Handed (.assistant message) → ∃ (results : List ToolResultMessage) (rest : List AgentMessage),
      back = results.map .toolResult ++ rest ∧ StartsAnew Handed rest ∧
      (results.map (·.toolCallId) = message.toolCalls.map (·.id) ∨
        rest = [] ∧ results.map (·.toolCallId) <+: message.toolCalls.map (·.id) ∧ Cut message)

section Answered

variable {Handed : AgentMessage → Prop} {Cut : AssistantMessage → Prop} {messages others : List AgentMessage}
  {message : AssistantMessage}

theorem callsAnswered_append (hFirst : CallsAnswered Handed (fun _ => False) messages)
    (hRest : CallsAnswered Handed Cut others) (hAnew : StartsAnew Handed others) :
    CallsAnswered Handed Cut (messages ++ others) := by
  intro front message back hSplit hGoesOn hOwn
  obtain ⟨later, hFront, hOthers⟩ | ⟨later, hMessages, hBack⟩ := List.append_eq_append_iff.mp hSplit
  · exact hRest later message back hOthers hGoesOn hOwn
  · cases later with
    | nil =>
      rw [List.nil_append] at hBack
      exact hRest [] message back hBack.symm hGoesOn hOwn
    | cons first later =>
      obtain ⟨rfl, rfl⟩ := List.cons.inj hBack
      obtain ⟨results, rest, rfl, hStarts, hAnswered | ⟨-, -, hCut⟩⟩ :=
        hFirst front message later hMessages hGoesOn hOwn
      · refine ⟨results, rest ++ others, List.append_assoc _ _ _, ?_, .inl hAnswered⟩
        cases rest with
        | nil => exact hAnew
        | cons next rest => exact hStarts
      · exact hCut.elim

theorem callsAnswered_nil : CallsAnswered Handed Cut [] := by
  intro front message back hSplit
  cases front <;> cases hSplit

theorem callsAnswered_handed (hHanded : ∀ message ∈ messages, Handed message) :
    CallsAnswered Handed Cut messages := by
  intro front message back hSplit _ hOwn
  exact absurd (hHanded _ (by rw [hSplit]; simp)) hOwn

theorem startsAnew_handed (hHanded : ∀ message ∈ messages, Handed message) : StartsAnew Handed messages :=
  fun _ hHead => hHanded _ (List.mem_of_mem_head? hHead)

theorem startsAnew_nil : StartsAnew Handed [] := by
  intro _ hHead
  cases hHead

theorem callsAnswered_stopped (hStopped : message.Stopped) :
    CallsAnswered Handed Cut [.assistant message] := by
  intro front other back hSplit hGoesOn
  cases front with
  | nil =>
    cases hSplit
    exact absurd hStopped hGoesOn
  | cons first front =>
    have hLength := congrArg List.length hSplit
    simp at hLength

theorem callsAnswered_response {results : List ToolResultMessage}
    (hOrdered : results.map (·.toolCallId) <+: message.toolCalls.map (·.id))
    (hComplete : results.map (·.toolCallId) = message.toolCalls.map (·.id) ∨ Cut message) :
    CallsAnswered Handed Cut (.assistant message :: results.map .toolResult) := by
  intro front other back hSplit _ _
  cases front with
  | nil =>
    cases hSplit
    refine ⟨results, [], (List.append_nil _).symm, startsAnew_nil, ?_⟩
    exact hComplete.imp id fun hCut => ⟨rfl, hOrdered, hCut⟩
  | cons first front =>
    have hMem : .assistant other ∈ results.map AgentMessage.toolResult := by
      rw [(List.cons.inj hSplit).2]
      simp
    obtain ⟨result, -, hResult⟩ := List.mem_map.mp hMem
    cases hResult

theorem startsAnew_assistant : StartsAnew Handed (.assistant message :: messages) := by
  intro _ hHead
  cases hHead

theorem CallsAnswered.mono {Handed' : AgentMessage → Prop} {Cut' : AssistantMessage → Prop}
    (hAnswered : CallsAnswered Handed Cut messages)
    (hAssistant : ∀ message, Handed (.assistant message) → Handed' (.assistant message))
    (hResult : ∀ result, Handed (.toolResult result) → Handed' (.toolResult result))
    (hCut : ∀ message, Cut message → Cut' message) : CallsAnswered Handed' Cut' messages := by
  intro front message back hSplit hGoesOn hOwn
  obtain ⟨results, rest, hBack, hAnew, hIds⟩ :=
    hAnswered front message back hSplit hGoesOn fun hHanded => hOwn (hAssistant _ hHanded)
  refine ⟨results, rest, hBack, fun result hHead => hResult _ (hAnew result hHead), ?_⟩
  exact hIds.imp id fun ⟨hLast, hOrdered, hWasCut⟩ => ⟨hLast, hOrdered, hCut _ hWasCut⟩

end Answered

end PrimeAgent.Agent
