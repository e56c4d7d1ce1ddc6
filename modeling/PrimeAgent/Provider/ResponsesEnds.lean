import Mathlib.Data.List.Induction
import PrimeAgent.Provider.Responses

/-! # The ends of the items of a responses stream

Where every item is added once and done once under its own output index, its block should end with its
done event. The done event retires the slot before it looks for the block, so none ever ends.
-/
namespace PrimeAgent.Provider.Responses

open Processor

def Handled.processor? : Handled → Option Processor
  | .ok processor | .failed processor _ => some processor
  | .panicked => none

def advance (env : Env) (reached : Option Processor) (event : Json) : Option Processor :=
  reached.bind fun processor => (handle_event env event processor).processor?

/-- The processor after some events; `none` where one of them panics. -/
def handle_events (env : Env) (events : List Json) : Option Processor :=
  events.foldl (advance env) (some .initial)

def adds (index : Nat) (event : Json) : Bool :=
  typeOf event == "response.output_item.added" && outputIndex event == some index

def dones (index : Nat) (event : Json) : Bool :=
  typeOf event == "response.output_item.done" && outputIndex event == some index

structure Orderly (events : List Json) : Prop where
  own_index : ∀ event ∈ events, typeOf event = "response.output_item.added" → (outputIndex event).isSome
  added_once : ∀ index, events.countP (adds index) ≤ 1
  done_once : ∀ index, events.countP (dones index) = events.countP (adds index)
  added_first : ∀ before event after index, events = before ++ event :: after → dones index event →
    ∃ added ∈ before, adds index added

def starts (event : Json) : Bool :=
  typeOf event == "response.output_item.added" && (newBlock (itemOf event)).isSome

def DELTA_TYPES : List String :=
  ["response.reasoning_summary_text.delta", "response.reasoning_summary_part.done",
    "response.reasoning_text.delta", "response.output_text.delta", "response.refusal.delta",
    "response.function_call_arguments.delta", "response.function_call_arguments.done"]

def carriesText (item : Json) : Bool :=
  match item.get "content" with
  | some (.array _) => true
  | _ => false

/-- What a block should be once its item is done; what the item does not carry stays as the deltas left it. -/
def finished (env : Env) (item : Json) (scratch : String) : AssistantContentBlock → AssistantContentBlock
  | .thinking content =>
    .thinking { content with
      thinking := finalThinking item content.thinking
      thinkingSignature := some (env.print item) }
  | .text content =>
    .text { content with
      text := if carriesText item then messageText item else content.text
      textSignature := some (encode_text_signature_v1 env (strField "id" item) (phaseOf item)) }
  | .toolCall _ => .toolCall (callOf item (finalArguments env (argumentsText item scratch)))

/-- The end of one item: `reached` is the processor its done event finds and `ended` the one it leaves. -/
structure Ends (env : Env) (index position : Nat) (done : Json) (reached ended final : Processor) : Prop where
  once : ∃ count, kindsAt position reached.pushed = .started :: List.replicate count .delta ∧
    kindsAt position ended.pushed = .started :: (List.replicate count .delta ++ [.ended])
  last : kindsAt position final.pushed = kindsAt position ended.pushed
  block : ∃ slot, reached.slots.lookup index = some slot ∧
    ended.content[position]? = reached.content[position]?.map (finished env (itemOf done) slot.partial_json.text)

def lastSnapshot (pushed : List Pushed) : List AssistantContentBlock :=
  (pushed.getLast?.map snapshotOf).getD []

structure Finished (env : Env) (events : List Json) (final : Processor) : Prop where
  ends : ∀ before added middle done after index, events = before ++ added :: (middle ++ done :: after) →
    adds index added → starts added → dones index done →
    ∃ opened reached ended, handle_events env before = some opened ∧
      handle_events env (before ++ added :: middle) = some reached ∧
      handle_events env (before ++ added :: middle ++ [done]) = some ended ∧
      Ends env index opened.content.length done reached ended final
  alone : ∀ before event after index reached next position, events = before ++ event :: after →
    typeOf event ∈ DELTA_TYPES → outputIndex event = some index →
    handle_events env before = some reached → handle_events env (before ++ [event]) = some next →
    next.content[position]? ≠ reached.content[position]? →
    ∃ earlier added rest, before = earlier ++ added :: rest ∧ adds index added ∧
      (handle_events env earlier).map (·.content.length) = some position
  told : lastSnapshot final.pushed = final.content ∧ settle_partial_tool_calls env final = final.content

def Handles (env : Env) (events : List Json) : Prop :=
  ∃ final, handle_events env events = some final ∧ Finished env events final

/-! ### The done event ends nothing -/

theorem handle_events_append (env : Env) (events : List Json) (event : Json) :
    handle_events env (events ++ [event]) = advance env (handle_events env events) event := by
  simp [handle_events]

theorem lookup_removed (index : Nat) (slots : List (Nat × Slot)) :
    (slots.filter (·.1 ≠ index)).lookup index = none := by
  rw [List.lookup_eq_none_iff]
  intro entry hEntry
  have hNe := (List.mem_filter.mp hEntry).2
  simp only [decide_eq_true_eq] at hNe
  simpa using fun hEq => hNe hEq.symm

theorem output_item_done_some (env : Env) (index : Nat) (item : Json) (processor : Processor) :
    output_item_done env (some index) item processor = processor.removeSlot index := by
  have hSlot : (processor.removeSlot index).current_slot (some index) = none := by
    rw [current_slot, Option.some_or, Option.bind_some, removeSlot, lookup_removed]
    rfl
  rw [output_item_done]
  simp only [hSlot]

variable {event : Json} {index : Nat} {events : List Json}

theorem handle_event_done (hDone : dones index event) (env : Env) (processor : Processor) :
    handle_event env event processor = .ok ((noteIndex event processor).removeSlot index) := by
  simp only [dones, Bool.and_eq_true, beq_iff_eq] at hDone
  rw [handle_event, hDone.1, hDone.2]
  simp only [output_item_done_some]

@[simp] theorem noteIndex_pushed (event : Json) (processor : Processor) :
    (noteIndex event processor).pushed = processor.pushed := by
  rw [noteIndex]
  split <;> rfl

theorem done_pushes_nothing (hDone : dones index event) {env : Env} {reached ended : Processor}
    (hEnded : advance env (some reached) event = some ended) :
    ended.pushed = reached.pushed := by
  rw [advance, Option.bind_some, handle_event_done hDone] at hEnded
  cases hEnded
  simp [removeSlot]

theorem not_finished {env : Env} {events before middle after : List Json} {added done : Json} {index : Nat}
    (hEvents : events = before ++ added :: (middle ++ done :: after)) (hAdds : adds index added)
    (hStarts : starts added) (hDone : dones index done) : ¬ Handles env events := by
  rintro ⟨final, -, hFinished⟩
  obtain ⟨opened, reached, ended, -, hReached, hEnded, hEnds⟩ :=
    hFinished.ends before added middle done after index hEvents hAdds hStarts hDone
  rw [handle_events_append, hReached] at hEnded
  obtain ⟨count, hBefore, hAfter⟩ := hEnds.once
  rw [done_pushes_nothing hDone hEnded, hBefore] at hAfter
  have hLength := congrArg List.length hAfter
  simp at hLength

/-! ### Where nothing is started -/

structure Idle (processor : Processor) : Prop where
  content : processor.content = []
  slots : processor.slots = []
  pushed : processor.pushed = []

namespace Idle

variable {env : Env} {event : Json} {processor after : Processor}

section

variable (hIdle : Idle processor)

include hIdle

theorem current_slot (output_index : Option Nat) :
    processor.current_slot output_index = none := by
  rw [Processor.current_slot, hIdle.slots]
  cases output_index.or processor.current_output_index <;> rfl

theorem noteIndex : Idle (noteIndex event processor) := by
  obtain ⟨hContent, hSlots, hPushed⟩ := hIdle
  rw [Responses.noteIndex]
  split
  · exact ⟨hContent, hSlots, hPushed⟩
  · exact ⟨hContent, hSlots, hPushed⟩

theorem output_item_done (output_index : Option Nat) (item : Json) :
    Idle (output_item_done env output_index item processor) := by
  cases output_index with
  | none =>
    simp only [Responses.output_item_done, hIdle.current_slot]
    exact hIdle
  | some index =>
    rw [output_item_done_some]
    exact ⟨hIdle.content, by simp [removeSlot, hIdle.slots], hIdle.pushed⟩

theorem response_completed (response : Json) :
    Idle (response_completed env response processor) := by
  refine ⟨?_, hIdle.slots, hIdle.pushed⟩
  have hMerged : ∀ items : List Json, (items.foldl (fun content item => content.map (mergeEncrypted env item)) []) = [] := by
    intro items
    induction items with
    | nil => rfl
    | cons item items ih => exact ih
  simp only [Responses.response_completed, mergeResponse, hIdle.content]
  split
  · split
    · exact hMerged _
    · rfl
  · rfl

theorem handle_event (hStarts : ¬ starts event) :
    ∃ after, (handle_event env event processor).processor? = some after ∧ Idle after := by
  have hNoted : Idle (Responses.noteIndex event processor) := hIdle.noteIndex
  have hSlot := hNoted.current_slot (outputIndex event)
  rw [Responses.handle_event]
  split
  case h_1 => exact ⟨_, rfl, hNoted.content, hNoted.slots, hNoted.pushed⟩
  case h_2 hType =>
    have hBlock : newBlock (itemOf event) = none := by
      simpa [starts, hType] using hStarts
    exact ⟨_, rfl, by simpa only [output_item_added, hBlock] using hNoted⟩
  case h_3 => exact ⟨_, by simp only [addPart, hSlot]; rfl, hNoted⟩
  case h_4 => exact ⟨_, by simp only [reasoning_summary_text_delta, hSlot]; rfl, hNoted⟩
  case h_5 => exact ⟨_, by simp only [reasoning_summary_part_done, hSlot]; rfl, hNoted⟩
  case h_6 => exact ⟨_, by simp only [reasoning_text_delta, hSlot]; rfl, hNoted⟩
  case h_7 => exact ⟨_, by simp only [content_part_added, addPart, hSlot, ite_self]; rfl, hNoted⟩
  case h_8 => exact ⟨_, by simp only [output_text_delta, partDelta, hSlot]; rfl, hNoted⟩
  case h_9 => exact ⟨_, by simp only [refusal_delta, partDelta, hSlot]; rfl, hNoted⟩
  case h_10 => exact ⟨_, by simp only [function_call_arguments_delta, hSlot]; rfl, hNoted⟩
  case h_11 => exact ⟨_, by simp only [function_call_arguments_done, hSlot]; rfl, hNoted⟩
  case h_12 => exact ⟨_, rfl, hNoted.output_item_done _ _⟩
  case h_13 => exact ⟨_, rfl, hNoted.response_completed _⟩
  case h_14 => exact ⟨_, rfl, hNoted.response_completed _⟩
  all_goals exact ⟨_, rfl, hNoted⟩

end

end Idle

theorem handle_events_idle (env : Env) (hStarts : ∀ event ∈ events, ¬ starts event) :
    ∃ final, handle_events env events = some final ∧ Idle final := by
  induction events using List.reverseRecOn with
  | nil => exact ⟨_, rfl, rfl, rfl, rfl⟩
  | append_singleton events event ih =>
    obtain ⟨reached, hReached, hIdle⟩ := ih fun other hOther => hStarts other (List.mem_append_left _ hOther)
    rw [handle_events_append, hReached]
    exact hIdle.handle_event (hStarts event (List.mem_append_right _ (List.mem_singleton.mpr rfl)))

theorem handles_of_idle (env : Env) (hStarts : ∀ event ∈ events, ¬ starts event) :
    Handles env events := by
  obtain ⟨final, hFinal, hIdle⟩ := handle_events_idle env hStarts
  refine ⟨final, hFinal, ?_, ?_, ?_⟩
  · intro before added middle done after index hEvents _ hAdded
    exact absurd hAdded (hStarts added (by simp [hEvents]))
  · intro before event after index reached next position hEvents _ _ hReached hNext hNe
    have hQuiet : ∀ other ∈ before ++ [event], ¬ starts other := by
      intro other hOther
      apply hStarts
      rw [hEvents, List.append_cons]
      exact List.mem_append_left _ hOther
    obtain ⟨_, hSame, hAfter⟩ := handle_events_idle env hQuiet
    obtain ⟨_, hSameBefore, hBefore⟩ := handle_events_idle env fun other hOther =>
      hQuiet other (List.mem_append_left _ hOther)
    cases hNext.symm.trans hSame
    cases hReached.symm.trans hSameBefore
    rw [hAfter.content, hBefore.content] at hNe
    exact absurd rfl hNe
  · simp [lastSnapshot, settle_partial_tool_calls, hIdle.content, hIdle.slots, hIdle.pushed]

/-! ### The items of an orderly stream -/

theorem Orderly.done_behind (hOrderly : Orderly events) {added : Json} (hMem : added ∈ events)
    (hAdds : adds index added) :
    ∃ before middle done after, events = before ++ added :: (middle ++ done :: after) ∧ dones index done := by
  have hCount : 0 < events.countP (dones index) := by
    rw [hOrderly.done_once]
    exact List.countP_pos_iff.mpr ⟨added, hMem, hAdds⟩
  obtain ⟨done, hDoneMem, hDone⟩ := List.countP_pos_iff.mp hCount
  obtain ⟨front, after, hFront⟩ := List.append_of_mem hDoneMem
  obtain ⟨first, hFirstMem, hFirst⟩ := hOrderly.added_first front done after index hFront hDone
  have hSame : first = added := by
    have hLength := hOrderly.added_once index
    rw [List.countP_eq_length_filter] at hLength
    have hFirstIn : first ∈ events.filter (adds index) :=
      List.mem_filter.mpr ⟨hFront ▸ List.mem_append_left _ hFirstMem, hFirst⟩
    have hAddedIn : added ∈ events.filter (adds index) := List.mem_filter.mpr ⟨hMem, hAdds⟩
    match hFilter : events.filter (adds index), hLength with
    | [], _ => simp [hFilter] at hAddedIn
    | [only], _ =>
      rw [hFilter, List.mem_singleton] at hFirstIn hAddedIn
      rw [hFirstIn, hAddedIn]
  obtain ⟨before, middle, hBefore⟩ := List.append_of_mem hFirstMem
  refine ⟨before, middle, done, after, ?_, hDone⟩
  rw [hFront, hBefore, hSame, List.append_assoc, List.cons_append]

theorem orderly_handles_iff (env : Env) {events : List Json} (hOrderly : Orderly events) :
    Handles env events ↔ ∀ event ∈ events, ¬ starts event := by
  constructor
  · intro hHandles event hMem hStarts
    have hType : typeOf event = "response.output_item.added" := by
      simp only [starts, Bool.and_eq_true, beq_iff_eq] at hStarts
      exact hStarts.1
    obtain ⟨index, hIndex⟩ := Option.isSome_iff_exists.mp (hOrderly.own_index event hMem hType)
    have hAdds : adds index event := by simp [adds, hType, hIndex]
    obtain ⟨before, middle, done, after, hEvents, hDone⟩ := hOrderly.done_behind hMem hAdds
    exact not_finished hEvents hAdds hStarts hDone hHandles
  · exact handles_of_idle env

/-! ### Streams of one item -/

def itemEvent (type : String) (item : Json) : Json :=
  .object [("type", .string type), ("output_index", .number (.posInt 0)), ("item", item)]

def itemStream (item : Json) : List Json :=
  [itemEvent "response.output_item.added" item, itemEvent "response.output_item.done" item]

theorem itemStream_orderly (item : Json) : Orderly (itemStream item) := by
  have hAdded (index : Nat) : adds index (itemEvent "response.output_item.added" item) = (0 == index) := rfl
  have hLater (index : Nat) : adds index (itemEvent "response.output_item.done" item) = false := rfl
  have hEarly (index : Nat) : dones index (itemEvent "response.output_item.added" item) = false := rfl
  have hDone (index : Nat) : dones index (itemEvent "response.output_item.done" item) = (0 == index) := rfl
  refine ⟨?_, ?_, ?_, ?_⟩
  · intro event hMem _
    simp only [itemStream, List.mem_cons, List.not_mem_nil, or_false] at hMem
    obtain rfl | rfl := hMem <;> rfl
  · intro index
    have hCount : (itemStream item).countP (adds index) = if 0 = index then 1 else 0 := by
      simp [itemStream, List.countP_cons, hAdded, hLater]
    rw [hCount]
    split <;> omega
  · intro index
    simp [itemStream, List.countP_cons, hAdded, hLater, hEarly, hDone]
  · intro before event after index hSplit hDones
    match before with
    | [] =>
      cases hSplit
      exact nomatch hDones
    | [first] =>
      cases hSplit
      exact ⟨_, List.mem_cons_self, by rwa [hDone, ← hAdded] at hDones⟩
    | _ :: _ :: rest =>
      have hLength := congrArg List.length hSplit
      simp only [itemStream, List.length_cons, List.length_nil, List.length_append] at hLength
      omega

def callItem : Json :=
  .object [("type", .string "function_call"), ("id", .string "item"), ("call_id", .string "call"),
    ("name", .string "read"), ("arguments", .string "[]")]

def searchItem : Json :=
  .object [("type", .string "web_search_call")]

def bareEnv : Env :=
  { parser := .bare, print := fun _ => "", read := fun _ => none, provider := "openai" }

theorem call_never_ends : Orderly (itemStream callItem) ∧ ¬ Handles bareEnv (itemStream callItem) ∧
    (handle_events bareEnv (itemStream callItem)).map (fun final => final.pushed.map Pushed.kind) = some [.started] := by
  have hNot : ¬ Handles bareEnv (itemStream callItem) :=
    @not_finished bareEnv (itemStream callItem) [] [] [] _ _ 0 rfl rfl rfl rfl
  exact ⟨itemStream_orderly callItem, hNot, rfl⟩

theorem search_handled : Handles bareEnv (itemStream searchItem) :=
  (orderly_handles_iff bareEnv (itemStream_orderly searchItem)).mpr (by decide)

end PrimeAgent.Provider.Responses
