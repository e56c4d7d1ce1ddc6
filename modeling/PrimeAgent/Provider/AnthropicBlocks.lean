import PrimeAgent.Provider.AnthropicStream
import Mathlib.Data.List.Induction

/-! # Blocks of the Anthropic stream

A slot is one content block by itself: the block its start opened and the operations that reached it.
The parallel lists of the stream hold, at each position, what its slot has come to.
-/
namespace PrimeAgent.Provider.Anthropic

structure Block where
  content : AssistantContentBlock
  scratch : StreamingJsonAccumulator

inductive BlockOp where
  | delta (delta : Delta)
  | stop
deriving DecidableEq

def Block.apply (env : Env) (block : Block) : BlockOp → Block
  | .delta (.text text) => { block with content := pushText text block.content }
  | .delta (.thinking thinking) => { block with content := pushThinking thinking block.content }
  | .delta (.inputJson fragment) =>
    ⟨setArguments (block.scratch.append env.parser fragment).1 block.content,
      (block.scratch.append env.parser fragment).2⟩
  | .delta (.signature signature) => { block with content := pushSignature signature block.content }
  | .delta .other => block
  | .stop => { block with content := setArguments (some (env.parser.parse block.scratch.text)) block.content }

def BlockOp.kind : BlockOp → Option Kind
  | .delta (.text _) | .delta (.thinking _) | .delta (.inputJson _) => some .delta
  | .delta (.signature _) | .delta .other => none
  | .stop => some .ended

structure Slot where
  index : Nat
  opened : AssistantContentBlock
  ops : List BlockOp

namespace Slot

def block (env : Env) (slot : Slot) : Block :=
  slot.ops.foldl (Block.apply env) ⟨slot.opened, .default⟩

def kinds (slot : Slot) : List Kind :=
  .started :: slot.ops.filterMap BlockOp.kind

def add (op : BlockOp) (slot : Slot) : Slot :=
  { slot with ops := slot.ops ++ [op] }

@[simp]
theorem block_add (env : Env) (op : BlockOp) (slot : Slot) :
    (slot.add op).block env = (slot.block env).apply env op := by
  simp [block, add, List.foldl_append]

theorem kinds_add (op : BlockOp) (slot : Slot) : (slot.add op).kinds = slot.kinds ++ op.kind.toList := by
  cases hKind : op.kind <;> simp [kinds, add, List.filterMap_append, hKind]

end Slot

def addAt (index : Nat) (op : BlockOp) (slots : List Slot) : List Slot :=
  match slots.findIdx? (fun slot => slot.index == index) with
  | some position => slots.modify position (Slot.add op)
  | none => slots

def slotStep (env : Env) (slots : List Slot) (event : Json) : List Slot :=
  match Wire.of event with
  | .content_block_start index block =>
    match newBlock env block with
    | some (opened, _) => slots ++ [⟨index, opened, []⟩]
    | none => slots
  | .content_block_delta index delta => addAt index (.delta delta) slots
  | .content_block_stop index => addAt index .stop slots
  | _ => slots

def slotsOf (env : Env) (events : List Json) : List Slot :=
  events.foldl (slotStep env) []

/-- The lists of the stream hold what the slots have come to, and the events are theirs. -/
structure Simulates (env : Env) (state : StreamState) (slots : List Slot) : Prop where
  indices : state.indices = slots.map Slot.index
  content : state.content = slots.map (fun slot => (slot.block env).content)
  scratches : state.partial_json = slots.map (fun slot => (slot.block env).scratch)
  kinds : ∀ position, kindsAt position state.pushed = (slots[position]?.map Slot.kinds).getD []

variable {env : Env} {events : List Json}

theorem newBlock_announces {block : Json} {opened : AssistantContentBlock}
    {announce : Nat → List AssistantContentBlock → Pushed} (hNew : newBlock env block = some (opened, announce))
    (position : Nat) (snapshot : List AssistantContentBlock) :
    (announce position snapshot).contentIndex = position ∧ (announce position snapshot).kind = .started := by
  unfold newBlock at hNew
  split at hNew <;> cases hNew <;> exact ⟨rfl, rfl⟩

namespace Simulates

variable {env : Env} {state after : StreamState} {slots : List Slot} {position : Nat} {slot : Slot}

theorem initial (env : Env) : Simulates env .initial [] :=
  ⟨rfl, rfl, rfl, fun _ => rfl⟩

section

variable (hSimulates : Simulates env state slots)

include hSimulates

theorem of_same (hIndices : after.indices = state.indices) (hContent : after.content = state.content)
    (hScratches : after.partial_json = state.partial_json) (hPushed : after.pushed = state.pushed) :
    Simulates env after slots :=
  ⟨hIndices.trans hSimulates.indices, hContent.trans hSimulates.content,
    hScratches.trans hSimulates.scratches, fun position => hPushed ▸ hSimulates.kinds position⟩

theorem position_eq (index : Nat) :
    state.position index = slots.findIdx? (fun slot => slot.index == index) := by
  rw [StreamState.position, hSimulates.indices, List.findIdx?_map]
  rfl

theorem content_at (hSlot : slots[position]? = some slot) :
    state.content[position]? = some (slot.block env).content := by
  rw [hSimulates.content, List.getElem?_map, hSlot, Option.map_some]

theorem scratch_at (hSlot : slots[position]? = some slot) :
    state.partial_json[position]? = some (slot.block env).scratch := by
  rw [hSimulates.scratches, List.getElem?_map, hSlot, Option.map_some]

theorem at_position {op : BlockOp} (hSlot : slots[position]? = some slot) (hIndices : after.indices = state.indices)
    (hContent : after.content = state.content.set position ((slot.block env).apply env op).content)
    (hScratches : after.partial_json = state.partial_json.set position ((slot.block env).apply env op).scratch)
    (hPushed : ∃ events, after.pushed = state.pushed ++ events ∧
      (∀ event ∈ events, event.contentIndex = position) ∧ events.map Pushed.kind = op.kind.toList) :
    Simulates env after (slots.modify position (Slot.add op)) := by
  obtain ⟨events, hEvents, hAt, hKinds⟩ := hPushed
  obtain ⟨hLength, hGet⟩ := List.getElem?_eq_some_iff.mp hSlot
  rw [modify_at hSlot]
  refine ⟨?_, ?_, ?_, fun other => ?_⟩
  · rw [List.map_set, hIndices, hSimulates.indices]
    exact (set_at (by rw [List.getElem?_map, hSlot]; rfl)).symm
  · rw [List.map_set, hContent, hSimulates.content, Slot.block_add]
  · rw [List.map_set, hScratches, hSimulates.scratches, Slot.block_add]
  · rw [hEvents, kindsAt, List.filter_append, List.map_append]
    change kindsAt other state.pushed ++ _ = _
    rw [hSimulates.kinds other, List.getElem?_set]
    split
    · rename_i hEq
      subst hEq
      have hAll : events.filter (fun event => event.contentIndex == position) = events :=
        List.filter_eq_self.mpr fun event hMem => by simp [hAt event hMem]
      simp [hAll, hKinds, hGet, hLength, Slot.kinds_add]
    · rename_i hNe
      have hNone : events.filter (fun event => event.contentIndex == other) = [] :=
        List.filter_eq_nil_iff.mpr fun event hMem => by simp [hAt event hMem, hNe]
      simp [hNone]

theorem start (index : Nat) (block : Json) :
    Simulates env (content_block_start env index block state)
      (match newBlock env block with
        | some (opened, _) => slots ++ [⟨index, opened, []⟩]
        | none => slots) := by
  unfold content_block_start
  cases hNew : newBlock env block with
  | none => exact hSimulates
  | some opening =>
    obtain ⟨opened, announce⟩ := opening
    have hLength : state.content.length = slots.length := by rw [hSimulates.content, List.length_map]
    have hAnnounce : ∀ snapshot, (announce state.content.length snapshot).contentIndex = slots.length ∧
        (announce state.content.length snapshot).kind = .started := by
      rw [hLength]
      exact newBlock_announces hNew slots.length
    refine ⟨?_, ?_, ?_, fun position => ?_⟩
    · simp [StreamState.push, hSimulates.indices]
    · simp [StreamState.push, hSimulates.content, Slot.block]
    · simp [StreamState.push, hSimulates.scratches, Slot.block]
    · change kindsAt position (state.pushed ++ [announce state.content.length _]) = _
      rw [kindsAt, List.filter_append, List.map_append]
      change kindsAt position state.pushed ++ _ = _
      rw [hSimulates.kinds position]
      rcases Nat.lt_trichotomy position slots.length with hBelow | rfl | hAbove
      · have hNe : slots.length ≠ position := by omega
        simp [hAnnounce, hNe, List.getElem?_append_left hBelow]
      · simp [hAnnounce, Slot.kinds]
      · have hNe : slots.length ≠ position := by omega
        have hNone : slots[position]? = none := List.getElem?_eq_none (by omega)
        have hBeyond : (slots ++ [(⟨index, opened, []⟩ : Slot)])[position]? = none :=
          List.getElem?_eq_none (by simp; omega)
        simp [hAnnounce, hNe, hNone, hBeyond]

theorem delta (hSlot : slots[position]? = some slot) (delta : Delta) :
    Simulates env (content_block_delta env position delta state)
      (slots.modify position (Slot.add (.delta delta))) := by
  have hContent := hSimulates.content_at hSlot
  have hScratch := hSimulates.scratch_at hSlot
  have hOne : ∀ event : Pushed, event.contentIndex = position → ∀ other ∈ [event], other.contentIndex = position := by
    simp
  cases delta with
  | text text | thinking thinking =>
    exact hSimulates.at_position hSlot rfl (modify_at hContent _) (set_at hScratch).symm
      ⟨_, rfl, hOne _ rfl, rfl⟩
  | signature signature =>
    exact hSimulates.at_position hSlot rfl (modify_at hContent _) (set_at hScratch).symm
      ⟨[], (List.append_nil _).symm, nofun, rfl⟩
  | other =>
    exact hSimulates.at_position hSlot rfl (set_at hContent).symm (set_at hScratch).symm
      ⟨[], (List.append_nil _).symm, nofun, rfl⟩
  | inputJson fragment =>
    refine hSimulates.at_position hSlot rfl ?_ ?_ ⟨_, rfl, hOne _ rfl, rfl⟩
    · simp only [content_block_delta, StreamState.push, hScratch, Option.map_some, Option.bind_some]
      exact modify_at hContent _
    · simp only [content_block_delta, StreamState.push, hScratch, Option.map_some]
      rfl

theorem stop (hSlot : slots[position]? = some slot) :
    ∃ after, content_block_stop env position state = some after ∧
      Simulates env after (slots.modify position (Slot.add .stop)) := by
  have hContent := hSimulates.content_at hSlot
  have hScratch := hSimulates.scratch_at hSlot
  have hOne : ∀ event : Pushed, event.contentIndex = position → ∀ other ∈ [event], other.contentIndex = position := by
    simp
  unfold content_block_stop
  rw [hContent]
  cases hBlock : (slot.block env).content with
  | text content | thinking content =>
    refine ⟨_, rfl, hSimulates.at_position hSlot rfl ?_ (set_at hScratch).symm ⟨_, rfl, hOne _ rfl, rfl⟩⟩
    have hSame : ((slot.block env).apply env .stop).content = (slot.block env).content := by
      simp [Block.apply, hBlock, setArguments]
    rw [hSame]
    exact (set_at hContent).symm
  | toolCall call =>
    refine ⟨_, rfl, hSimulates.at_position hSlot rfl ?_ (set_at hScratch).symm ⟨_, rfl, hOne _ rfl, rfl⟩⟩
    simp only [StreamState.push, hScratch, Block.apply, hBlock, setArguments, Option.map_some, Option.getD_some]

theorem addAt_eq {index position : Nat} (hPosition : state.position index = some position) (op : BlockOp) :
    ∃ slot, slots[position]? = some slot ∧ addAt index op slots = slots.modify position (Slot.add op) := by
  rw [hSimulates.position_eq] at hPosition
  have hLength : position < slots.length := (List.findIdx?_eq_some_iff_getElem.mp hPosition).1
  refine ⟨slots[position], List.getElem?_eq_getElem hLength, ?_⟩
  rw [addAt, hPosition]

theorem addAt_none {index : Nat} (hPosition : state.position index = none) (op : BlockOp) :
    addAt index op slots = slots := by
  rw [hSimulates.position_eq] at hPosition
  rw [addAt, hPosition]

end

end Simulates

/-- A build that checks overflow is only asked for sums that `u64` holds. -/
def UsageFits (env : Env) (state : StreamState) (event : Json) : Prop :=
  env.overflow_checks = true →
  match Wire.of event with
  | .message_start event => ∀ message, event.get "message" = some message →
    (startUsage message state.usage).sum < 2 ^ 64
  | .message_delta event => ∀ reported, event.get "usage" = some reported →
    (deltaUsage reported state.usage).sum < 2 ^ 64
  | _ => True

theorem withTotal_ne_none {usage : TokenUsage} (hFits : env.overflow_checks = true → usage.sum < 2 ^ 64) :
    withTotal env usage ≠ none := by
  unfold withTotal
  split
  · rename_i hOver
    have hSum := hFits hOver.1
    omega
  · exact Option.some_ne_none _

def StepKeeps (env : Env) (state : StreamState) (slots : List Slot) (event : Json) : Handled → Prop
  | .ok after => Simulates env after (slotStep env slots event)
  | .refused after _ => after = state
  | .panicked => ¬ UsageFits env state event

section Step

variable {env : Env} {state : StreamState} {slots : List Slot} {event message : Json}

theorem messageStart_keeps (hSimulates : Simulates env state slots) (hWire : Wire.of event = .message_start message) :
    StepKeeps env state slots event (.ofOption (message_start env message state)) := by
  have hSlots : slotStep env slots event = slots := by rw [slotStep, hWire]
  unfold message_start
  cases hMessage : message.get "message" with
  | none =>
    change Simulates env _ (slotStep env slots event)
    rw [hSlots]
    exact hSimulates.of_same rfl rfl rfl rfl
  | some reported =>
    cases hTotal : withTotal env (startUsage reported state.usage) with
    | none =>
      simp only [hTotal, Option.map_none]
      change ¬ UsageFits env state event
      intro hFits
      refine withTotal_ne_none (fun hChecks => ?_) hTotal
      have hSum := hFits hChecks
      rw [hWire] at hSum
      exact hSum reported hMessage
    | some usage =>
      simp only [hTotal, Option.map_some]
      change Simulates env _ (slotStep env slots event)
      rw [hSlots]
      exact hSimulates.of_same rfl rfl rfl rfl

theorem applyStopReason_same {event : Json} {after : StreamState} (hStop : applyStopReason event state = .ok after) :
    after.indices = state.indices ∧ after.content = state.content ∧ after.partial_json = state.partial_json ∧
      after.pushed = state.pushed ∧ after.usage = state.usage ∧
      after.saw_message_start = state.saw_message_start ∧ after.saw_message_end = state.saw_message_end := by
  unfold applyStopReason at hStop
  split at hStop
  · cases hStop
    exact ⟨rfl, rfl, rfl, rfl, rfl, rfl, rfl⟩
  · split at hStop
    · cases hStop
    · cases hStop
      exact ⟨rfl, rfl, rfl, rfl, rfl, rfl, rfl⟩

theorem messageDelta_keeps (hSimulates : Simulates env state slots) (hWire : Wire.of event = .message_delta message) :
    StepKeeps env state slots event (message_delta env message state) := by
  have hSlots : slotStep env slots event = slots := by rw [slotStep, hWire]
  unfold message_delta
  cases hStop : applyStopReason message state with
  | error refusal => exact rfl
  | ok stopped =>
    obtain ⟨hIndices, hContent, hScratches, hPushed, hUsage, -⟩ := applyStopReason_same hStop
    dsimp only
    unfold applyUsage
    cases hReported : message.get "usage" with
    | none =>
      change Simulates env _ (slotStep env slots event)
      rw [hSlots]
      exact hSimulates.of_same hIndices hContent hScratches hPushed
    | some reported =>
      cases hTotal : withTotal env (deltaUsage reported stopped.usage) with
      | none =>
        simp only [hTotal, Option.map_none]
        change ¬ UsageFits env state event
        intro hFits
        refine withTotal_ne_none (fun hChecks => ?_) hTotal
        have hSum := hFits hChecks
        rw [hWire] at hSum
        rw [hUsage]
        exact hSum reported hReported
      | some usage =>
        simp only [hTotal, Option.map_some]
        change Simulates env _ (slotStep env slots event)
        rw [hSlots]
        exact hSimulates.of_same hIndices hContent hScratches hPushed

theorem handle_event_keeps (hSimulates : Simulates env state slots) (event : Json) :
    StepKeeps env state slots event (handle_event env state event) := by
  unfold handle_event
  cases hWire : Wire.of event with
  | message_start message => exact messageStart_keeps hSimulates hWire
  | message_delta message => exact messageDelta_keeps hSimulates hWire
  | message_stop =>
    change Simulates env _ (slotStep env slots event)
    rw [slotStep, hWire]
    exact hSimulates.of_same rfl rfl rfl rfl
  | other =>
    change Simulates env _ (slotStep env slots event)
    rw [slotStep, hWire]
    exact hSimulates
  | content_block_start index block =>
    change Simulates env _ (slotStep env slots event)
    rw [slotStep, hWire]
    exact hSimulates.start index block
  | content_block_delta index delta =>
    have hSlots : slotStep env slots event = addAt index (.delta delta) slots := by rw [slotStep, hWire]
    dsimp only
    cases hPosition : state.position index with
    | none =>
      change Simulates env _ (slotStep env slots event)
      rw [hSlots, hSimulates.addAt_none hPosition]
      exact hSimulates
    | some position =>
      obtain ⟨slot, hSlot, hAdd⟩ := hSimulates.addAt_eq hPosition (.delta delta)
      change Simulates env _ (slotStep env slots event)
      rw [hSlots, hAdd]
      exact hSimulates.delta hSlot delta
  | content_block_stop index =>
    have hSlots : slotStep env slots event = addAt index .stop slots := by rw [slotStep, hWire]
    dsimp only
    cases hPosition : state.position index with
    | none =>
      change Simulates env _ (slotStep env slots event)
      rw [hSlots, hSimulates.addAt_none hPosition]
      exact hSimulates
    | some position =>
      obtain ⟨slot, hSlot, hAdd⟩ := hSimulates.addAt_eq hPosition .stop
      obtain ⟨after, hStop, hAfter⟩ := hSimulates.stop hSlot
      dsimp only
      rw [hStop]
      change Simulates env _ (slotStep env slots event)
      rw [hSlots, hAdd]
      exact hAfter

end Step

theorem handle_events_append (env : Env) (events : List Json) (event : Json) :
    handle_events env (events ++ [event]) = (handle_events env events).next env event := by
  rw [handle_events, List.foldl_append]
  rfl

theorem slotsOf_append (env : Env) (events : List Json) (event : Json) :
    slotsOf env (events ++ [event]) = slotStep env (slotsOf env events) event := by
  rw [slotsOf, List.foldl_append]
  rfl

theorem handle_events_ok {event : Json} {after : StreamState} (hRun : handle_events env (events ++ [event]) = .ok after) :
    ∃ state, handle_events env events = .ok state ∧ handle_event env state event = .ok after := by
  rw [handle_events_append] at hRun
  cases hBefore : handle_events env events with
  | ok state =>
    rw [hBefore] at hRun
    exact ⟨state, rfl, hRun⟩
  | refused state message | panicked =>
    rw [hBefore] at hRun
    cases hRun

theorem handle_events_simulates {state : StreamState} (hRun : handle_events env events = .ok state) :
    Simulates env state (slotsOf env events) := by
  induction events using List.reverseRecOn generalizing state with
  | nil =>
    cases hRun
    exact Simulates.initial env
  | append_singleton events event ih =>
    obtain ⟨before, hBefore, hStep⟩ := handle_events_ok hRun
    have hKeeps := handle_event_keeps (ih hBefore) event
    rw [hStep] at hKeeps
    rw [slotsOf_append]
    exact hKeeps

end PrimeAgent.Provider.Anthropic
