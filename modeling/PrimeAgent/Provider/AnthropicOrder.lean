import PrimeAgent.Provider.AnthropicKept

/-! # Orderly Anthropic streams

Which streams keep their blocks: no delta or stop for a block that was stopped, no stop that would take
away the input a call was opened with, no delta ahead of its block, and sums that `u64` holds.
-/
namespace PrimeAgent.Provider.Anthropic

def startAt (env : Env) (event : Json) : Option (Nat × AssistantContentBlock) :=
  match Wire.of event with
  | .content_block_start index block => (newBlock env block).map fun opening => (index, opening.1)
  | _ => none

def deltaAt (index : Nat) (event : Json) : Option Delta :=
  match Wire.of event with
  | .content_block_delta wire delta => if wire = index then (BlockOp.delta delta).delta? else none
  | _ => none

def startsOf (env : Env) (events : List Json) : List (Nat × AssistantContentBlock) :=
  events.filterMap (startAt env)

def deltasOf (index : Nat) (events : List Json) : List Delta :=
  events.filterMap (deltaAt index)

def expectedContent (env : Env) (events : List Json) : List AssistantContentBlock :=
  (startsOf env events).map fun start => expected env (deltasOf start.1 events) start.2

def firstAt (index : Nat) (slots : List Slot) : Option Slot :=
  slots.find? (fun slot => slot.index == index)

def EventFits (env : Env) (before : List Json) (event : Json) : Prop :=
  match Wire.of event with
  | .content_block_start index block => newBlock env block ≠ none → firstAt index (slotsOf env before) = none →
    deltasOf index before = []
  | .content_block_delta index delta => ∀ slot, firstAt index (slotsOf env before) = some slot →
    OpFits slot.opened slot.ops (.delta delta)
  | .content_block_stop index => ∀ slot, firstAt index (slotsOf env before) = some slot →
    OpFits slot.opened slot.ops .stop
  | _ => True

def Orderly (env : Env) (events : List Json) : Prop :=
  ∀ before event, before ++ [event] <+: events → EventFits env before event ∧
    ∀ state, handle_events env before = .ok state → UsageFits env state event

variable {env : Env} {event : Json} {events : List Json} {state after : StreamState}

theorem Orderly.before (hOrderly : Orderly env (events ++ [event])) :
    Orderly env events :=
  fun before next hPrefix => hOrderly before next (hPrefix.trans (List.prefix_append _ _))

section Slots

variable {env : Env} {slots : List Slot}

theorem addAt_eq_of_first {index : Nat} {op : BlockOp} :
    (firstAt index slots = none ∧ addAt index op slots = slots) ∨
    ∃ position slot, slots[position]? = some slot ∧ firstAt index slots = some slot ∧ slot.index = index ∧
      addAt index op slots = slots.set position (slot.add op) := by
  unfold addAt firstAt
  cases hFind : slots.findIdx? (fun slot => slot.index == index) with
  | none =>
    refine Or.inl ⟨?_, rfl⟩
    rw [List.find?_eq_none]
    intro slot hMem
    have hNone := List.findIdx?_eq_none_iff.mp hFind slot hMem
    simpa using hNone
  | some position =>
    obtain ⟨hLength, hIndex, hBefore⟩ := List.findIdx?_eq_some_iff_getElem.mp hFind
    have hGet : slots[position]? = some slots[position] := List.getElem?_eq_getElem hLength
    refine Or.inr ⟨position, slots[position], hGet, ?_, by simpa using hIndex, modify_at hGet _⟩
    rw [List.find?_eq_some_iff_getElem]
    exact ⟨hIndex, position, hLength, rfl, fun other hOther => by simpa using hBefore other hOther⟩

theorem forall_addAt {property : Slot → Prop} {index : Nat} {op : BlockOp}
    (hAll : ∀ slot ∈ slots, property slot)
    (hAdd : ∀ slot, firstAt index slots = some slot → property slot → property (slot.add op)) :
    ∀ slot ∈ addAt index op slots, property slot := by
  rcases @addAt_eq_of_first slots index op with ⟨-, hSame⟩ | ⟨position, slot, hSlot, hFirst, -, hSet⟩
  · rw [hSame]
    exact hAll
  · rw [hSet]
    intro other hOther
    rcases List.mem_or_eq_of_mem_set hOther with hMem | rfl
    · exact hAll other hMem
    · exact hAdd slot hFirst (hAll slot (List.mem_of_getElem? hSlot))

end Slots

theorem slots_proper (hOrderly : Orderly env events) :
    ∀ slot ∈ slotsOf env events, Proper slot.opened slot.ops := by
  induction events using List.reverseRecOn with
  | nil => exact nofun
  | append_singleton events event ih =>
    have hProper := ih hOrderly.before
    have hFits := (hOrderly events event (List.prefix_refl _)).1
    rw [slotsOf_append, slotStep]
    unfold EventFits at hFits
    cases hWire : Wire.of event with
    | content_block_start index block =>
      dsimp only
      split
      · intro slot hSlot
        rcases List.mem_append.mp hSlot with hOld | hNew
        · exact hProper slot hOld
        · cases List.mem_singleton.mp hNew
          exact .nil
      · exact hProper
    | content_block_delta index delta | content_block_stop index =>
      rw [hWire] at hFits
      exact forall_addAt hProper fun slot hFirst hSlot => hSlot.add (hFits slot hFirst)
    | message_start _ | message_delta _ | message_stop | other => exact hProper

theorem addAt_opened (index : Nat) (op : BlockOp) (slots : List Slot) :
    (addAt index op slots).map (fun slot => (slot.index, slot.opened)) =
      slots.map (fun slot => (slot.index, slot.opened)) := by
  rcases @addAt_eq_of_first slots index op with ⟨-, hSame⟩ | ⟨position, slot, hSlot, -, -, hSet⟩
  · rw [hSame]
  · rw [hSet, List.map_set]
    exact set_at (by rw [List.getElem?_map, hSlot]; rfl)

theorem slots_opened (env : Env) (events : List Json) :
    (slotsOf env events).map (fun slot => (slot.index, slot.opened)) = startsOf env events := by
  induction events using List.reverseRecOn with
  | nil => rfl
  | append_singleton events event ih =>
    rw [slotsOf_append, slotStep, startsOf, List.filterMap_append, ← startsOf, ← ih]
    cases hWire : Wire.of event with
    | content_block_start index block =>
      cases hNew : newBlock env block <;> simp [startAt, hWire, hNew]
    | content_block_delta index delta | content_block_stop index => simp [startAt, hWire, addAt_opened]
    | message_start _ | message_delta _ | message_stop | other => simp [startAt, hWire]

theorem deltasOf_append (index : Nat) (events : List Json) (event : Json) :
    deltasOf index (events ++ [event]) = deltasOf index events ++ (deltaAt index event).toList := by
  cases hDelta : deltaAt index event <;> simp [deltasOf, List.filterMap_append, hDelta]

theorem deltaAt_of_ne {index wire : Nat} {delta : Delta} (hWire : Wire.of event = .content_block_delta wire delta)
    (hNe : index ≠ wire) : deltaAt index event = none := by
  simp [deltaAt, hWire, hNe.symm]

theorem indices_nodup (hNodup : ((startsOf env events).map Prod.fst).Nodup) :
    ((slotsOf env events).map Slot.index).Nodup := by
  rw [← slots_opened, List.map_map] at hNodup
  exact hNodup

theorem index_ne_of_first {slots : List Slot} {index : Nat} (hFirst : firstAt index slots = none) {slot : Slot}
    (hMem : slot ∈ slots) : slot.index ≠ index := by
  simpa using List.find?_eq_none.mp hFirst slot hMem

theorem addAt_deltas {slots : List Slot} (hNodup : (slots.map Slot.index).Nodup) {index : Nat} {op : BlockOp}
    {held : Nat → List Delta} (hHeld : ∀ slot ∈ slots, deltasIn slot.ops = held slot.index) :
    ∀ slot ∈ addAt index op slots,
      deltasIn slot.ops = held slot.index ++ if slot.index = index then op.delta?.toList else [] := by
  rcases @addAt_eq_of_first slots index op with ⟨hFirst, hSame⟩ | ⟨position, first, hFound, -, hIndex, hSet⟩
  · rw [hSame]
    intro slot hSlot
    rw [if_neg (index_ne_of_first hFirst hSlot), List.append_nil]
    exact hHeld slot hSlot
  · rw [hSet]
    intro slot hSlot
    obtain ⟨other, hOther⟩ := List.mem_iff_getElem?.mp hSlot
    rw [List.getElem?_set] at hOther
    split at hOther
    · split at hOther
      · cases hOther
        change deltasIn (first.ops ++ [op]) = held first.index ++ if first.index = index then _ else _
        rw [deltasIn_append, hHeld first (List.mem_of_getElem? hFound), if_pos hIndex]
      · cases hOther
    · rename_i hNe
      have hApart : slot.index ≠ index := by
        intro hEq
        have hSame : (slots.map Slot.index)[other]? = (slots.map Slot.index)[position]? := by
          rw [List.getElem?_map, List.getElem?_map, hOther, hFound, Option.map_some, Option.map_some, hEq, hIndex]
        have hLength : other < (slots.map Slot.index).length := by
          rw [List.length_map]
          exact (List.getElem?_eq_some_iff.mp hOther).1
        exact hNe ((List.getElem?_inj hLength hNodup).mp hSame).symm
      rw [if_neg hApart, List.append_nil]
      exact hHeld slot (List.mem_of_getElem? hOther)

theorem slots_deltas (hOrderly : Orderly env events) (hNodup : ((startsOf env events).map Prod.fst).Nodup) :
    ∀ slot ∈ slotsOf env events, deltasIn slot.ops = deltasOf slot.index events := by
  induction events using List.reverseRecOn with
  | nil => exact nofun
  | append_singleton events event ih =>
    have hStarts : startsOf env (events ++ [event]) = startsOf env events ++ (startAt env event).toList := by
      cases hStart : startAt env event <;> simp [startsOf, List.filterMap_append, hStart]
    have hBefore : ((startsOf env events).map Prod.fst).Nodup := by
      rw [hStarts, List.map_append] at hNodup
      exact (List.nodup_append.mp hNodup).1
    have hHeld := ih hOrderly.before hBefore
    have hFits := (hOrderly events event (List.prefix_refl _)).1
    have hQuiet : (∀ index, deltaAt index event = none) →
        ∀ slot ∈ slotsOf env events, deltasIn slot.ops = deltasOf slot.index (events ++ [event]) := by
      intro hNone slot hSlot
      rw [deltasOf_append, hNone, Option.toList_none, List.append_nil]
      exact hHeld slot hSlot
    rw [slotsOf_append, slotStep]
    unfold EventFits at hFits
    cases hWire : Wire.of event with
    | content_block_start index block =>
      have hNone : ∀ wire, deltaAt wire event = none := fun wire => by simp [deltaAt, hWire]
      rw [hWire] at hFits
      dsimp only
      cases hNew : newBlock env block with
      | none => exact hQuiet hNone
      | some opening =>
        intro slot hSlot
        rcases List.mem_append.mp hSlot with hOld | hOpened
        · exact hQuiet hNone slot hOld
        · cases List.mem_singleton.mp hOpened
          have hFresh : firstAt index (slotsOf env events) = none := by
            rw [firstAt, List.find?_eq_none]
            intro slot hMem hIndex
            have hAll := indices_nodup hNodup
            rw [slotsOf_append, slotStep, hWire] at hAll
            simp only [hNew, List.map_append, List.map_cons, List.map_nil] at hAll
            have hApart := (List.nodup_append.mp hAll).2.2 slot.index (List.mem_map_of_mem hMem) index
              (List.mem_singleton.mpr rfl)
            exact hApart (by simpa using hIndex)
          change [] = deltasOf index (events ++ [event])
          rw [deltasOf_append, hNone, hFits (by rw [hNew]; exact Option.some_ne_none _) hFresh]
          rfl
    | content_block_delta index delta =>
      intro slot hSlot
      rw [@addAt_deltas _ (indices_nodup hBefore) _ _ (deltasOf · events) hHeld slot hSlot,
        deltasOf_append]
      split
      · rename_i hIndex
        simp [deltaAt, hWire, hIndex]
      · rename_i hIndex
        rw [deltaAt_of_ne hWire hIndex, Option.toList_none]
    | content_block_stop index =>
      have hNone : ∀ wire, deltaAt wire event = none := fun wire => by simp [deltaAt, hWire]
      intro slot hSlot
      rw [@addAt_deltas _ (indices_nodup hBefore) _ _ (deltasOf · events) hHeld slot hSlot,
        deltasOf_append, hNone]
      split <;> rfl
    | message_start _ | message_delta _ | message_stop | other =>
      exact hQuiet fun wire => by simp [deltaAt, hWire]

theorem typeOf_stop (hWire : Wire.of event = .message_stop) : typeOf event = "message_stop" := by
  unfold Wire.of at hWire
  split at hWire <;> cases hWire
  assumption

theorem wire_start (hType : typeOf event = "message_start") :
    Wire.of event = .message_start event := by
  unfold Wire.of
  simp only [hType]

def Sent (type : String) (events : List Json) : Prop :=
  ∃ event ∈ events, typeOf event = type

structure Flags (events : List Json) (state : StreamState) : Prop where
  started : Sent "message_start" events → state.saw_message_start = true
  ended : state.saw_message_end = true → Sent "message_stop" events

theorem delta_flags (env : Env) (position : Nat) (delta : Delta) (state : StreamState) :
    (content_block_delta env position delta state).saw_message_start = state.saw_message_start ∧
      (content_block_delta env position delta state).saw_message_end = state.saw_message_end := by
  cases delta <;> exact ⟨rfl, rfl⟩

theorem stop_flags {position : Nat} (hStop : content_block_stop env position state = some after) :
    after.saw_message_start = state.saw_message_start ∧ after.saw_message_end = state.saw_message_end := by
  unfold content_block_stop at hStop
  split at hStop <;> cases hStop <;> exact ⟨rfl, rfl⟩

theorem opened_flags (env : Env) (index : Nat) (block : Json) (state : StreamState) :
    (content_block_start env index block state).saw_message_start = state.saw_message_start ∧
      (content_block_start env index block state).saw_message_end = state.saw_message_end := by
  unfold content_block_start
  split <;> exact ⟨rfl, rfl⟩

theorem messageStart_flags (hStart : message_start env event state = some after) :
    after.saw_message_start = true ∧ after.saw_message_end = state.saw_message_end := by
  unfold message_start at hStart
  cases hMessage : event.get "message" with
  | none =>
    rw [hMessage] at hStart
    cases hStart
    exact ⟨rfl, rfl⟩
  | some message =>
    rw [hMessage] at hStart
    obtain ⟨usage, -, rfl⟩ := Option.map_eq_some_iff.mp hStart
    exact ⟨rfl, rfl⟩

theorem messageDelta_flags (hDelta : message_delta env event state = .ok after) :
    after.saw_message_start = state.saw_message_start ∧ after.saw_message_end = state.saw_message_end := by
  unfold message_delta at hDelta
  cases hStop : applyStopReason event state with
  | error refusal =>
    rw [hStop] at hDelta
    cases hDelta
  | ok stopped =>
    obtain ⟨-, -, -, -, -, hStarted, hEnded⟩ := applyStopReason_same hStop
    rw [hStop] at hDelta
    dsimp only at hDelta
    unfold applyUsage at hDelta
    split at hDelta
    · cases hDelta
      exact ⟨hStarted, hEnded⟩
    · cases hTotal : withTotal env _ <;> rw [hTotal] at hDelta <;> cases hDelta
      exact ⟨hStarted, hEnded⟩

theorem handle_event_flags (hStep : handle_event env state event = .ok after) :
    (typeOf event = "message_start" ∨ state.saw_message_start = true → after.saw_message_start = true) ∧
      (after.saw_message_end = true → state.saw_message_end = true ∨ typeOf event = "message_stop") := by
  have hSame : Wire.of event ≠ .message_start event →
      after.saw_message_start = state.saw_message_start ∧ after.saw_message_end = state.saw_message_end →
      (typeOf event = "message_start" ∨ state.saw_message_start = true → after.saw_message_start = true) ∧
        (after.saw_message_end = true → state.saw_message_end = true ∨ typeOf event = "message_stop") := by
    rintro hWire ⟨hStarted, hEnded⟩
    rw [hStarted, hEnded]
    exact ⟨fun hFlag => hFlag.resolve_left fun hType => hWire (wire_start hType), Or.inl⟩
  unfold handle_event at hStep
  cases hWire : Wire.of event with
  | message_start message =>
    rw [hWire] at hStep
    dsimp only at hStep
    cases hStart : message_start env message state with
    | none =>
      rw [hStart] at hStep
      cases hStep
    | some started =>
      rw [hStart] at hStep
      cases hStep
      obtain ⟨hStarted, hEnded⟩ := messageStart_flags hStart
      rw [hEnded]
      exact ⟨fun _ => hStarted, Or.inl⟩
  | message_stop =>
    rw [hWire] at hStep
    cases hStep
    refine ⟨fun hFlag => hFlag.resolve_left fun hType => ?_, fun _ => Or.inr (typeOf_stop hWire)⟩
    rw [wire_start hType] at hWire
    cases hWire
  | message_delta message =>
    rw [hWire] at hStep
    exact hSame (by rw [hWire]; nofun) (messageDelta_flags hStep)
  | other =>
    rw [hWire] at hStep
    cases hStep
    exact hSame (by rw [hWire]; nofun) ⟨rfl, rfl⟩
  | content_block_start index block =>
    rw [hWire] at hStep
    cases hStep
    exact hSame (by rw [hWire]; nofun) (opened_flags env index block state)
  | content_block_delta index delta =>
    rw [hWire] at hStep
    dsimp only at hStep
    split at hStep
    · cases hStep
      exact hSame (by rw [hWire]; nofun) (delta_flags env _ delta state)
    · cases hStep
      exact hSame (by rw [hWire]; nofun) ⟨rfl, rfl⟩
  | content_block_stop index =>
    rw [hWire] at hStep
    dsimp only at hStep
    split at hStep
    · cases hStop : content_block_stop env _ state <;> rw [hStop] at hStep <;> cases hStep
      exact hSame (by rw [hWire]; nofun) (stop_flags hStop)
    · cases hStep
      exact hSame (by rw [hWire]; nofun) ⟨rfl, rfl⟩

theorem handle_events_flags {state : StreamState} (hRun : handle_events env events = .ok state) :
    Flags events state := by
  induction events using List.reverseRecOn generalizing state with
  | nil =>
    cases hRun
    exact ⟨fun ⟨_, hMem, _⟩ => (nomatch hMem), nofun⟩
  | append_singleton events event ih =>
    obtain ⟨before, hBefore, hStep⟩ := handle_events_ok hRun
    obtain ⟨hStarted, hEnded⟩ := handle_event_flags hStep
    constructor
    · rintro ⟨sent, hMem, hType⟩
      rcases List.mem_append.mp hMem with hOld | hNew
      · exact hStarted (Or.inr ((ih hBefore).started ⟨sent, hOld, hType⟩))
      · cases List.mem_singleton.mp hNew
        exact hStarted (Or.inl hType)
    · intro hFlag
      rcases hEnded hFlag with hOld | hType
      · obtain ⟨sent, hMem, hType⟩ := (ih hBefore).ended hOld
        exact ⟨sent, List.mem_append_left _ hMem, hType⟩
      · exact ⟨event, List.mem_append_right _ (List.mem_singleton.mpr rfl), hType⟩

/-- What the end of the stream asks for success: a message was started or stopped, and the preview of
every call is current. -/
structure EndsOrderly (env : Env) (events : List Json) : Prop where
  sent : Sent "message_start" events ∨ Sent "message_stop" events
  current : ∀ slot ∈ slotsOf env events, Current env slot.opened slot.ops

structure StreamKept (env : Env) (events : List Json) (state : StreamState) : Prop where
  aligned : state.indices.length = state.content.length ∧ state.partial_json.length = state.content.length
  bracketed : ∀ position, position < state.content.length → Bracketed (kindsAt position state.pushed)
  nothing_else : ∀ position, state.content.length ≤ position → kindsAt position state.pushed = []
  abandoned : ((startsOf env events).map Prod.fst).Nodup →
    (abandon env state).content = expectedContent env events
  finished : EndsOrderly env events → ((startsOf env events).map Prod.fst).Nodup → ∀ cancelled,
    (finish env cancelled state).content = expectedContent env events
  unsuccessful : EndsOrderly env events → ∀ cancelled content,
    finish env cancelled state = .done content → Sent "message_stop" events

section Kept

variable {env : Env} {events : List Json} {state : StreamState}

section

variable (hOrderly : Orderly env events)

include hOrderly

theorem expectedContent_eq (hNodup : ((startsOf env events).map Prod.fst).Nodup) :
    expectedContent env events =
      (slotsOf env events).map fun slot => expected env (deltasIn slot.ops) slot.opened := by
  rw [expectedContent, ← slots_opened, List.map_map]
  apply List.map_congr_left
  intro slot hSlot
  rw [slots_deltas hOrderly hNodup slot hSlot]
  rfl

section

variable (hRun : handle_events env events = .ok state)

include hRun

theorem settled_content (hNodup : ((startsOf env events).map Prod.fst).Nodup) :
    settle_partial_tool_calls env state = expectedContent env events := by
  have hSimulates := handle_events_simulates hRun
  rw [expectedContent_eq hOrderly hNodup]
  apply List.ext_getElem?
  intro position
  rw [settle_partial_tool_calls, List.getElem?_mapIdx, List.getElem?_map, hSimulates.content, hSimulates.scratches,
    List.getElem?_map, List.getElem?_map]
  cases hSlot : (slotsOf env events)[position]? with
  | none => rfl
  | some slot => exact congrArg some (proper_settled (slots_proper hOrderly slot (List.mem_of_getElem? hSlot)))

theorem current_content (hEnds : EndsOrderly env events) (hNodup : ((startsOf env events).map Prod.fst).Nodup) :
    state.content = expectedContent env events := by
  rw [expectedContent_eq hOrderly hNodup, (handle_events_simulates hRun).content]
  apply List.map_congr_left
  intro slot hSlot
  exact proper_content (slots_proper hOrderly slot hSlot) (hEnds.current slot hSlot)

theorem bracketed_at {position : Nat} (hPosition : position < state.content.length) :
    Bracketed (kindsAt position state.pushed) := by
  have hSimulates := handle_events_simulates hRun
  have hLength : position < (slotsOf env events).length := by
    rwa [hSimulates.content, List.length_map] at hPosition
  rw [hSimulates.kinds position, List.getElem?_eq_getElem hLength]
  exact Slot.bracketed (slots_proper hOrderly _ (List.getElem_mem hLength))

theorem kept_of_handled :
    StreamKept env events state := by
  have hSimulates := handle_events_simulates hRun
  have hFlags := handle_events_flags hRun
  constructor
  · simp [hSimulates.indices, hSimulates.content, hSimulates.scratches]
  · exact fun position hPosition => bracketed_at hOrderly hRun hPosition
  · intro position hPosition
    rw [hSimulates.content, List.length_map] at hPosition
    rw [hSimulates.kinds position, List.getElem?_eq_none hPosition]
    rfl
  · exact settled_content hOrderly hRun
  · intro hEnds hNodup cancelled
    have hAbandoned : (abandon env state).content = expectedContent env events :=
      settled_content hOrderly hRun hNodup
    unfold finish
    split
    · exact hAbandoned
    · split
      · exact hAbandoned
      · split
        · exact hAbandoned
        · exact current_content hOrderly hRun hEnds hNodup
  · intro hEnds cancelled content hDone
    rcases hEnds.sent with hStart | hStop
    · have hStarted := hFlags.started hStart
      unfold finish at hDone
      split at hDone
      · cases hDone
      · rename_i hWhole
        exact hFlags.ended (by simpa [hStarted] using hWhole)
    · exact hStop

end

end

end Kept

/-- An orderly stream never panics, and at each of its states the blocks and their events are kept, however
the turn ends there. -/
theorem orderly_stream_kept (env : Env) (events : List Json) (hOrderly : Orderly env events) :
    handle_events env events ≠ .panicked ∧
    (∀ state, handle_events env events = .ok state → StreamKept env events state) ∧
    ∀ state message, handle_events env events = .refused state message →
      ∃ before, before <+: events ∧ handle_events env before = .ok state ∧ StreamKept env before state := by
  refine ⟨?_, fun state hRun => kept_of_handled hOrderly hRun, ?_⟩
  · induction events using List.reverseRecOn with
    | nil => nofun
    | append_singleton events event ih =>
      intro hPanic
      rw [handle_events_append] at hPanic
      cases hBefore : handle_events env events with
      | panicked => exact ih hOrderly.before hBefore
      | refused state message =>
        rw [hBefore] at hPanic
        cases hPanic
      | ok state =>
        rw [hBefore] at hPanic
        change handle_event env state event = .panicked at hPanic
        have hKeeps := handle_event_keeps (handle_events_simulates hBefore) event
        rw [hPanic] at hKeeps
        exact hKeeps ((hOrderly events event (List.prefix_refl _)).2 state hBefore)
  · intro state message hRefused
    induction events using List.reverseRecOn with
    | nil => cases hRefused
    | append_singleton events event ih =>
      rw [handle_events_append] at hRefused
      cases hBefore : handle_events env events with
      | panicked =>
        rw [hBefore] at hRefused
        cases hRefused
      | refused earlier text =>
        rw [hBefore] at hRefused
        cases hRefused
        obtain ⟨before, hPrefix, hKept⟩ := ih hOrderly.before hBefore
        exact ⟨before, hPrefix.trans (List.prefix_append _ _), hKept⟩
      | ok earlier =>
        rw [hBefore] at hRefused
        change handle_event env earlier event = .refused state message at hRefused
        have hKeeps := handle_event_keeps (handle_events_simulates hBefore) event
        rw [hRefused] at hKeeps
        have hSame : state = earlier := hKeeps
        subst hSame
        exact ⟨events, List.prefix_append _ _, hBefore, kept_of_handled hOrderly.before hBefore⟩

theorem orderly_nil (env : Env) : Orderly env [] :=
  fun _ _ hPrefix => absurd (List.prefix_nil.mp hPrefix) (by simp)

theorem Orderly.snoc (hOrderly : Orderly env events) (hFits : EventFits env events event)
    (hUsage : ∀ state, handle_events env events = .ok state → UsageFits env state event) :
    Orderly env (events ++ [event]) := by
  intro before next hPrefix
  rcases List.prefix_concat_iff.mp hPrefix with hLast | hBefore
  · obtain ⟨rfl, hNext⟩ := List.append_inj' hLast rfl
    cases hNext
    exact ⟨hFits, hUsage⟩
  · exact hOrderly before next hBefore

def plainEnv : Env :=
  ⟨.bare, false, none, true⟩

def helloEvents : List Json :=
  [.object [("type", .string "content_block_start"), ("index", .number (.posInt 0)),
      ("content_block", .object [("type", .string "text"), ("text", .string "")])],
    .object [("type", .string "content_block_delta"), ("index", .number (.posInt 0)),
      ("delta", .object [("type", .string "text_delta"), ("text", .string "hello")])],
    .object [("type", .string "content_block_stop"), ("index", .number (.posInt 0))]]

theorem hello_orderly : Orderly plainEnv helloEvents := by
  have hStart : Orderly plainEnv [helloEvents[0]] :=
    (orderly_nil plainEnv).snoc (fun _ _ => rfl) (fun _ _ _ => trivial)
  have hDelta : Orderly plainEnv [helloEvents[0], helloEvents[1]] := by
    refine hStart.snoc ?_ (fun _ _ _ => trivial)
    intro slot hSlot
    obtain rfl : slot = ⟨0, .text ⟨"", none⟩, []⟩ := (Option.some.inj hSlot).symm
    exact ⟨fun _ => List.not_mem_nil, nofun⟩
  refine hDelta.snoc ?_ (fun _ _ _ => trivial)
  intro slot hSlot
  obtain rfl : slot = ⟨0, .text ⟨"", none⟩, [.delta (.text "hello")]⟩ := (Option.some.inj hSlot).symm
  exact ⟨fun _ => by simp, nofun⟩

theorem hello_kept : handle_events plainEnv helloEvents ≠ .panicked :=
  (orderly_stream_kept plainEnv helloEvents hello_orderly).1

def upfrontEvents : List Json :=
  [.object [("type", .string "message_start")],
    .object [("type", .string "content_block_start"), ("index", .number (.posInt 0)),
      ("content_block", .object [("type", .string "tool_use"), ("id", .string "call"), ("name", .string "bash"),
        ("input", .object [("command", .string "ls")])])],
    .object [("type", .string "content_block_stop"), ("index", .number (.posInt 0))],
    .object [("type", .string "message_stop")]]

theorem upfront_input_lost :
    ¬ ∀ (env : Env) (events : List Json) (state : StreamState), handle_events env events = .ok state →
      ((startsOf env events).map Prod.fst).Nodup → finish env false state = .done (expectedContent env events) := by
  intro hKept
  have hDone := hKept plainEnv upfrontEvents _ rfl (by decide)
  exact absurd hDone (by decide)

end PrimeAgent.Provider.Anthropic
