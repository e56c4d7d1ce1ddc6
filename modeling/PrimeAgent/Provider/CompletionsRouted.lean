import PrimeAgent.Provider.CompletionsFinish

/-! # Where tool-call deltas go

The delta that opens a call leads every later delta that carries an index or an id of its own or of a delta
it leads already; the last delta with that index decides, and the last one with that id where there is none.
-/
namespace PrimeAgent.Provider.Completions

open StreamingState

abbrev Led := ToolDelta × Nat

def lastLed (carries : ToolDelta → Bool) (led : List Led) : Option Nat :=
  (led.find? (carries ·.1)).map (·.2)

def earlier (led : List Led) (delta : ToolDelta) : Option Nat :=
  (delta.index.bind fun index => lastLed (·.index == some index) led).or
    (delta.id.bind fun id => lastLed (·.id == some id) led)

def lead (led : List Led) (delta : ToolDelta) : List Led :=
  (delta, (earlier led delta).getD led.length) :: led

def routes (deltas : List ToolDelta) : List Led :=
  (deltas.foldl lead []).reverse

theorem lastLed_cons (carries : ToolDelta → Bool) (entry : Led) (led : List Led) :
    lastLed carries (entry :: led) = if carries entry.1 then some entry.2 else lastLed carries led := by
  cases hCarries : carries entry.1 <;> simp [lastLed, hCarries]

variable {leader : Nat} {led : List Led}

theorem lastLed_mem {carries : ToolDelta → Bool} (hFound : lastLed carries led = some leader) :
    ∃ entry ∈ led, entry.2 = leader := by
  obtain ⟨entry, hEntry, hLeader⟩ := Option.map_eq_some_iff.mp hFound
  exact ⟨entry, List.mem_of_find?_eq_some hEntry, hLeader⟩

theorem earlier_mem {delta : ToolDelta} (hFound : earlier led delta = some leader) :
    ∃ entry ∈ led, entry.2 = leader := by
  rcases Option.or_eq_some_iff.mp hFound with hIndex | ⟨-, hId⟩
  · obtain ⟨_, -, hLast⟩ := Option.bind_eq_some_iff.mp hIndex
    exact lastLed_mem hLast
  · obtain ⟨_, -, hLast⟩ := Option.bind_eq_some_iff.mp hId
    exact lastLed_mem hLast

def spoken (pushed : List Pushed) : List (BlockKind × Nat × String) :=
  pushed.filterMap said

def heard (pushed : List Pushed) : List (BlockKind × String) :=
  (spoken pushed).map fun entry => (entry.1, entry.2.2)

def routed (pushed : List Pushed) : List (Nat × String) :=
  (spoken pushed).filterMap fun entry => if entry.1 = .call then some entry.2 else none

theorem spoken_push (event : List AssistantContentBlock → Pushed) (state : StreamingState) :
    spoken (push event state).pushed = spoken state.pushed ++ (said (event state.content)).toList := by
  cases hSaid : said (event state.content) <;> simp [spoken, push, List.filterMap_append, hSaid]

def kindsOf (content : List AssistantContentBlock) : List BlockKind :=
  content.map fun block => (shapeOf block).1

theorem kindsOf_modify {change : AssistantContentBlock → AssistantContentBlock}
    (hChange : ∀ block, (shapeOf (change block)).1 = (shapeOf block).1) (content : List AssistantContentBlock)
    (position : Nat) : kindsOf (content.modify position change) = kindsOf content := by
  apply List.ext_getElem?
  intro other
  rw [kindsOf, kindsOf, List.getElem?_map, List.getElem?_map, List.getElem?_modify]
  split
  · cases content[other]? with
    | none => rfl
    | some block => exact congrArg some (hChange block)
  · simp

/-- A change that routes nothing: the tables stay, no call is opened and no argument delta is told. -/
structure Steady (state : StreamingState) (words : List (BlockKind × String)) (after : StreamingState) : Prop where
  byIndex : after.tool_call_blocks_by_index = state.tool_call_blocks_by_index
  byId : after.tool_call_blocks_by_id = state.tool_call_blocks_by_id
  kinds : ∃ more, kindsOf after.content = kindsOf state.content ++ more ∧ .call ∉ more
  spoken : ∃ more, spoken after.pushed = spoken state.pushed ++ more ∧ more.map (fun entry => (entry.1, entry.2.2)) = words
  noCall : ∀ entry ∈ words, entry.1 ≠ .call

namespace Steady

variable {state after last : StreamingState} {words more : List (BlockKind × String)}

theorem refl (state : StreamingState) : Steady state [] state :=
  ⟨rfl, rfl, ⟨[], (List.append_nil _).symm, List.not_mem_nil⟩, ⟨[], (List.append_nil _).symm, rfl⟩, nofun⟩

theorem trans (hFirst : Steady state words after) (hThen : Steady after more last) :
    Steady state (words ++ more) last := by
  obtain ⟨opened, hOpened, hNoCall⟩ := hFirst.kinds
  obtain ⟨opened', hOpened', hNoCall'⟩ := hThen.kinds
  obtain ⟨told, hTold, hWords⟩ := hFirst.spoken
  obtain ⟨told', hTold', hMore⟩ := hThen.spoken
  refine ⟨hThen.byIndex.trans hFirst.byIndex, hThen.byId.trans hFirst.byId, ⟨opened ++ opened', ?_, ?_⟩,
    ⟨told ++ told', ?_, ?_⟩, fun entry hMem => ?_⟩
  · rw [hOpened', hOpened, List.append_assoc]
  · exact fun hMem => (List.mem_append.mp hMem).elim hNoCall hNoCall'
  · rw [hTold', hTold, List.append_assoc]
  · rw [List.map_append, hWords, hMore]
  · exact (List.mem_append.mp hMem).elim (hFirst.noCall entry) (hThen.noCall entry)

theorem alters (hIndex : after.tool_call_blocks_by_index = state.tool_call_blocks_by_index)
    (hId : after.tool_call_blocks_by_id = state.tool_call_blocks_by_id) (hPushed : after.pushed = state.pushed)
    (hKinds : kindsOf after.content = kindsOf state.content) : Steady state [] after :=
  ⟨hIndex, hId, ⟨[], hKinds.trans (List.append_nil _).symm, List.not_mem_nil⟩,
    ⟨[], by rw [hPushed, List.append_nil], rfl⟩, nofun⟩

theorem opens (hFrom : Steady state words after) {block : AssistantContentBlock} (hKind : (shapeOf block).1 ≠ .call)
    {announce : Nat → List AssistantContentBlock → Pushed}
    (hSilent : ∀ position snapshot, said (announce position snapshot) = none) :
    Steady state words (openBlock block announce after) := by
  have hOpened : Steady after [] (openBlock block announce after) := by
    refine ⟨rfl, rfl, ⟨[(shapeOf block).1], ?_, ?_⟩, ⟨[], ?_, rfl⟩, nofun⟩
    · simp [openBlock, push, kindsOf]
    · simpa using Ne.symm hKind
    · rw [openBlock, spoken_push, hSilent, Option.toList_none]
  simpa using hFrom.trans hOpened

theorem tells (state : StreamingState) {event : List AssistantContentBlock → Pushed} {kind : BlockKind}
    {position : Nat} {delta : String} (hSaid : ∀ snapshot, said (event snapshot) = some (kind, position, delta))
    (hKind : kind ≠ .call) : Steady state [(kind, delta)] (push event state) := by
  refine ⟨rfl, rfl, ⟨[], (List.append_nil _).symm, List.not_mem_nil⟩, ⟨[(kind, position, delta)], ?_, rfl⟩, ?_⟩
  · rw [spoken_push, hSaid, Option.toList_some]
  · simpa using hKind

end Steady

def textOf (delta : Json) : List (BlockKind × String) :=
  match (delta.get "content").bind Json.asStr with
  | some content => if content = "" then [] else [(.text, content)]
  | none => []

def reasoningOf (delta : Json) : List (BlockKind × String) :=
  match reasoningField delta with
  | some (_, value) => [(.thinking, value)]
  | none => []

theorem handle_text_steady (delta : Json) (state : StreamingState) :
    Steady state (textOf delta) (handle_text delta state) := by
  unfold handle_text textOf
  cases (delta.get "content").bind Json.asStr with
  | none => exact Steady.refl state
  | some content =>
    dsimp only
    split
    · exact Steady.refl state
    · have hEnsured : Steady state [] state.ensure_text_block.2 := by
        unfold ensure_text_block
        split
        · exact Steady.refl state
        · refine Steady.opens ?_ ?_ fun _ _ => ?_
          · exact Steady.alters rfl rfl rfl rfl
          · nofun
          · rfl
      have hAppended : Steady state.ensure_text_block.2 []
          (state.ensure_text_block.2.modify state.ensure_text_block.1 (pushText content)) :=
        Steady.alters rfl rfl rfl (kindsOf_modify (fun block => by cases block <;> rfl) _ _)
      exact (hEnsured.trans hAppended).trans (Steady.tells _ (fun _ => rfl) nofun)

theorem handle_reasoning_steady (delta : Json) (state : StreamingState) :
    Steady state (reasoningOf delta) (handle_reasoning delta state) := by
  unfold handle_reasoning reasoningOf
  cases reasoningField delta with
  | none => exact Steady.refl state
  | some found =>
    obtain ⟨field, value⟩ := found
    have hEnsured : Steady state [] (state.ensure_thinking_block field).2 := by
      unfold ensure_thinking_block
      split
      · exact Steady.refl state
      · refine Steady.opens ?_ ?_ fun _ _ => ?_
        · exact Steady.alters rfl rfl rfl rfl
        · nofun
        · rfl
    have hAppended : Steady (state.ensure_thinking_block field).2 []
        ((state.ensure_thinking_block field).2.modify (state.ensure_thinking_block field).1 (pushThinking value)) :=
      Steady.alters rfl rfl rfl (kindsOf_modify (fun block => by cases block <;> rfl) _ _)
    exact (hEnsured.trans hAppended).trans (Steady.tells _ (fun _ => rfl) nofun)

theorem handle_reasoning_detail_steady (env : Env) (state : StreamingState) (detail : Json) :
    Steady state [] (handle_reasoning_detail env state detail) := by
  unfold handle_reasoning_detail
  split
  · dsimp only
    split
    · split
      · split
        · exact Steady.alters rfl rfl rfl rfl
        · refine Steady.alters rfl rfl rfl ?_
          rw [kindsOf, kindsOf, List.map_map]
          exact List.map_congr_left fun block _ => congrArg Prod.fst (shapeOf_signCall _ _ block)
      · exact Steady.alters rfl rfl rfl rfl
    · exact Steady.alters rfl rfl rfl rfl
  · exact Steady.refl state

theorem handle_details_steady (env : Env) (delta : Json) (state : StreamingState) :
    Steady state [] (handle_details env delta state) := by
  have hFold : ∀ (details : List Json) (state : StreamingState),
      Steady state [] (details.foldl (handle_reasoning_detail env) state) := by
    intro details
    induction details with
    | nil => exact Steady.refl
    | cons detail details ih =>
      exact fun state => (handle_reasoning_detail_steady env state detail).trans (ih _)
  unfold handle_details
  split
  · rename_i details _
    refine (hFold details state).trans ?_
    unfold openReasoning
    split
    · refine Steady.opens ?_ ?_ fun _ _ => ?_
      · exact Steady.alters rfl rfl rfl rfl
      · nofun
      · rfl
    · exact Steady.refl _
  · exact Steady.refl state

theorem noteFinish_steady (env : Env) (chunk choice : Json) (state : StreamingState) :
    Steady state [] (noteFinish choice (noteChunk env chunk state)) := by
  unfold noteFinish
  split <;> exact Steady.alters rfl rfl rfl rfl

/-- A tool-call delta was led to `position`, where a new call stands when nothing was found for it. -/
structure Handled (state : StreamingState) (delta : ToolDelta) (position : Nat)
    (words : List (BlockKind × Nat × String)) (after : StreamingState) : Prop where
  byIndex : ∀ index, after.tool_call_blocks_by_index.lookup index =
    if delta.index = some index then some position else state.tool_call_blocks_by_index.lookup index
  byId : ∀ id, after.tool_call_blocks_by_id.lookup id =
    if delta.id = some id then some position else state.tool_call_blocks_by_id.lookup id
  kinds : kindsOf after.content =
    kindsOf state.content ++ if (lookupBlock delta.index delta.id state).isSome then [] else [.call]
  spoken : spoken after.pushed = spoken state.pushed ++ words

namespace Handled

variable {state after last : StreamingState} {delta : ToolDelta} {position : Nat}
  {words : List (BlockKind × Nat × String)}

theorem ensured (state : StreamingState) (delta : ToolDelta) :
    (ensure_tool_call_block delta.index delta.id state).1 =
        (lookupBlock delta.index delta.id state).getD state.content.length ∧
      Handled state delta ((lookupBlock delta.index delta.id state).getD state.content.length) []
        (ensure_tool_call_block delta.index delta.id state).2 := by
  unfold ensure_tool_call_block
  cases hFound : lookupBlock delta.index delta.id state with
  | some position =>
    refine ⟨rfl, fun index => lookup_bind _ _ _ _, fun id => lookup_bind _ _ _ _, ?_, (List.append_nil _).symm⟩
    rw [hFound]
    exact (List.append_nil _).symm
  | none =>
    refine ⟨rfl, fun index => lookup_bind _ _ _ _, fun id => lookup_bind _ _ _ _, ?_, ?_⟩
    · simp [hFound, openBlock, push, kindsOf, bindKeys, shapeOf]
    · rw [openBlock, spoken_push]
      rfl

theorem alters (hHandled : Handled state delta position words after)
    (hIndex : last.tool_call_blocks_by_index = after.tool_call_blocks_by_index)
    (hId : last.tool_call_blocks_by_id = after.tool_call_blocks_by_id)
    (hKinds : kindsOf last.content = kindsOf after.content) (hPushed : last.pushed = after.pushed) :
    Handled state delta position words last :=
  ⟨fun index => hIndex ▸ hHandled.byIndex index, fun id => hId ▸ hHandled.byId id, hKinds.trans hHandled.kinds,
    hPushed ▸ hHandled.spoken⟩

theorem named (hHandled : Handled state delta position words after) :
    Handled state delta position words (nameBlock delta position after) := by
  have hNamed : Handled state delta position words (after.modify position (nameCall delta)) :=
    hHandled.alters rfl rfl (kindsOf_modify (fun block => congrArg Prod.fst (shapeOf_nameCall delta block)) _ _) rfl
  unfold nameBlock
  split
  · refine ⟨hNamed.byIndex, fun id => ?_, hNamed.kinds, hNamed.spoken⟩
    refine (lookup_bind delta.id position _ id).trans ?_
    split
    · rfl
    · rename_i hOther
      exact (hNamed.byId id).trans (if_neg hOther)
  · exact hNamed

end Handled

theorem handle_tool_call_handled (env : Env) (state : StreamingState) (delta : ToolDelta) :
    Handled state delta ((lookupBlock delta.index delta.id state).getD state.content.length)
      [(.call, (lookupBlock delta.index delta.id state).getD state.content.length, delta.fragment.getD "")]
      (handle_tool_call env state delta) := by
  obtain ⟨hPosition, hEnsured⟩ := Handled.ensured state delta
  have hNamed := hEnsured.named
  have hAppended : Handled state delta ((lookupBlock delta.index delta.id state).getD state.content.length) []
      (match delta.fragment with
        | some fragment => appendArguments env ((lookupBlock delta.index delta.id state).getD state.content.length)
            fragment (nameBlock delta ((lookupBlock delta.index delta.id state).getD state.content.length)
              (ensure_tool_call_block delta.index delta.id state).2)
        | none => nameBlock delta ((lookupBlock delta.index delta.id state).getD state.content.length)
            (ensure_tool_call_block delta.index delta.id state).2) := by
    cases delta.fragment with
    | none => exact hNamed
    | some fragment =>
      exact hNamed.alters rfl rfl
        (kindsOf_modify (fun block => congrArg Prod.fst (shapeOf_setArguments _ block)) _ _) rfl
  unfold handle_tool_call
  dsimp only
  rw [hPosition]
  refine ⟨hAppended.byIndex, hAppended.byId, hAppended.kinds, ?_⟩
  refine (spoken_push _ _).trans ?_
  refine (congrArg (· ++ _) (hAppended.spoken.trans (List.append_nil _))).trans ?_
  rfl

/-- The tables and the events follow the routes: `place` is the block the delta of a number opened. -/
structure Routed (place : Nat → Nat) (led : List Led) (words : List (BlockKind × String))
    (state : StreamingState) : Prop where
  below : ∀ entry ∈ led, entry.2 < led.length
  apart : ∀ entry ∈ led, ∀ other ∈ led, place entry.2 = place other.2 → entry.2 = other.2
  calls : ∀ position, (kindsOf state.content)[position]? = some .call ↔ ∃ entry ∈ led, place entry.2 = position
  byIndex : ∀ index, state.tool_call_blocks_by_index.lookup index = (lastLed (·.index == some index) led).map place
  byId : ∀ id, state.tool_call_blocks_by_id.lookup id = (lastLed (·.id == some id) led).map place
  routed : routed state.pushed = led.reverse.map fun entry => (place entry.2, entry.1.fragment.getD "")
  heard : heard state.pushed = words

namespace Routed

variable {place : Nat → Nat} {led : List Led} {words more : List (BlockKind × String)}
  {state after : StreamingState} {delta : ToolDelta}

theorem initial : Routed id [] [] .initial :=
  ⟨nofun, nofun, fun _ => ⟨nofun, nofun⟩, fun _ => rfl, fun _ => rfl, rfl, rfl⟩

section

variable (hRouted : Routed place led words state)

include hRouted

theorem found (delta : ToolDelta) :
    lookupBlock delta.index delta.id state = (earlier led delta).map place := by
  have hIndex : (delta.index.bind fun index => state.tool_call_blocks_by_index.lookup index) =
      (delta.index.bind fun index => lastLed (·.index == some index) led).map place := by
    cases delta.index with
    | none => rfl
    | some index => exact hRouted.byIndex index
  have hId : (delta.id.bind fun id => state.tool_call_blocks_by_id.lookup id) =
      (delta.id.bind fun id => lastLed (·.id == some id) led).map place := by
    cases delta.id with
    | none => rfl
    | some id => exact hRouted.byId id
  rw [lookupBlock, hIndex, hId, earlier]
  cases delta.index.bind fun index => lastLed (·.index == some index) led <;> rfl

theorem steady (hSteady : Steady state more after) :
    Routed place led (words ++ more) after := by
  obtain ⟨opened, hKinds, hNoCall⟩ := hSteady.kinds
  obtain ⟨told, hTold, hWords⟩ := hSteady.spoken
  refine ⟨hRouted.below, hRouted.apart, fun position => ?_, fun index => ?_, fun id => ?_, ?_, ?_⟩
  · rw [← hRouted.calls, hKinds]
    rcases Nat.lt_or_ge position (kindsOf state.content).length with hBelow | hAbove
    · rw [List.getElem?_append_left hBelow]
    · rw [List.getElem?_append_right hAbove, List.getElem?_eq_none hAbove]
      exact ⟨fun hCall => absurd (List.mem_of_getElem? hCall) hNoCall, nofun⟩
  · rw [hSteady.byIndex, hRouted.byIndex]
  · rw [hSteady.byId, hRouted.byId]
  · rw [← hRouted.routed, Completions.routed, Completions.routed, hTold, List.filterMap_append]
    refine (congrArg _ (List.filterMap_eq_nil_iff.mpr fun entry hMem => ?_)).trans (List.append_nil _)
    refine if_neg (hSteady.noCall (entry.1, entry.2.2) ?_)
    rw [← hWords]
    exact List.mem_map_of_mem hMem
  · rw [← hRouted.heard, Completions.heard, Completions.heard, hTold, List.map_append, hWords]

theorem extended {position : Nat}
    (hHandled : Handled state delta position [(.call, position, delta.fragment.getD "")] after) {placed : Nat → Nat}
    (hOld : ∀ entry ∈ led, placed entry.2 = place entry.2)
    (hNew : placed ((earlier led delta).getD led.length) = position)
    (hBelow : (earlier led delta).getD led.length < led.length + 1)
    (hApart : ∀ entry ∈ led, place entry.2 = position → entry.2 = (earlier led delta).getD led.length)
    (hCalls : ∀ other, (kindsOf after.content)[other]? = some .call ↔
      position = other ∨ ∃ entry ∈ led, place entry.2 = other) :
    Routed placed (lead led delta) (words ++ [(.call, delta.fragment.getD "")]) after := by
  have hLast : ∀ carries : ToolDelta → Bool, (lastLed carries (lead led delta)).map placed =
      if carries delta then some position else (lastLed carries led).map place := by
    intro carries
    rw [lead, lastLed_cons]
    split
    · exact congrArg some hNew
    · cases hFound : lastLed carries led with
      | none => rfl
      | some leader =>
        obtain ⟨entry, hMem, rfl⟩ := lastLed_mem hFound
        exact congrArg some (hOld entry hMem)
  refine ⟨fun entry hMem => ?_, fun entry hMem other hOther hSame => ?_, fun other => ?_, fun index => ?_,
    fun id => ?_, ?_, ?_⟩
  · rcases List.mem_cons.mp hMem with rfl | hMem
    · exact hBelow
    · exact Nat.lt_succ_of_lt (hRouted.below entry hMem)
  · rcases List.mem_cons.mp hMem with rfl | hMem <;> rcases List.mem_cons.mp hOther with rfl | hOther
    · rfl
    · exact (hApart other hOther ((hOld other hOther).symm.trans (hSame.symm.trans hNew))).symm
    · exact hApart entry hMem ((hOld entry hMem).symm.trans (hSame.trans hNew))
    · exact hRouted.apart entry hMem other hOther
        ((hOld entry hMem).symm.trans (hSame.trans (hOld other hOther)))
  · rw [hCalls, lead]
    simp only [List.mem_cons, exists_eq_or_imp, hNew]
    refine or_congr_right ⟨?_, ?_⟩
    · rintro ⟨entry, hMem, hPlace⟩
      exact ⟨entry, hMem, (hOld entry hMem).trans hPlace⟩
    · rintro ⟨entry, hMem, hPlace⟩
      exact ⟨entry, hMem, (hOld entry hMem).symm.trans hPlace⟩
  · rw [hHandled.byIndex, hLast, hRouted.byIndex]
    simp only [beq_iff_eq]
  · rw [hHandled.byId, hLast, hRouted.byId]
    simp only [beq_iff_eq]
  · have hMap : led.reverse.map (fun entry => (placed entry.2, entry.1.fragment.getD "")) =
        led.reverse.map fun entry => (place entry.2, entry.1.fragment.getD "") :=
      List.map_congr_left fun entry hMem => by rw [hOld entry (List.mem_reverse.mp hMem)]
    rw [Completions.routed, hHandled.spoken, List.filterMap_append, ← Completions.routed, hRouted.routed, lead,
      List.reverse_cons, List.map_append, hMap, List.map_singleton, hNew]
    rfl
  · rw [← hRouted.heard, Completions.heard, hHandled.spoken, List.map_append]
    rfl

theorem handled (hHandled : Handled state delta ((lookupBlock delta.index delta.id state).getD state.content.length)
      [(.call, (lookupBlock delta.index delta.id state).getD state.content.length, delta.fragment.getD "")] after) :
    ∃ place, Routed place (lead led delta) (words ++ [(.call, delta.fragment.getD "")]) after := by
  have hLength : (kindsOf state.content).length = state.content.length := List.length_map _
  have hKinds := hHandled.kinds
  rw [hRouted.found] at hHandled hKinds
  cases hEarlier : earlier led delta with
  | some leader =>
    obtain ⟨known, hKnown, hLeader⟩ := earlier_mem hEarlier
    rw [hEarlier] at hHandled hKinds
    refine ⟨place, hRouted.extended hHandled (fun _ _ => rfl) ?_ ?_ ?_ fun other => ?_⟩
    · rw [hEarlier]
      rfl
    · rw [hEarlier, ← hLeader]
      exact Nat.lt_succ_of_lt (hRouted.below known hKnown)
    · intro entry hMem hPlace
      rw [hEarlier, ← hLeader]
      exact hRouted.apart entry hMem known hKnown (hLeader ▸ hPlace)
    · rw [hKinds]
      simp only [Option.map_some, Option.isSome_some, if_true, List.append_nil, Option.getD_some]
      rw [hRouted.calls]
      exact ⟨Or.inr, fun hOr => hOr.elim (fun hHere => ⟨known, hKnown, hLeader ▸ hHere⟩) id⟩
  | none =>
    rw [hEarlier] at hHandled hKinds
    have hInside : ∀ entry ∈ led, place entry.2 < state.content.length := fun entry hMem =>
      hLength ▸ (List.getElem?_eq_some_iff.mp ((hRouted.calls _).mpr ⟨entry, hMem, rfl⟩)).1
    refine ⟨Function.update place led.length state.content.length, hRouted.extended hHandled ?_ ?_ ?_ ?_
      fun other => ?_⟩
    · exact fun entry hMem => Function.update_of_ne (Nat.ne_of_lt (hRouted.below entry hMem)) _ _
    · rw [hEarlier]
      exact Function.update_self _ _ _
    · rw [hEarlier]
      exact Nat.lt_succ_self _
    · exact fun entry hMem hPlace => absurd hPlace (Nat.ne_of_lt (hInside entry hMem))
    · rw [hKinds, ← hRouted.calls]
      simp only [Option.map_none, Option.isSome_none, Option.getD_none]
      rcases Nat.lt_trichotomy other state.content.length with hBelow | rfl | hAbove
      · rw [List.getElem?_append_left (hLength.symm ▸ hBelow)]
        exact ⟨Or.inr, fun hOr => hOr.resolve_left (by omega)⟩
      · simp [← hLength]
      · rw [List.getElem?_eq_none (by simp [hLength]; omega), List.getElem?_eq_none (by omega)]
        simp only [reduceCtorEq, or_false, false_iff]
        omega

end

end Routed

def wordsIn (delta : Json) : List (BlockKind × String) :=
  textOf delta ++ reasoningOf delta ++ (toolCalls delta).map fun call => (.call, call.fragment.getD "")

def wordsOf (chunk : Json) : List (BlockKind × String) :=
  (deltaOf chunk).elim [] wordsIn

def toolDeltas (chunk : Json) : List ToolDelta :=
  (deltaOf chunk).elim [] toolCalls

theorem handle_chunk_routed (env : Env) {place : Nat → Nat} {words : List (BlockKind × String)} {state : StreamingState}
    (hRouted : Routed place led words state) (chunk : Json) :
    ∃ place, Routed place ((toolDeltas chunk).foldl lead led) (words ++ wordsOf chunk)
      (handle_chunk env state chunk) := by
  have hCalls : ∀ (deltas : List ToolDelta) {place : Nat → Nat} {led : List Led}
      {words : List (BlockKind × String)} {state : StreamingState}, Routed place led words state →
      ∃ place, Routed place (deltas.foldl lead led) (words ++ deltas.map fun delta => (.call, delta.fragment.getD ""))
        (deltas.foldl (handle_tool_call env) state) := by
    intro deltas
    induction deltas with
    | nil => exact fun hRouted => ⟨_, by simpa using hRouted⟩
    | cons delta deltas ih =>
      intro place led words state hRouted
      obtain ⟨placed, hHandled⟩ := hRouted.handled (handle_tool_call_handled env state delta)
      obtain ⟨last, hLast⟩ := ih hHandled
      exact ⟨last, by simpa using hLast⟩
  have hNoted : ∀ choice, Routed place led words (noteFinish choice (noteChunk env chunk state)) := fun choice => by
    simpa using hRouted.steady (noteFinish_steady env chunk choice state)
  have hQuiet : deltaOf chunk = none → ∀ {after}, Steady state [] after →
      ∃ place, Routed place ((toolDeltas chunk).foldl lead led) (words ++ wordsOf chunk) after := by
    intro hNone after hSteady
    rw [toolDeltas, wordsOf, hNone]
    exact ⟨place, hRouted.steady hSteady⟩
  unfold handle_chunk
  split
  · dsimp only
    split
    · rename_i hChoice
      exact hQuiet (by rw [deltaOf, hChoice]; rfl) (Steady.alters rfl rfl rfl rfl)
    · rename_i choice _
      split
      · rename_i hNone
        exact hQuiet hNone (noteFinish_steady env chunk choice state)
      · rename_i delta hDelta
        have hSpoken := ((hNoted choice).steady (handle_text_steady delta _)).steady (handle_reasoning_steady delta _)
        obtain ⟨placed, hPlaced⟩ := hCalls (toolCalls delta) hSpoken
        have hLast := hPlaced.steady (handle_details_steady env delta _)
        rw [toolDeltas, wordsOf, hDelta]
        exact ⟨placed, by simpa [wordsIn, handle_delta] using hLast⟩
  · rename_i hObject
    refine hQuiet ?_ (Steady.refl state)
    cases chunk with
    | object members => exact absurd rfl hObject
    | _ => rfl

theorem chunks_routed (env : Env) (chunks : List Json) :
    ∃ place, Routed place ((chunks.flatMap toolDeltas).foldl lead []) (chunks.flatMap wordsOf)
      (chunks.foldl (handle_chunk env) .initial) := by
  have hRun : ∀ (chunks : List Json) {place : Nat → Nat} {led : List Led} {words : List (BlockKind × String)}
      {state : StreamingState}, Routed place led words state →
      ∃ place, Routed place ((chunks.flatMap toolDeltas).foldl lead led) (words ++ chunks.flatMap wordsOf)
        (chunks.foldl (handle_chunk env) state) := by
    intro chunks
    induction chunks with
    | nil => exact fun hRouted => ⟨_, by simpa using hRouted⟩
    | cons chunk chunks ih =>
      intro place led words state hRouted
      obtain ⟨placed, hChunk⟩ := handle_chunk_routed env hRouted chunk
      obtain ⟨last, hLast⟩ := ih hChunk
      exact ⟨last, by simpa [List.flatMap_cons, List.foldl_append] using hLast⟩
  exact hRun chunks Routed.initial

end PrimeAgent.Provider.Completions
