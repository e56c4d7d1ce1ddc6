import PrimeAgent.Provider.Completions

/-! # What the OpenAI completions stream tells

The events of a block begin with its start and go on with its deltas, and its text is what the deltas say.
For a call that is the text of its scratch.
-/
namespace PrimeAgent.Provider.Completions

open StreamingState

inductive BlockKind where
  | text
  | thinking
  | call
deriving DecidableEq

def shapeOf : AssistantContentBlock → BlockKind × String
  | .text content => (.text, content.text)
  | .thinking content => (.thinking, content.thinking)
  | .toolCall _ => (.call, "")

def shape (content : List AssistantContentBlock) : List (BlockKind × String) :=
  content.map shapeOf

def said : Pushed → Option (BlockKind × Nat × String)
  | .textDelta position delta _ => some (.text, position, delta)
  | .thinkingDelta position delta _ => some (.thinking, position, delta)
  | .toolcallDelta position delta _ => some (.call, position, delta)
  | _ => none

def saidTo (kind : BlockKind) (position : Nat) (event : Pushed) : Option String :=
  match said event with
  | some (told, index, delta) => if told = kind ∧ index = position then some delta else none
  | none => none

def saidAt (kind : BlockKind) (position : Nat) (pushed : List Pushed) : List String :=
  pushed.filterMap (saidTo kind position)

def scratchText (scratches : List (Nat × StreamingJsonAccumulator)) (position : Nat) : String :=
  ((scratches.lookup position).map StreamingJsonAccumulator.text).getD ""

def wordsAt (scratches : List (Nat × StreamingJsonAccumulator)) (position : Nat) : BlockKind × String → String
  | (.call, _) => scratchText scratches position
  | (_, words) => words

structure Told (blocks : List (BlockKind × String)) (scratches : List (Nat × StreamingJsonAccumulator))
    (pushed : List Pushed) : Prop where
  kinds : ∀ position, position < blocks.length →
    ∃ count, kindsAt position pushed = .started :: List.replicate count .delta
  words : ∀ position block, blocks[position]? = some block →
    wordsAt scratches position block = joined (saidAt block.1 position pushed)
  nothing : ∀ position, blocks.length ≤ position →
    kindsAt position pushed = [] ∧ (∀ kind, saidAt kind position pushed = []) ∧ scratches.lookup position = none

theorem kindsAt_append (position : Nat) (pushed : List Pushed) (event : Pushed) :
    kindsAt position (pushed ++ [event]) =
      kindsAt position pushed ++ if event.contentIndex = position then [event.kind] else [] := by
  by_cases hAt : event.contentIndex = position <;> simp [kindsAt, List.filter_append, hAt]

theorem saidAt_append (kind : BlockKind) (position : Nat) (pushed : List Pushed) (event : Pushed) :
    saidAt kind position (pushed ++ [event]) =
      saidAt kind position pushed ++ (saidTo kind position event).toList := by
  cases hSaid : saidTo kind position event <;> simp [saidAt, List.filterMap_append, hSaid]

namespace Told

variable {blocks : List (BlockKind × String)} {scratches : List (Nat × StreamingJsonAccumulator)}
  {pushed : List Pushed} {event : Pushed}

theorem initial : Told [] [] [] :=
  ⟨nofun, nofun, fun _ _ => ⟨rfl, fun _ => rfl, rfl⟩⟩

theorem opened (hTold : Told blocks scratches pushed) (kind : BlockKind) (hAt : event.contentIndex = blocks.length)
    (hKind : event.kind = .started) (hSaid : said event = none) :
    Told (blocks ++ [(kind, "")]) scratches (pushed ++ [event]) := by
  have hSilent : ∀ other position, saidTo other position event = none := fun _ _ => by simp [saidTo, hSaid]
  have hSame : ∀ other position, saidAt other position (pushed ++ [event]) = saidAt other position pushed := by
    intro other position
    rw [saidAt_append, hSilent, Option.toList_none, List.append_nil]
  constructor
  · intro position hPosition
    rw [kindsAt_append, hAt]
    rcases Nat.lt_succ_iff_lt_or_eq.mp (by simpa using hPosition) with hBelow | rfl
    · rw [if_neg (by omega), List.append_nil]
      exact hTold.kinds position hBelow
    · rw [if_pos rfl, (hTold.nothing _ (Nat.le_refl _)).1, hKind]
      exact ⟨0, rfl⟩
  · intro position block hBlock
    rw [hSame]
    rcases Nat.lt_trichotomy position blocks.length with hBelow | rfl | hAbove
    · rw [List.getElem?_append_left hBelow] at hBlock
      exact hTold.words position block hBlock
    · rw [List.getElem?_append_right (Nat.le_refl _), Nat.sub_self] at hBlock
      cases hBlock
      obtain ⟨-, hUnsaid, hScratch⟩ := hTold.nothing _ (Nat.le_refl _)
      rw [hUnsaid]
      cases kind
      · rfl
      · rfl
      · change scratchText scratches blocks.length = ""
        rw [scratchText, hScratch]
        rfl
    · rw [List.getElem?_eq_none (by simp; omega)] at hBlock
      cases hBlock
  · intro position hPosition
    rw [List.length_append, List.length_singleton] at hPosition
    obtain ⟨hNone, hUnsaid, hScratch⟩ := hTold.nothing position (by omega)
    refine ⟨?_, fun other => (hSame other position).trans (hUnsaid other), hScratch⟩
    rw [kindsAt_append, hAt, if_neg (by omega), hNone, List.append_nil]

theorem deltaAt (hTold : Told blocks scratches pushed) {position : Nat} {block after : BlockKind × String}
    {grown : List (Nat × StreamingJsonAccumulator)} {delta : String} (hBlock : blocks[position]? = some block)
    (hAt : event.contentIndex = position) (hKind : event.kind = .delta)
    (hSaid : said event = some (block.1, position, delta)) (hAfter : after.1 = block.1)
    (hWords : wordsAt grown position after = wordsAt scratches position block ++ delta)
    (hOthers : ∀ other, other ≠ position → grown.lookup other = scratches.lookup other) :
    Told (blocks.set position after) grown (pushed ++ [event]) := by
  obtain ⟨hLength, hGet⟩ := List.getElem?_eq_some_iff.mp hBlock
  have hOther : ∀ other kind, other ≠ position →
      saidAt kind other (pushed ++ [event]) = saidAt kind other pushed := by
    intro other kind hNe
    rw [saidAt_append, saidTo, hSaid]
    simp [hNe.symm]
  constructor
  · intro other hLess
    rw [List.length_set] at hLess
    obtain ⟨count, hKinds⟩ := hTold.kinds other hLess
    rw [kindsAt_append, hKinds, hAt, hKind]
    split
    · exact ⟨count + 1, by simp [List.replicate_succ']⟩
    · exact ⟨count, List.append_nil _⟩
  · intro other found hFound
    by_cases hNe : other = position
    · subst hNe
      rw [List.getElem?_set_self hLength] at hFound
      cases hFound
      rw [hWords, hTold.words other block hBlock, hAfter, saidAt_append, saidTo, hSaid]
      simp [joined_append]
    · rw [List.getElem?_set_ne (Ne.symm hNe)] at hFound
      rw [hOther other _ hNe, ← hTold.words other found hFound]
      cases hKind : found.1 <;> obtain ⟨kind, words⟩ := found <;> cases hKind
      · rfl
      · rfl
      · change scratchText grown other = scratchText scratches other
        rw [scratchText, scratchText, hOthers other hNe]
  · intro other hLess
    rw [List.length_set] at hLess
    have hNe : other ≠ position := by omega
    obtain ⟨hNone, hUnsaid, hScratch⟩ := hTold.nothing other hLess
    refine ⟨?_, fun kind => (hOther other kind hNe).trans (hUnsaid kind), (hOthers other hNe).trans hScratch⟩
    rw [kindsAt_append, hAt, if_neg (Ne.symm hNe), hNone, List.append_nil]

end Told

def IsKind (blocks : List (BlockKind × String)) (kind : BlockKind) (position : Nat) : Prop :=
  ∃ words, blocks[position]? = some (kind, words)

def Keeps (blocks after : List (BlockKind × String)) : Prop :=
  ∀ kind position, IsKind blocks kind position → IsKind after kind position

theorem keeps_append (blocks more : List (BlockKind × String)) : Keeps blocks (blocks ++ more) := by
  rintro kind position ⟨words, hBlock⟩
  obtain ⟨hLength, -⟩ := List.getElem?_eq_some_iff.mp hBlock
  exact ⟨words, (List.getElem?_append_left hLength).trans hBlock⟩

variable {position : Nat} {change : AssistantContentBlock → AssistantContentBlock}
  {content : List AssistantContentBlock} {kind : BlockKind} {delta : String} {state : StreamingState}

theorem keeps_set {blocks : List (BlockKind × String)} {block after : BlockKind × String}
    (hBlock : blocks[position]? = some block) (hAfter : after.1 = block.1) :
    Keeps blocks (blocks.set position after) := by
  rintro kind other ⟨words, hOther⟩
  obtain ⟨hLength, -⟩ := List.getElem?_eq_some_iff.mp hBlock
  by_cases hNe : other = position
  · subst hNe
    rw [hBlock] at hOther
    cases hOther
    exact ⟨after.2, (List.getElem?_set_self hLength).trans (congrArg some (Prod.ext hAfter rfl))⟩
  · exact ⟨words, (List.getElem?_set_ne (Ne.symm hNe)).trans hOther⟩

structure Inv (state : StreamingState) : Prop where
  told : Told (shape state.content) state.tool_call_partial_args state.pushed
  text : ∀ position, state.text_block = some position → IsKind (shape state.content) .text position
  thinking : ∀ position, state.thinking_block = some position → IsKind (shape state.content) .thinking position
  byIndex : ∀ index position, state.tool_call_blocks_by_index.lookup index = some position →
    IsKind (shape state.content) .call position
  byId : ∀ id position, state.tool_call_blocks_by_id.lookup id = some position →
    IsKind (shape state.content) .call position

structure SamePointers (state after : StreamingState) : Prop where
  text : after.text_block = state.text_block
  thinking : after.thinking_block = state.thinking_block
  byIndex : after.tool_call_blocks_by_index = state.tool_call_blocks_by_index
  byId : after.tool_call_blocks_by_id = state.tool_call_blocks_by_id

namespace Inv

variable {state after : StreamingState}

theorem initial : Inv .initial :=
  ⟨Told.initial, nofun, nofun, nofun, nofun⟩

theorem carry (hInv : Inv state) (hPointers : SamePointers state after)
    (hKeeps : Keeps (shape state.content) (shape after.content))
    (hTold : Told (shape after.content) after.tool_call_partial_args after.pushed) : Inv after := by
  refine ⟨hTold, fun position hText => ?_, fun position hThinking => ?_, fun index position hIndex => ?_,
    fun id position hId => ?_⟩
  · exact hKeeps _ _ (hInv.text position (hPointers.text ▸ hText))
  · exact hKeeps _ _ (hInv.thinking position (hPointers.thinking ▸ hThinking))
  · exact hKeeps _ _ (hInv.byIndex index position (hPointers.byIndex ▸ hIndex))
  · exact hKeeps _ _ (hInv.byId id position (hPointers.byId ▸ hId))

theorem quiet (hInv : Inv state) (hPointers : SamePointers state after)
    (hShape : shape after.content = shape state.content)
    (hScratches : after.tool_call_partial_args = state.tool_call_partial_args)
    (hPushed : after.pushed = state.pushed) : Inv after := by
  refine hInv.carry hPointers (fun _ _ hKind => hShape ▸ hKind) ?_
  rw [hShape, hScratches, hPushed]
  exact hInv.told

end Inv

theorem shape_modify (hChange : ∀ block, shapeOf (change block) = shapeOf block) (content : List AssistantContentBlock)
    (position : Nat) : shape (content.modify position change) = shape content := by
  apply List.ext_getElem?
  intro other
  rw [shape, shape, List.getElem?_map, List.getElem?_map, List.getElem?_modify]
  split
  · cases content[other]? with
    | none => rfl
    | some block => exact congrArg some (hChange block)
  · simp

theorem shape_map (hChange : ∀ block, shapeOf (change block) = shapeOf block) (content : List AssistantContentBlock) :
    shape (content.map change) = shape content := by
  rw [shape, shape, List.map_map]
  exact List.map_congr_left fun block _ => hChange block

theorem block_at (hKind : IsKind (shape content) kind position) :
    ∃ block, content[position]? = some block ∧ (shapeOf block).1 = kind := by
  obtain ⟨words, hShape⟩ := hKind
  rw [shape, List.getElem?_map] at hShape
  obtain ⟨block, hBlock, hShape⟩ := Option.map_eq_some_iff.mp hShape
  exact ⟨block, hBlock, by rw [hShape]⟩

theorem shape_modify_at {block : AssistantContentBlock} (hBlock : content[position]? = some block)
    (change : AssistantContentBlock → AssistantContentBlock) :
    shape (content.modify position change) = (shape content).set position (shapeOf (change block)) := by
  rw [modify_at hBlock, shape, List.map_set, shape]

theorem Inv.says_words (hInv : Inv state) (hKind : IsKind (shape state.content) kind position) (hCall : kind ≠ .call)
    (hChange : ∀ block, (shapeOf block).1 = kind → shapeOf (change block) = (kind, (shapeOf block).2 ++ delta))
    {event : List AssistantContentBlock → Pushed}
    (hEvent : ∀ snapshot, (event snapshot).contentIndex = position ∧ (event snapshot).kind = .delta ∧
      said (event snapshot) = some (kind, position, delta)) :
    Inv (push event (state.modify position change)) := by
  obtain ⟨block, hBlock, rfl⟩ := block_at hKind
  have hShape : (shape state.content)[position]? = some (shapeOf block) := by
    rw [shape, List.getElem?_map, hBlock, Option.map_some]
  have hContent := shape_modify_at hBlock change
  rw [hChange block rfl] at hContent
  refine hInv.carry ⟨rfl, rfl, rfl, rfl⟩ ?_ ?_
  · change Keeps (shape state.content) (shape (state.content.modify position change))
    rw [hContent]
    exact keeps_set hShape rfl
  · change Told (shape (state.content.modify position change)) state.tool_call_partial_args
      (state.pushed ++ [event (state.content.modify position change)])
    rw [hContent]
    obtain ⟨hAt, hDelta, hSaid⟩ := hEvent (state.content.modify position change)
    refine hInv.told.deltaAt hShape hAt hDelta hSaid rfl ?_ fun _ _ => rfl
    cases hOf : shapeOf block with
    | mk kind words =>
      rw [hOf] at hCall
      cases kind with
      | call => exact absurd rfl hCall
      | text => rfl
      | thinking => rfl

theorem Inv.opens {state : StreamingState} (hInv : Inv state) (block : AssistantContentBlock)
    (hBlock : (shapeOf block).2 = "") {announce : Nat → List AssistantContentBlock → Pushed}
    (hAnnounce : ∀ snapshot, (announce state.content.length snapshot).contentIndex = state.content.length ∧
      (announce state.content.length snapshot).kind = .started ∧
      said (announce state.content.length snapshot) = none) :
    Inv (openBlock block announce state) ∧
      IsKind (shape (openBlock block announce state).content) (shapeOf block).1 state.content.length := by
  have hLength : (shape state.content).length = state.content.length := List.length_map _
  have hShape : shape (state.content ++ [block]) = shape state.content ++ [((shapeOf block).1, "")] := by
    rw [shape, List.map_append, ← hBlock]
    rfl
  constructor
  · refine hInv.carry ⟨rfl, rfl, rfl, rfl⟩ ?_ ?_
    · change Keeps (shape state.content) (shape (state.content ++ [block]))
      rw [hShape]
      exact keeps_append _ _
    · change Told (shape (state.content ++ [block])) state.tool_call_partial_args
        (state.pushed ++ [announce state.content.length (state.content ++ [block])])
      rw [hShape]
      obtain ⟨hAt, hKind, hSaid⟩ := hAnnounce (state.content ++ [block])
      exact hInv.told.opened _ (hAt.trans hLength.symm) hKind hSaid
  · refine ⟨"", ?_⟩
    change (shape (state.content ++ [block]))[state.content.length]? = _
    rw [hShape, ← hLength, List.getElem?_append_right (Nat.le_refl _), Nat.sub_self]
    rfl

theorem handle_text_inv (hInv : Inv state) (delta : Json) : Inv (handle_text delta state) := by
  unfold handle_text
  split
  · exact hInv
  · rename_i content _
    split
    · exact hInv
    · have hEnsured : Inv state.ensure_text_block.2 ∧
          IsKind (shape state.ensure_text_block.2.content) .text state.ensure_text_block.1 := by
        unfold ensure_text_block
        cases hText : state.text_block with
        | some position => exact ⟨hInv, hInv.text position hText⟩
        | none =>
          obtain ⟨hOpened, hKind⟩ := @Inv.opens _ hInv (.text ⟨"", none⟩) rfl .textStart
            fun _ => ⟨rfl, rfl, rfl⟩
          refine ⟨⟨hOpened.told, fun position hPosition => ?_, hOpened.thinking, hOpened.byIndex, hOpened.byId⟩, hKind⟩
          cases hPosition
          exact hKind
      refine hEnsured.1.says_words hEnsured.2 nofun (fun block hBlock => ?_) fun _ => ⟨rfl, rfl, rfl⟩
      cases block <;> first | rfl | cases hBlock

theorem handle_reasoning_inv (hInv : Inv state) (delta : Json) :
    Inv (handle_reasoning delta state) := by
  unfold handle_reasoning
  split
  · exact hInv
  · rename_i field value _
    have hEnsured : Inv (state.ensure_thinking_block field).2 ∧
        IsKind (shape (state.ensure_thinking_block field).2.content) .thinking (state.ensure_thinking_block field).1 := by
      unfold ensure_thinking_block
      cases hThinking : state.thinking_block with
      | some position => exact ⟨hInv, hInv.thinking position hThinking⟩
      | none =>
        obtain ⟨hOpened, hKind⟩ := @Inv.opens _ hInv (.thinking ⟨"", some field, none⟩) rfl
          .thinkingStart fun _ => ⟨rfl, rfl, rfl⟩
        refine ⟨⟨hOpened.told, hOpened.text, fun position hPosition => ?_, hOpened.byIndex, hOpened.byId⟩, hKind⟩
        cases hPosition
        exact hKind
    refine hEnsured.1.says_words hEnsured.2 nofun (fun block hBlock => ?_) fun _ => ⟨rfl, rfl, rfl⟩
    cases block <;> first | rfl | cases hBlock

theorem lookup_bind {α : Type} [BEq α] [LawfulBEq α] [DecidableEq α] (key : Option α) (position : Nat)
    (map : List (α × Nat)) (found : α) :
    ((key.map (·, position)).toList ++ map).lookup found =
      if key = some found then some position else map.lookup found := by
  cases key with
  | none => rfl
  | some bound =>
    by_cases hSame : bound = found
    · simp [hSame]
    · have hTest : (found == bound) = false := by simpa using Ne.symm hSame
      simp [List.lookup_cons, hTest, hSame]

theorem Inv.binds (hInv : Inv state) (index : Option Nat) (id : Option String)
    (hKind : IsKind (shape state.content) .call position) :
    Inv (bindKeys index id position state) := by
  refine ⟨hInv.told, hInv.text, hInv.thinking, fun found at_ hFound => ?_, fun found at_ hFound => ?_⟩
  · have hLookup := (lookup_bind index position state.tool_call_blocks_by_index found).symm.trans hFound
    split at hLookup
    · cases hLookup
      exact hKind
    · exact hInv.byIndex found at_ hLookup
  · have hLookup := (lookup_bind id position state.tool_call_blocks_by_id found).symm.trans hFound
    split at hLookup
    · cases hLookup
      exact hKind
    · exact hInv.byId found at_ hLookup

theorem Inv.lookups (hInv : Inv state) {index : Option Nat} {id : Option String}
    (hFound : lookupBlock index id state = some position) :
    IsKind (shape state.content) .call position := by
  unfold lookupBlock at hFound
  rcases Option.or_eq_some_iff.mp hFound with hIndex | ⟨-, hId⟩
  · obtain ⟨found, -, hLookup⟩ := Option.bind_eq_some_iff.mp hIndex
    exact hInv.byIndex found position hLookup
  · obtain ⟨found, -, hLookup⟩ := Option.bind_eq_some_iff.mp hId
    exact hInv.byId found position hLookup

theorem ensure_tool_call_inv (hInv : Inv state) (index : Option Nat) (id : Option String) :
    Inv (ensure_tool_call_block index id state).2 ∧
      IsKind (shape (ensure_tool_call_block index id state).2.content) .call
        (ensure_tool_call_block index id state).1 := by
  unfold ensure_tool_call_block
  cases hFound : lookupBlock index id state with
  | some position =>
    have hKind := hInv.lookups hFound
    exact ⟨hInv.binds index id hKind, hKind⟩
  | none =>
    obtain ⟨hOpened, hKind⟩ := @Inv.opens _ hInv (.toolCall ⟨id.getD "", "", [], none⟩) rfl .toolcallStart
      fun _ => ⟨rfl, rfl, rfl⟩
    exact ⟨hOpened.binds index id hKind, hKind⟩

theorem shapeOf_nameCall (delta : ToolDelta) (block : AssistantContentBlock) :
    shapeOf (nameCall delta block) = shapeOf block := by
  cases block <;> rfl

theorem shapeOf_setArguments (parsed : Option Json) (block : AssistantContentBlock) :
    shapeOf (setArguments parsed block) = shapeOf block := by
  cases block <;> rfl

theorem shapeOf_signCall (id signature : String) (block : AssistantContentBlock) :
    shapeOf (signCall id signature block) = shapeOf block := by
  cases block with
  | toolCall call => by_cases hId : call.id = id <;> simp [signCall, hId, shapeOf]
  | text content => rfl
  | thinking content => rfl

theorem nameBlock_inv (hInv : Inv state) (delta : ToolDelta) (hKind : IsKind (shape state.content) .call position) :
    Inv (nameBlock delta position state) ∧ shape (nameBlock delta position state).content = shape state.content := by
  have hShape : shape (state.modify position (nameCall delta)).content = shape state.content :=
    shape_modify (shapeOf_nameCall delta) _ _
  have hNamed : Inv (state.modify position (nameCall delta)) := hInv.quiet ⟨rfl, rfl, rfl, rfl⟩ hShape rfl rfl
  unfold nameBlock
  split
  · exact ⟨hNamed.binds none delta.id (hShape ▸ hKind), hShape⟩
  · exact ⟨hNamed, hShape⟩

theorem Inv.feeds {state after : StreamingState} (hInv : Inv state) (hPointers : SamePointers state after)
    (hKind : IsKind (shape state.content) .call position) {event : Pushed}
    (hEvent : event.contentIndex = position ∧ event.kind = .delta ∧ said event = some (.call, position, delta))
    (hShape : shape after.content = shape state.content) (hPushed : after.pushed = state.pushed ++ [event])
    (hText : scratchText after.tool_call_partial_args position =
      scratchText state.tool_call_partial_args position ++ delta) (hOthers : ∀ other, other ≠ position →
      after.tool_call_partial_args.lookup other = state.tool_call_partial_args.lookup other) : Inv after := by
  obtain ⟨words, hBlock⟩ := hKind
  refine hInv.carry hPointers (fun _ _ hOld => hShape ▸ hOld) ?_
  obtain ⟨hAt, hDelta, hSaid⟩ := hEvent
  have hTold := hInv.told.deltaAt hBlock hAt hDelta hSaid rfl hText hOthers
  rw [set_at hBlock] at hTold
  rwa [hShape, hPushed]

theorem scratchText_append (env : Env) (scratches : List (Nat × StreamingJsonAccumulator)) (position : Nat)
    (fragment : String) :
    (((scratches.lookup position).getD .default).append env.parser fragment).2.text =
      scratchText scratches position ++ fragment := by
  rw [StreamingJsonAccumulator.append_text, scratchText]
  cases scratches.lookup position <;> rfl

theorem handle_tool_call_inv (env : Env) (hInv : Inv state) (delta : ToolDelta) :
    Inv (handle_tool_call env state delta) := by
  obtain ⟨hEnsured, hKind⟩ := ensure_tool_call_inv hInv delta.index delta.id
  obtain ⟨hNamed, hShape⟩ := nameBlock_inv hEnsured delta hKind
  have hNamedKind := hShape.symm ▸ hKind
  unfold handle_tool_call
  cases delta.fragment with
  | none =>
    refine hNamed.feeds ⟨rfl, rfl, rfl, rfl⟩ hNamedKind ⟨rfl, rfl, rfl⟩ rfl rfl ?_ fun _ _ => rfl
    exact (String.append_empty).symm
  | some fragment =>
    refine hNamed.feeds ⟨rfl, rfl, rfl, rfl⟩ hNamedKind ⟨rfl, rfl, rfl⟩
      (shape_modify (shapeOf_setArguments _) _ _) rfl ?_ fun other hNe => ?_
    · rw [← scratchText_append env]
      simp [scratchText, push, appendArguments]
    · have hTest : (other == (ensure_tool_call_block delta.index delta.id state).1) = false := by simpa using hNe
      simp [push, appendArguments, List.lookup_cons, hTest]

theorem handle_reasoning_detail_inv (env : Env) (hInv : Inv state) (detail : Json) :
    Inv (handle_reasoning_detail env state detail) := by
  have hMerged : ∀ merged next, Inv { state with
      next_reasoning_details_index := next, reasoning_details_by_index := merged } := fun _ _ =>
    hInv.quiet ⟨rfl, rfl, rfl, rfl⟩ rfl rfl rfl
  unfold handle_reasoning_detail
  split
  · dsimp only
    split
    · split
      · split
        · exact hMerged _ _
        · exact (hMerged _ _).quiet ⟨rfl, rfl, rfl, rfl⟩ (shape_map (shapeOf_signCall _ _) _) rfl rfl
      · exact hMerged _ _
    · exact hMerged _ _
  · exact hInv

theorem openReasoning_inv (hInv : Inv state) : Inv (openReasoning state) := by
  unfold openReasoning
  split
  · obtain ⟨hOpened, -⟩ := @Inv.opens _ hInv (.thinking ⟨"", none, some true⟩) rfl .thinkingStart
      fun _ => ⟨rfl, rfl, rfl⟩
    exact ⟨hOpened.told, hOpened.text, hOpened.thinking, hOpened.byIndex, hOpened.byId⟩
  · exact hInv

theorem foldl_inv {α : Type} {step : StreamingState → α → StreamingState}
    (hStep : ∀ state item, Inv state → Inv (step state item)) (hInv : Inv state) (items : List α) :
    Inv (items.foldl step state) := by
  induction items generalizing state with
  | nil => exact hInv
  | cons item items ih => exact ih (hStep state item hInv)

theorem handle_delta_inv (env : Env) (hInv : Inv state) (delta : Json) :
    Inv (handle_delta env delta state) := by
  have hCalls := foldl_inv (fun _ call hInv => handle_tool_call_inv env hInv call)
    (handle_reasoning_inv (handle_text_inv hInv delta) delta) (toolCalls delta)
  unfold handle_delta handle_details
  split
  · exact openReasoning_inv (foldl_inv (fun _ detail hInv => handle_reasoning_detail_inv env hInv detail) hCalls _)
  · exact hCalls

theorem handle_chunk_inv (env : Env) (hInv : Inv state) (chunk : Json) :
    Inv (handle_chunk env state chunk) := by
  have hNoted : Inv (noteChunk env chunk state) := hInv.quiet ⟨rfl, rfl, rfl, rfl⟩ rfl rfl rfl
  have hFinished : ∀ choice, Inv (noteFinish choice (noteChunk env chunk state)) := by
    intro choice
    unfold noteFinish
    split
    · exact hNoted
    · exact hNoted.quiet ⟨rfl, rfl, rfl, rfl⟩ rfl rfl rfl
  unfold handle_chunk
  split
  · dsimp only
    split
    · exact hNoted
    · split
      · exact hFinished _
      · exact handle_delta_inv env (hFinished _) _
  · exact hInv

theorem chunks_inv (env : Env) (chunks : List Json) : Inv (chunks.foldl (handle_chunk env) .initial) :=
  foldl_inv (fun _ chunk hInv => handle_chunk_inv env hInv chunk) Inv.initial chunks

end PrimeAgent.Provider.Completions

/-! ## The end of an OpenAI completions stream

`finish_blocks` ends every block once, in order, and gives each call the arguments its scratch reads as.
-/
namespace PrimeAgent.Provider.Completions

open StreamingState

def endBlock (env : Env) (state : StreamingState) (position : Nat) : AssistantContentBlock → AssistantContentBlock
  | .toolCall call => .toolCall { call with
      arguments := objectOrEmpty (env.parser.parse (scratchText state.tool_call_partial_args position)) }
  | block => block

/-- The blocks below `count` are ended, and the others are as they were. -/
structure Ended (env : Env) (before : StreamingState) (count : Nat) (state : StreamingState) : Prop where
  content : ∀ position, state.content[position]? = if position < count
    then before.content[position]?.map (endBlock env before position) else before.content[position]?
  scratches : ∀ position, count ≤ position →
    state.tool_call_partial_args.lookup position = before.tool_call_partial_args.lookup position
  pushed : ∃ ends, state.pushed = before.pushed ++ ends ∧ ends.map Pushed.contentIndex = List.range count ∧
    (∀ event ∈ ends, event.kind = .ended ∧ said event = none) ∧
    ∀ event, ends.getLast? = some event → snapshotOf event = state.content

theorem ended_zero (env : Env) (state : StreamingState) : Ended env state 0 state :=
  ⟨fun _ => rfl, fun _ _ => rfl, [], (List.append_nil _).symm, rfl, nofun, nofun⟩

theorem lookup_filter_ne {scratches : List (Nat × StreamingJsonAccumulator)} {position other : Nat}
    (hNe : other ≠ position) : (scratches.filter (·.1 ≠ position)).lookup other = scratches.lookup other := by
  induction scratches with
  | nil => rfl
  | cons entry scratches ih =>
    obtain ⟨key, scratch⟩ := entry
    by_cases hKey : key = position
    · have hTest : (other == key) = false := by simpa [hKey] using hNe
      rw [List.filter_cons_of_neg (by simpa using hKey), ih, List.lookup_cons, hTest]
    · rw [List.filter_cons_of_pos (by simpa using hKey), List.lookup_cons, List.lookup_cons, ih]

variable {count : Nat}

theorem Ended.succ {env : Env} {before state after : StreamingState} (hEnded : Ended env before count state)
    {block : AssistantContentBlock} (hBlock : before.content[count]? = some block)
    (hContent : after.content = state.content.set count (endBlock env before count block))
    (hScratches : ∀ position, position ≠ count →
      after.tool_call_partial_args.lookup position = state.tool_call_partial_args.lookup position) {event : Pushed}
    (hPushed : after.pushed = state.pushed ++ [event])
    (hEvent : event.contentIndex = count ∧ event.kind = .ended ∧ said event = none ∧ snapshotOf event = after.content) :
    Ended env before (count + 1) after := by
  obtain ⟨ends, hEnds, hRange, hKinds, -⟩ := hEnded.pushed
  obtain ⟨hAt, hKind, hSaid, hSnapshot⟩ := hEvent
  have hHere : state.content[count]? = some block := by
    rw [hEnded.content, if_neg (Nat.lt_irrefl _), hBlock]
  obtain ⟨hLength, -⟩ := List.getElem?_eq_some_iff.mp hHere
  refine ⟨fun position => ?_, fun position hPosition => ?_, ends ++ [event], ?_, ?_, ?_, ?_⟩
  · rw [hContent, List.getElem?_set]
    split
    · rename_i hEq
      subst hEq
      rw [if_pos (Nat.lt_succ_self _), hBlock]
      rfl
    · rename_i hNe
      rw [hEnded.content]
      by_cases hBelow : position < count
      · rw [if_pos hBelow, if_pos (by omega)]
      · rw [if_neg hBelow, if_neg (by omega)]
  · rw [hScratches position (by omega), hEnded.scratches position (by omega)]
  · rw [hPushed, hEnds, List.append_assoc]
  · rw [List.map_append, hRange, List.range_succ, List.map_singleton, hAt]
  · intro other hMem
    rcases List.mem_append.mp hMem with hOld | hNew
    · exact hKinds other hOld
    · cases List.mem_singleton.mp hNew
      exact ⟨hKind, hSaid⟩
  · intro other hLast
    rw [List.getLast?_append, List.getLast?_singleton] at hLast
    cases hLast
    exact hSnapshot

theorem finish_block_ended {env : Env} {before state : StreamingState} (hEnded : Ended env before count state)
    (hCount : count < before.content.length) :
    Ended env before (count + 1) (finish_block env state count) := by
  have hBlock : before.content[count]? = some before.content[count] := List.getElem?_eq_getElem hCount
  have hHere : state.content[count]? = some before.content[count] := by
    rw [hEnded.content, if_neg (Nat.lt_irrefl _), hBlock]
  unfold finish_block
  rw [hHere]
  cases hShape : before.content[count] with
  | text content | thinking content =>
    rw [hShape] at hBlock hHere
    exact hEnded.succ hBlock (set_at hHere).symm (fun _ _ => rfl) rfl ⟨rfl, rfl, rfl, rfl⟩
  | toolCall call =>
    rw [hShape] at hBlock hHere
    refine hEnded.succ hBlock ?_ (fun position hNe => lookup_filter_ne hNe) rfl ⟨rfl, rfl, rfl, rfl⟩
    have hParsed : ((state.tool_call_partial_args.lookup count).map fun scratch =>
        env.parser.parse scratch.text).getD (.object []) =
        env.parser.parse (scratchText before.tool_call_partial_args count) := by
      rw [hEnded.scratches count (Nat.le_refl _), scratchText]
      cases before.tool_call_partial_args.lookup count with
      | none => exact env.parser.parse_empty.symm
      | some scratch => rfl
    simp only [push, endBlock, hParsed]

theorem finish_blocks_ended (env : Env) (state : StreamingState) :
    Ended env state state.content.length (finish_blocks env state) := by
  have hFold : ∀ count, count ≤ state.content.length →
      Ended env state count ((List.range count).foldl (finish_block env) state) := by
    intro count
    induction count with
    | zero => exact fun _ => ended_zero env state
    | succ count ih =>
      intro hCount
      rw [List.range_succ, List.foldl_append]
      exact finish_block_ended (ih (by omega)) hCount
  exact hFold _ (Nat.le_refl _)

end PrimeAgent.Provider.Completions
