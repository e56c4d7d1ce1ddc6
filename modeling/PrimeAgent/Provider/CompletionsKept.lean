import PrimeAgent.Provider.CompletionsRouted

/-! # The OpenAI completions stream keeps what it is told

Every block is started and ended once, and is what its deltas say. A delta goes to the block its index was
last led to, and else to the one its id was last led to.
-/
namespace PrimeAgent.Provider.Completions

open StreamingState

def argumentsOf (deltas : List ToolDelta) (leader : Nat) : String :=
  joined (((routes deltas).filter fun entry => entry.2 == leader).map fun entry => entry.1.fragment.getD "")

/-- What a stream that ended has told: `place` is the block the delta of a number opened. -/
structure Kept (env : Env) (chunks : List Json) (place : Nat → Nat) (state : StreamingState) : Prop where
  events : ∀ position, if position < state.content.length
    then ∃ count, kindsAt position state.pushed = .started :: List.replicate count .delta ++ [.ended]
    else kindsAt position state.pushed = []
  text : ∀ position content, state.content[position]? = some (.text content) →
    content.text = joined (saidAt .text position state.pushed)
  thinking : ∀ position content, state.content[position]? = some (.thinking content) →
    content.thinking = joined (saidAt .thinking position state.pushed)
  heard : heard state.pushed = chunks.flatMap wordsOf
  routed : routed state.pushed =
    (routes (chunks.flatMap toolDeltas)).map fun entry => (place entry.2, entry.1.fragment.getD "")
  apart : ∀ entry ∈ routes (chunks.flatMap toolDeltas), ∀ other ∈ routes (chunks.flatMap toolDeltas),
    place entry.2 = place other.2 → entry.2 = other.2
  calls : ∀ position, (∃ call, state.content[position]? = some (.toolCall call)) ↔
    ∃ entry ∈ routes (chunks.flatMap toolDeltas), place entry.2 = position
  arguments : ∀ entry ∈ routes (chunks.flatMap toolDeltas), ∀ call,
    state.content[place entry.2]? = some (.toolCall call) →
    call.arguments = objectOrEmpty (env.parser.parse (argumentsOf (chunks.flatMap toolDeltas) entry.2))
  snapshot : ∀ event, state.pushed.getLast? = some event → snapshotOf event = state.content
  silent : state.pushed = [] → state.content = []

theorem saidAt_call (position : Nat) (pushed : List Pushed) :
    saidAt .call position pushed = ((routed pushed).filter fun entry => entry.1 == position).map Prod.snd := by
  induction pushed with
  | nil => rfl
  | cons event pushed ih =>
    rw [saidAt, routed, spoken] at ih ⊢
    cases hSaid : said event with
    | none => simpa [saidTo, hSaid] using ih
    | some entry =>
      obtain ⟨kind, index, delta⟩ := entry
      by_cases hKind : kind = .call <;> by_cases hIndex : index = position <;>
        simpa [saidTo, hSaid, hKind, hIndex] using ih

theorem encode_inv (env : Env) {state : StreamingState} (hInv : Inv state) :
    Inv (encode_reasoning_details_signature env state) := by
  unfold encode_reasoning_details_signature
  split
  · exact hInv
  · refine hInv.quiet ⟨rfl, rfl, rfl, rfl⟩ (shape_modify (fun block => ?_) _ _) rfl rfl
    cases block <;> rfl

theorem encode_steady (env : Env) (state : StreamingState) :
    Steady state [] (encode_reasoning_details_signature env state) := by
  unfold encode_reasoning_details_signature
  split
  · exact Steady.refl state
  · refine Steady.alters rfl rfl rfl (kindsOf_modify (fun block => ?_) _ _)
    cases block <;> rfl

variable {ends : List Pushed}

theorem kindsAt_ends {count : Nat} (hRange : ends.map Pushed.contentIndex = List.range count)
    (hKinds : ∀ event ∈ ends, event.kind = .ended) (position : Nat) :
    kindsAt position ends = if position < count then [.ended] else [] := by
  induction count generalizing ends with
  | zero =>
    rw [List.map_eq_nil_iff.mp hRange]
    rfl
  | succ count ih =>
    rw [List.range_succ] at hRange
    obtain ⟨before, after, rfl, hBefore, hAfter⟩ := List.map_eq_append_iff.mp hRange
    obtain ⟨event, rfl, hAt⟩ := List.map_eq_singleton_iff.mp hAfter
    rw [kindsAt_append, ih hBefore fun other hMem => hKinds other (List.mem_append_left _ hMem), hAt,
      hKinds event (by simp)]
    rcases Nat.lt_trichotomy position count with hBelow | rfl | hAbove
    · rw [if_pos hBelow, if_neg (by omega), if_pos (by omega), List.append_nil]
    · simp
    · rw [if_neg (by omega), if_neg (by omega), if_neg (by omega), List.append_nil]

theorem kindsAt_concat (position : Nat) (pushed more : List Pushed) :
    kindsAt position (pushed ++ more) = kindsAt position pushed ++ kindsAt position more := by
  rw [kindsAt, List.filter_append, List.map_append]
  rfl

theorem kindsOf_eq (content : List AssistantContentBlock) : kindsOf content = (shape content).map Prod.fst := by
  rw [shape, List.map_map]
  rfl

theorem call_at {content : List AssistantContentBlock} {position : Nat} :
    (∃ call, content[position]? = some (.toolCall call)) ↔ (kindsOf content)[position]? = some .call := by
  rw [kindsOf, List.getElem?_map]
  cases content[position]? with
  | none => simp
  | some block => cases block <;> simp [shapeOf]

theorem said_none_ends (hSaid : ∀ event ∈ ends, said event = none) : spoken ends = [] :=
  List.filterMap_eq_nil_iff.mpr hSaid

theorem endBlock_shape (env : Env) (state : StreamingState) (position : Nat) (block : AssistantContentBlock) :
    shapeOf (endBlock env state position block) = shapeOf block := by
  cases block <;> rfl

/-- A stream of any chunks ends with every block told in full and every argument delta where its keys lead. -/
theorem stream_kept (env : Env) (chunks : List Json) : ∃ place, Kept env chunks place (stream env chunks) := by
  obtain ⟨place, hRouted⟩ := chunks_routed env chunks
  have hInv := encode_inv env (chunks_inv env chunks)
  have hSteady := hRouted.steady (encode_steady env _)
  rw [List.append_nil] at hSteady
  change ∃ place, Kept env chunks place (finish_blocks env (encode_reasoning_details_signature env
    (chunks.foldl (handle_chunk env) .initial)))
  generalize encode_reasoning_details_signature env (chunks.foldl (handle_chunk env) .initial) = before at hInv hSteady
  have hEnded := finish_blocks_ended env before
  generalize finish_blocks env before = after at hEnded
  obtain ⟨ends, hPushed, hRange, hEnds, hSnapshot⟩ := hEnded.pushed
  have hContent : ∀ position, after.content[position]? = before.content[position]?.map (endBlock env before position) := by
    intro position
    rw [hEnded.content]
    split
    · rfl
    · rw [List.getElem?_eq_none (by omega)]
      rfl
  have hShape : shape after.content = shape before.content := by
    apply List.ext_getElem?
    intro position
    rw [shape, shape, List.getElem?_map, List.getElem?_map, hContent, Option.map_map]
    exact congrArg (Option.map · _) (funext fun block => endBlock_shape env before position block)
  have hLength : after.content.length = before.content.length := by
    simpa [shape] using congrArg List.length hShape
  have hShapeLength : (shape before.content).length = before.content.length := List.length_map _
  have hSpoken : spoken after.pushed = spoken before.pushed := by
    rw [hPushed, spoken, List.filterMap_append, ← spoken, ← spoken, said_none_ends fun event hMem => (hEnds event hMem).2,
      List.append_nil]
  have hSaid : ∀ kind position, saidAt kind position after.pushed = saidAt kind position before.pushed := by
    intro kind position
    rw [hPushed, saidAt, List.filterMap_append, ← saidAt]
    refine (congrArg _ (List.filterMap_eq_nil_iff.mpr fun event hMem => ?_)).trans (List.append_nil _)
    rw [saidTo, (hEnds event hMem).2]
  have hKinds := kindsAt_ends hRange fun event hMem => (hEnds event hMem).1
  have hRouteMem : ∀ entry, entry ∈ routes (chunks.flatMap toolDeltas) ↔
      entry ∈ (chunks.flatMap toolDeltas).foldl lead [] := fun _ => List.mem_reverse
  have hWords : ∀ position block, after.content[position]? = some block →
      wordsAt before.tool_call_partial_args position (shapeOf block) =
        joined (saidAt (shapeOf block).1 position after.pushed) := by
    intro position block hBlock
    rw [hSaid]
    refine hInv.told.words position (shapeOf block) ?_
    rw [← hShape, shape, List.getElem?_map, hBlock, Option.map_some]
  have hEmpty : ends = [] → after.content = [] := by
    intro hNil
    rw [hNil, List.map_nil] at hRange
    exact List.length_eq_zero_iff.mp (hLength.trans (List.range_eq_nil.mp hRange.symm))
  refine ⟨place, ?_, ?_, ?_, ?_, ?_, ?_, ?_, ?_, ?_, ?_⟩
  · intro position
    rw [hPushed, kindsAt_concat, hKinds, hLength]
    split
    · obtain ⟨count, hCount⟩ := hInv.told.kinds position (by omega)
      exact ⟨count, by rw [hCount]⟩
    · rw [(hInv.told.nothing position (by omega)).1, List.append_nil]
  · intro position content hText
    exact hWords position _ hText
  · intro position content hThinking
    exact hWords position _ hThinking
  · rw [heard, hSpoken]
    exact hSteady.heard
  · rw [routed, hSpoken]
    exact hSteady.routed
  · intro entry hEntry other hOther
    exact hSteady.apart entry ((hRouteMem _).mp hEntry) other ((hRouteMem _).mp hOther)
  · intro position
    simp only [hRouteMem]
    rw [← hSteady.calls, kindsOf_eq, ← hShape, ← kindsOf_eq]
    exact call_at
  · intro entry hEntry call hCall
    have hScratch := hWords _ _ hCall
    rw [hContent] at hCall
    obtain ⟨block, hBlock, hEnd⟩ := Option.map_eq_some_iff.mp hCall
    have hRoute : saidAt .call (place entry.2) after.pushed =
        ((routes (chunks.flatMap toolDeltas)).filter fun other => other.2 == entry.2).map
          fun other => other.1.fragment.getD "" := by
      rw [saidAt_call, routed, hSpoken, ← routed, hSteady.routed, List.filter_map, List.map_map]
      refine congrArg _ (List.filter_congr fun other hOther => ?_)
      have hApart := hSteady.apart other (List.mem_reverse.mp hOther) entry ((hRouteMem _).mp hEntry)
      by_cases hSame : other.2 = entry.2
      · simp [hSame]
      · have hPlace : place other.2 ≠ place entry.2 := fun hPlace => hSame (hApart hPlace)
        simp [hSame, hPlace]
    cases block with
    | toolCall called =>
      cases hEnd
      rw [argumentsOf, ← hRoute]
      exact congrArg (fun text => objectOrEmpty (env.parser.parse text)) hScratch
    | text content => cases hEnd
    | thinking content => cases hEnd
  · intro event hLast
    rw [hPushed, List.getLast?_append] at hLast
    cases hFound : ends.getLast? with
    | some last =>
      rw [hFound] at hLast
      cases hLast
      exact hSnapshot _ hFound
    | none =>
      have hNil := hEmpty (List.getLast?_eq_none_iff.mp hFound)
      rw [hFound, Option.none_or] at hLast
      have hUntold := hInv.told.nothing event.contentIndex (by rw [hShapeLength, ← hLength, hNil]; exact Nat.zero_le _)
      refine absurd hUntold.1 (List.ne_nil_of_mem (List.mem_map_of_mem (List.mem_filter.mpr ⟨?_, beq_self_eq_true _⟩)))
      exact List.mem_of_getLast? hLast
  · intro hNil
    exact hEmpty (List.append_eq_nil_iff.mp (hPushed.symm.trans hNil)).2

def carrying (opener : ToolDelta) (deltas : List ToolDelta) : List ToolDelta :=
  deltas.filter fun delta =>
    (delta.index.isSome && delta.index == opener.index) || (delta.id.isSome && delta.id == opener.id)

def readsOne : Env :=
  { parser := ⟨fun text => if text = "\x7b\"x\":1\x7d" then .object [("x", .number (.posInt 1))] else .object [], rfl⟩
    print := fun _ => ""
    model_id := "m" }

def toolCall (index : Nat) (id fragment : String) : Json :=
  .object [("index", .number (.posInt index)), ("id", .string id),
    ("function", .object [("name", .string "bash"), ("arguments", .string fragment)])]

def crossedChunk : Json :=
  .object [("choices", .array [.object [("delta", .object [("tool_calls", .array
    [toolCall 0 "a" "", toolCall 1 "b" "", toolCall 0 "b" "\x7b\"x\":1\x7d"])])]])]

theorem crossed_delta_misses :
    ¬ ∀ (env : Env) (chunks : List Json) (position : Nat) (call : ToolCall) (opener : ToolDelta),
      (stream env chunks).content[position]? = some (.toolCall call) →
      (chunks.flatMap toolDeltas).find? (fun delta => delta.id == some call.id) = some opener →
      call.arguments = objectOrEmpty (env.parser.parse
        (joined ((carrying opener (chunks.flatMap toolDeltas)).map fun delta => delta.fragment.getD ""))) := by
  intro hCarried
  have hCall : (stream readsOne [crossedChunk]).content[1]? = some (.toolCall ⟨"b", "bash", [], none⟩) := by decide
  have hArguments := hCarried readsOne [crossedChunk] 1 _ ⟨some 1, some "b", some "bash", some ""⟩ hCall (by decide)
  exact absurd hArguments (by decide)

end PrimeAgent.Provider.Completions
