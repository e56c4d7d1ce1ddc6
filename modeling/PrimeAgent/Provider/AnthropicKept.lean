import PrimeAgent.Provider.AnthropicBlocks
import Mathlib.Data.List.Nodup

/-! # What an orderly Anthropic stream keeps

A block by itself first: what its text and arguments come to and which events tell of it, as long as no
delta or stop reaches it after its stop. Then the stream, slot by slot.
-/
namespace PrimeAgent.Provider.Anthropic

namespace Delta

def text? : Delta → Option String
  | .text added => some added
  | _ => none

def thinking? : Delta → Option String
  | .thinking added => some added
  | _ => none

def fragment? : Delta → Option String
  | .inputJson added => some added
  | _ => none

def signature? : Delta → Option String
  | .signature added => some added
  | _ => none

end Delta

/-- The block that was opened, with the deltas joined; a call's arguments are read from the joined
fragments where there is one. -/
def expected (env : Env) (deltas : List Delta) : AssistantContentBlock → AssistantContentBlock
  | .text content => .text { content with text := content.text ++ joined (deltas.filterMap Delta.text?) }
  | .thinking content => .thinking { content with
      thinking := content.thinking ++ joined (deltas.filterMap Delta.thinking?)
      thinkingSignature :=
        match deltas.filterMap Delta.signature? with
        | [] => content.thinkingSignature
        | signature :: rest => some (content.thinkingSignature.getD "" ++ joined (signature :: rest)) }
  | .toolCall call => .toolCall { call with
      arguments :=
        match deltas.filterMap Delta.fragment? with
        | [] => call.arguments
        | fragment :: rest => objectOrEmpty (env.parser.parse (joined (fragment :: rest))) }

def BlockOp.delta? : BlockOp → Option Delta
  | .delta .other | .stop => none
  | .delta brought => some brought

def deltasIn (ops : List BlockOp) : List Delta :=
  ops.filterMap BlockOp.delta?

theorem deltasIn_append (ops : List BlockOp) (op : BlockOp) :
    deltasIn (ops ++ [op]) = deltasIn ops ++ op.delta?.toList := by
  cases hDelta : op.delta? <;> simp [deltasIn, List.filterMap_append, hDelta]

/-- What may come next: no delta that is told of and no second stop after a stop, and where a call had no
fragment a stop only if it was opened without arguments. -/
def OpFits (opened : AssistantContentBlock) (ops : List BlockOp) (op : BlockOp) : Prop :=
  (op.kind ≠ none → .stop ∉ ops) ∧
  (op = .stop → ∀ call, opened = .toolCall call → (deltasIn ops).filterMap Delta.fragment? = [] →
    call.arguments = [])

inductive Proper (opened : AssistantContentBlock) : List BlockOp → Prop
  | nil : Proper opened []
  | add {ops : List BlockOp} {op : BlockOp} (before : Proper opened ops) (fits : OpFits opened ops op) :
      Proper opened (ops ++ [op])

def Bracketed (kinds : List Kind) : Prop :=
  ∃ count, kinds = .started :: List.replicate count .delta ∨
    kinds = .started :: (List.replicate count .delta ++ [.ended])

section Local

variable {env : Env} {opened : AssistantContentBlock} {ops : List BlockOp} {arguments : JsonMap} {call : ToolCall}

def run (env : Env) (opened : AssistantContentBlock) (ops : List BlockOp) : Block :=
  ops.foldl (Block.apply env) ⟨opened, .default⟩

theorem run_append (opened : AssistantContentBlock) (ops : List BlockOp) (op : BlockOp) :
    run env opened (ops ++ [op]) = (run env opened ops).apply env op := by
  simp [run, List.foldl_append]

theorem kind_cases (op : BlockOp) : op.kind = none ∨ op.kind = some .delta ∨ op = .stop := by
  cases op with
  | stop => exact Or.inr (Or.inr rfl)
  | delta delta => cases delta <;> simp [BlockOp.kind]

theorem proper_bracketed (hProper : Proper opened ops) :
    ∃ count, ops.filterMap BlockOp.kind =
      List.replicate count .delta ++ (if .stop ∈ ops then [Kind.ended] else []) := by
  induction hProper with
  | nil => exact ⟨0, rfl⟩
  | @add ops op before fits ih =>
    obtain ⟨count, hKinds⟩ := ih
    rw [List.filterMap_append, hKinds]
    rcases kind_cases op with hQuiet | hDelta | rfl
    · have hNe : op ≠ .stop := by
        rintro rfl
        cases hQuiet
      exact ⟨count, by simp [hQuiet, List.mem_append, hNe.symm]⟩
    · have hNe : op ≠ .stop := by
        rintro rfl
        cases hDelta
      have hOpen : .stop ∉ ops := fits.1 (by rw [hDelta]; exact Option.some_ne_none _)
      exact ⟨count + 1, by simp [hDelta, List.mem_append, hNe.symm, hOpen, List.replicate_succ']⟩
    · have hOpen : .stop ∉ ops := fits.1 (Option.some_ne_none _)
      exact ⟨count, by simp [BlockOp.kind, List.mem_append, hOpen]⟩

theorem Slot.bracketed {slot : Slot} (hProper : Proper slot.opened slot.ops) : Bracketed slot.kinds := by
  obtain ⟨count, hKinds⟩ := proper_bracketed hProper
  refine ⟨count, ?_⟩
  rw [Slot.kinds, hKinds]
  split
  · exact Or.inr rfl
  · exact Or.inl (by rw [List.append_nil])

theorem run_scratch (opened : AssistantContentBlock) (ops : List BlockOp) :
    (run env opened ops).scratch.text = joined ((deltasIn ops).filterMap Delta.fragment?) := by
  induction ops using List.reverseRecOn with
  | nil => rfl
  | append_singleton ops op ih =>
    rw [run_append, deltasIn_append, List.filterMap_append]
    cases op with
    | stop => simpa [Block.apply, BlockOp.delta?] using ih
    | delta delta =>
      cases delta with
      | inputJson fragment =>
        simp [Block.apply, BlockOp.delta?, Delta.fragment?, StreamingJsonAccumulator.append_text, joined_append, ih]
      | text text | thinking thinking | signature signature =>
        simpa [Block.apply, BlockOp.delta?, Delta.fragment?, List.filterMap_cons] using ih
      | other => simpa [Block.apply, BlockOp.delta?] using ih

theorem run_text (content : TextContent) (ops : List BlockOp) :
    (run env (.text content) ops).content = expected env (deltasIn ops) (.text content) := by
  induction ops using List.reverseRecOn with
  | nil => simp [run, expected, deltasIn, joined]
  | append_singleton ops op ih =>
    rw [run_append, deltasIn_append]
    cases op with
    | stop => simp [Block.apply, ih, BlockOp.delta?, expected, setArguments]
    | delta delta =>
      cases delta <;>
        simp [Block.apply, ih, BlockOp.delta?, expected, setArguments, pushText, pushThinking, pushSignature,
          Delta.text?, List.filterMap_cons, joined_append, String.append_assoc]

theorem signature_append (held : Option String) (signatures : List String) (signature : String) :
    (match signatures ++ [signature] with
      | [] => held
      | first :: rest => some (held.getD "" ++ joined (first :: rest))) =
    some ((match signatures with
      | [] => held
      | first :: rest => some (held.getD "" ++ joined (first :: rest))).getD "" ++ signature) := by
  cases signatures with
  | nil => simp [joined]
  | cons first rest =>
    rw [List.cons_append]
    simp only [Option.getD_some]
    rw [← List.cons_append, joined_append, String.append_assoc]

theorem run_thinking (content : ThinkingContent) (ops : List BlockOp) :
    (run env (.thinking content) ops).content = expected env (deltasIn ops) (.thinking content) := by
  induction ops using List.reverseRecOn with
  | nil => simp [run, expected, deltasIn, joined]
  | append_singleton ops op ih =>
    rw [run_append, deltasIn_append]
    cases op with
    | stop => simp [Block.apply, ih, BlockOp.delta?, expected, setArguments]
    | delta delta =>
      cases delta with
      | signature signature =>
        simp [Block.apply, ih, BlockOp.delta?, expected, pushSignature, Delta.thinking?, Delta.signature?, List.filterMap_cons,
          signature_append]
      | text text =>
        simp [Block.apply, ih, BlockOp.delta?, expected, pushText, Delta.thinking?, Delta.signature?, List.filterMap_cons]
      | thinking thinking =>
        simp [Block.apply, ih, BlockOp.delta?, expected, pushThinking, Delta.thinking?, Delta.signature?, List.filterMap_cons,
          joined_append, String.append_assoc]
      | inputJson fragment =>
        simp [Block.apply, ih, BlockOp.delta?, expected, setArguments, Delta.thinking?, Delta.signature?, List.filterMap_cons]
      | other => simp [Block.apply, ih, BlockOp.delta?, expected]

/-- A call's block on the way: before any fragment the arguments it was opened with, after a stop those
of the whole text, and in between a preview. -/
structure Calling (env : Env) (call : ToolCall) (ops : List BlockOp) (arguments : JsonMap) : Prop where
  content : (run env (.toolCall call) ops).content = .toolCall { call with arguments := arguments }
  unfed : (deltasIn ops).filterMap Delta.fragment? = [] →
    arguments = call.arguments ∧ (run env (.toolCall call) ops).scratch = .default
  stopped : (deltasIn ops).filterMap Delta.fragment? ≠ [] → .stop ∈ ops →
    arguments = objectOrEmpty (env.parser.parse (run env (.toolCall call) ops).scratch.text)
  streaming : (deltasIn ops).filterMap Delta.fragment? ≠ [] → .stop ∉ ops →
    (run env (.toolCall call) ops).scratch.Previews env.parser arguments

section

variable (hCalling : Calling env call ops arguments)

include hCalling

theorem Calling.keep {op : BlockOp} (hStop : op ≠ .stop) (hFragment : op.delta?.toList.filterMap Delta.fragment? = [])
    (hSame : (run env (.toolCall call) (ops ++ [op])) = run env (.toolCall call) ops) :
    Calling env call (ops ++ [op]) arguments := by
  have hDeltas : (deltasIn (ops ++ [op])).filterMap Delta.fragment? = (deltasIn ops).filterMap Delta.fragment? := by
    rw [deltasIn_append, List.filterMap_append, hFragment, List.append_nil]
  have hMem : BlockOp.stop ∈ ops ++ [op] ↔ BlockOp.stop ∈ ops := by
    simp [List.mem_append, hStop.symm]
  constructor
  · rw [hSame]
    exact hCalling.content
  · rw [hDeltas, hSame]
    exact hCalling.unfed
  · rw [hDeltas, hMem, hSame]
    exact hCalling.stopped
  · rw [hDeltas, hMem, hSame]
    exact hCalling.streaming

theorem Calling.stop (hFits : OpFits (.toolCall call) ops .stop) :
    Calling env call (ops ++ [.stop])
      (objectOrEmpty (env.parser.parse (run env (.toolCall call) ops).scratch.text)) := by
  have hDeltas : (deltasIn (ops ++ [.stop])).filterMap Delta.fragment? = (deltasIn ops).filterMap Delta.fragment? := by
    rw [deltasIn_append, List.filterMap_append]
    exact List.append_nil _
  constructor
  · rw [run_append, Block.apply, hCalling.content]
    rfl
  · intro hUnfed
    rw [hDeltas] at hUnfed
    obtain ⟨-, hScratch⟩ := hCalling.unfed hUnfed
    refine ⟨?_, ?_⟩
    · rw [hScratch, hFits.2 rfl call rfl hUnfed]
      change objectOrEmpty (env.parser.parse "") = []
      rw [env.parser.parse_empty]
      rfl
    · rw [run_append]
      exact hScratch
  · intro _ _
    rw [run_append]
    rfl
  · intro _ hOpen
    exact absurd (List.mem_append_right _ (List.mem_singleton.mpr rfl)) hOpen

theorem Calling.feed {fragment : String} (hFits : OpFits (.toolCall call) ops (.delta (.inputJson fragment))) :
    Calling env call (ops ++ [.delta (.inputJson fragment)])
      ((((run env (.toolCall call) ops).scratch.append env.parser fragment).1.map objectOrEmpty).getD arguments) := by
  have hOpen : .stop ∉ ops := hFits.1 (Option.some_ne_none _)
  have hDeltas : (deltasIn (ops ++ [.delta (.inputJson fragment)])).filterMap Delta.fragment? =
      (deltasIn ops).filterMap Delta.fragment? ++ [fragment] := by
    rw [deltasIn_append, List.filterMap_append]
    rfl
  constructor
  · rw [run_append, Block.apply, hCalling.content]
    rfl
  · rw [hDeltas]
    exact fun hUnfed => absurd hUnfed (List.append_ne_nil_of_right_ne_nil _ (List.cons_ne_nil _ _))
  · intro _ hStop
    have hStopped : BlockOp.stop ∈ ops := by simpa [List.mem_append] using hStop
    exact absurd hStopped hOpen
  · intro _ _
    rw [run_append]
    by_cases hUnfed : (deltasIn ops).filterMap Delta.fragment? = []
    · obtain ⟨-, hScratch⟩ := hCalling.unfed hUnfed
      rw [Block.apply, hScratch, StreamingJsonAccumulator.append_first]
      exact ⟨fragment, "", by simp, rfl, rfl⟩
    · exact StreamingJsonAccumulator.previews_append (hCalling.streaming hUnfed hOpen) fragment

end

theorem proper_calling {call : ToolCall} {ops : List BlockOp} (hProper : Proper (.toolCall call) ops) :
    ∃ arguments, Calling env call ops arguments := by
  induction hProper with
  | nil => exact ⟨call.arguments, rfl, fun _ => ⟨rfl, rfl⟩, fun hFed => absurd rfl hFed, fun hFed => absurd rfl hFed⟩
  | @add ops op before fits ih =>
    obtain ⟨arguments, hCalling⟩ := ih
    have hQuiet : ∀ block : Block, block.content = .toolCall { call with arguments := arguments } →
        op.delta?.toList.filterMap Delta.fragment? = [] → op ≠ .stop → block.apply env op = block := by
      rintro ⟨content, scratch⟩ rfl hFragment hStop
      cases op with
      | stop => exact absurd rfl hStop
      | delta delta =>
        cases delta with
        | inputJson fragment => cases hFragment
        | text _ | thinking _ | signature _ | other => rfl
    cases op with
    | stop => exact ⟨_, hCalling.stop fits⟩
    | delta delta =>
      cases delta with
      | inputJson fragment => exact ⟨_, hCalling.feed fits⟩
      | text text | thinking thinking | signature signature | other =>
        exact ⟨_, hCalling.keep nofun rfl ((run_append _ _ _).trans (hQuiet _ hCalling.content rfl nofun))⟩

theorem expected_call (deltas : List Delta) (call : ToolCall)
    (hUnfed : deltas.filterMap Delta.fragment? = [] → arguments = call.arguments)
    (hFed : deltas.filterMap Delta.fragment? ≠ [] →
      arguments = objectOrEmpty (env.parser.parse (joined (deltas.filterMap Delta.fragment?)))) :
    AssistantContentBlock.toolCall { call with arguments := arguments } = expected env deltas (.toolCall call) := by
  rw [expected]
  congr 2
  cases hFragments : deltas.filterMap Delta.fragment? with
  | nil => exact hUnfed hFragments
  | cons fragment rest =>
    rw [hFed (hFragments ▸ List.cons_ne_nil _ _), hFragments]

def Current (env : Env) (opened : AssistantContentBlock) (ops : List BlockOp) : Prop :=
  ∀ call, opened = .toolCall call → .stop ∈ ops ∨
    (run env opened ops).scratch.parsed_length = (run env opened ops).scratch.len_utf16

theorem proper_content (hProper : Proper opened ops) (hCurrent : Current env opened ops) :
    (run env opened ops).content = expected env (deltasIn ops) opened := by
  cases opened with
  | text content => exact run_text content ops
  | thinking content => exact run_thinking content ops
  | toolCall call =>
    obtain ⟨arguments, hCalling⟩ := @proper_calling env _ _ hProper
    rw [hCalling.content]
    refine expected_call _ _ (fun hUnfed => (hCalling.unfed hUnfed).1) fun hFed => ?_
    rw [← run_scratch (.toolCall call) ops]
    by_cases hStop : .stop ∈ ops
    · exact hCalling.stopped hFed hStop
    · have hLength := (hCurrent call rfl).resolve_left hStop
      exact (hCalling.streaming hFed hStop).current hLength

theorem proper_settled (hProper : Proper opened ops) :
    setArguments ((run env opened ops).scratch.flush env.parser) (run env opened ops).content =
      expected env (deltasIn ops) opened := by
  cases opened with
  | text content =>
    rw [run_text]
    rfl
  | thinking content =>
    rw [run_thinking]
    rfl
  | toolCall call =>
    obtain ⟨arguments, hCalling⟩ := @proper_calling env _ _ hProper
    rw [hCalling.content]
    change AssistantContentBlock.toolCall { call with
      arguments := (((run env (.toolCall call) ops).scratch.flush env.parser).map objectOrEmpty).getD arguments } = _
    refine expected_call _ _ (fun hUnfed => ?_) fun hFed => ?_
    · obtain ⟨hArguments, hScratch⟩ := hCalling.unfed hUnfed
      rw [hScratch, hArguments]
      rfl
    · rw [← run_scratch (.toolCall call) ops]
      by_cases hStop : .stop ∈ ops
      · rw [hCalling.stopped hFed hStop]
        unfold StreamingJsonAccumulator.flush
        split <;> rfl
      · exact (hCalling.streaming hFed hStop).flushed

end Local

end PrimeAgent.Provider.Anthropic
