import Mathlib.Data.List.Induction
import PrimeAgent.Lib.TextLines

/-! # Server-sent events

The decoder of the streaming providers. It reads lines as the chunks of the response come in, gathers the fields of one
event, and hands the event out at a blank line or at the end of the stream.
-/
namespace PrimeAgent.Sse

open TextLines

abbrev Text := List Char

structure ServerSentEvent where
  event : Option Text
  data : Text
  raw : List Text
deriving DecidableEq

structure DecoderState where
  event : Option Text
  data : List Text
  raw : List Text
deriving DecidableEq

def DecoderState.new : DecoderState :=
  ⟨none, [], []⟩

/-- `join("\n")`. -/
def joinLines (lines : List Text) : Text :=
  List.intercalate ['\n'] lines

namespace DecoderState

def flush (state : DecoderState) : DecoderState × Option ServerSentEvent :=
  if state.event = none ∧ state.data = [] then (state, none)
  else (.new, some ⟨state.event, joinLines state.data, state.raw⟩)

def field (line : Text) : Text × Text :=
  match line.dropWhile (· ≠ ':') with
  | [] => (line, [])
  | _ :: value => (line.takeWhile (· ≠ ':'), if value.head? = some ' ' then value.tail else value)

def decodeLine (state : DecoderState) (line : Text) : DecoderState × Option ServerSentEvent :=
  if line = [] then state.flush
  else
    let state := { state with raw := state.raw ++ [line] }
    if line.head? = some ':' then (state, none)
    else
      let (name, value) := field line
      if name = "event".toList then ({ state with event := some value }, none)
      else if name = "data".toList then ({ state with data := state.data ++ [value] }, none)
      else (state, none)

end DecoderState

structure SseDecoder where
  state : DecoderState
  buffer : Text
deriving DecidableEq

namespace SseDecoder

def new : SseDecoder :=
  ⟨.new, []⟩

/-- The loop of `push_text`, where `line` is the buffer from the start of the line on. -/
def scan (state : DecoderState) (line : Text) : Text → SseDecoder × List ServerSentEvent
  | [] => (⟨state, line⟩, [])
  | '\r' :: '\n' :: rest =>
    let decoded := state.decodeLine line
    let scanned := scan decoded.1 [] rest
    (scanned.1, decoded.2.toList ++ scanned.2)
  | c :: rest =>
    if c = '\r' ∨ c = '\n' then
      let decoded := state.decodeLine line
      let scanned := scan decoded.1 [] rest
      (scanned.1, decoded.2.toList ++ scanned.2)
    else scan state (line ++ [c]) rest

def pushText (decoder : SseDecoder) (text : Text) : SseDecoder × List ServerSentEvent :=
  scan decoder.state decoder.buffer text

def finish (decoder : SseDecoder) : List ServerSentEvent :=
  let last := if decoder.buffer = [] then (decoder.state, none) else decoder.state.decodeLine decoder.buffer
  last.2.toList ++ last.1.flush.2.toList

def pushAll (decoder : SseDecoder) : List Text → SseDecoder × List ServerSentEvent
  | [] => (decoder, [])
  | chunk :: chunks =>
    let pushed := decoder.pushText chunk
    let rest := pushed.1.pushAll chunks
    (rest.1, pushed.2 ++ rest.2)

def decodeAll (chunks : List Text) : List ServerSentEvent :=
  let pushed := new.pushAll chunks
  pushed.2 ++ pushed.1.finish

end SseDecoder

/-! ## The grammar -/

/-- The value of a line that is the field `name`. -/
def valueOf (name : String) (line : Text) : Option Text :=
  if line.head? = some ':' then none
  else if (DecoderState.field line).1 = name.toList then some (DecoderState.field line).2 else none

def eventOf (block : List Text) : Option (Option Text × Text) :=
  let names := block.filterMap (valueOf "event")
  let data := block.filterMap (valueOf "data")
  if names = [] ∧ data = [] then none else some (names.getLast?, joinLines data)

def blocks (opened : List Text) : List Text → List (List Text) × List Text
  | [] => ([], opened)
  | line :: rest =>
    if line = [] then (opened :: (blocks [] rest).1, (blocks [] rest).2) else blocks (opened ++ [line]) rest

def closedEvents (lines : List Text) : List (Option Text × Text) :=
  (blocks [] lines).1.filterMap eventOf

def denoted (lines : List Text) (tail : Text) : List (Option Text × Text) :=
  let all := blocks [] (if tail = [] then lines else lines ++ [tail])
  (all.1 ++ [all.2]).filterMap eventOf

def shown (event : ServerSentEvent) : Option Text × Text :=
  (event.event, event.data)

/-! ## The decoder follows the grammar -/

variable {state : DecoderState} {line : Text} {block : List Text} {lines : List Text}

structure Gathered (block : List Text) (state : DecoderState) : Prop where
  event : state.event = (block.filterMap (valueOf "event")).getLast?
  data : state.data = block.filterMap (valueOf "data")

theorem gathered_new : Gathered [] .new :=
  ⟨rfl, rfl⟩

theorem Gathered.flush (g : Gathered block state) :
    Gathered [] state.flush.1 ∧ state.flush.2.map shown = eventOf block := by
  have hNone : state.event = none ∧ state.data = [] ↔
      block.filterMap (valueOf "event") = [] ∧ block.filterMap (valueOf "data") = [] := by
    rw [g.event, g.data, List.getLast?_eq_none_iff]
  unfold DecoderState.flush eventOf
  by_cases hEmpty : state.event = none ∧ state.data = []
  · rw [if_pos hEmpty, if_pos (hNone.mp hEmpty)]
    exact ⟨⟨hEmpty.1, hEmpty.2⟩, rfl⟩
  · rw [if_neg hEmpty, if_neg fun hBlock => hEmpty (hNone.mpr hBlock)]
    refine ⟨gathered_new, ?_⟩
    rw [← g.event, ← g.data]
    rfl

theorem Gathered.decodeLine (g : Gathered block state) (hLine : line ≠ []) :
    Gathered (block ++ [line]) (state.decodeLine line).1 ∧ (state.decodeLine line).2 = none := by
  have hNames : "event".toList ≠ "data".toList := by decide
  unfold DecoderState.decodeLine
  rw [if_neg hLine]
  simp only
  split
  next hComment =>
    refine ⟨⟨?_, ?_⟩, rfl⟩
    · simp [valueOf, hComment, g.event]
    · simp [valueOf, hComment, g.data]
  next hField =>
    split
    next hEvent =>
      refine ⟨⟨?_, ?_⟩, rfl⟩
      · simp [valueOf, hField, hEvent]
      · simp [valueOf, hField, hEvent, g.data]
    next hOther =>
      split
      next hData =>
        refine ⟨⟨?_, ?_⟩, rfl⟩
        · simp [valueOf, hField, hData, g.event]
        · simp [valueOf, hField, hData, g.data]
      next hUnknown =>
        refine ⟨⟨?_, ?_⟩, rfl⟩
        · have hNone : valueOf "event" line = none := by rw [valueOf, if_neg hField, if_neg hOther]
          simp [hNone, g.event]
        · have hNone : valueOf "data" line = none := by rw [valueOf, if_neg hField, if_neg hUnknown]
          simp [hNone, g.data]

def decodeLines (state : DecoderState) : List Text → DecoderState × List ServerSentEvent
  | [] => (state, [])
  | line :: rest =>
    let decoded := state.decodeLine line
    let others := decodeLines decoded.1 rest
    (others.1, decoded.2.toList ++ others.2)

theorem decodeLines_append (lines lines' : List Text) : decodeLines state (lines ++ lines') =
    ((decodeLines (decodeLines state lines).1 lines').1,
      (decodeLines state lines).2 ++ (decodeLines (decodeLines state lines).1 lines').2) := by
  induction lines generalizing state with
  | nil => rfl
  | cons line lines ih =>
    simp only [List.cons_append, decodeLines, ih, List.append_assoc]

theorem Gathered.decodeLines (g : Gathered block state) (lines : List Text) :
    Gathered (blocks block lines).2 (decodeLines state lines).1 ∧
      (decodeLines state lines).2.map shown = (blocks block lines).1.filterMap eventOf := by
  induction lines generalizing block state with
  | nil => exact ⟨g, rfl⟩
  | cons line lines ih =>
    by_cases hBlank : line = []
    · subst hBlank
      obtain ⟨hNext, hEvent⟩ := g.flush
      obtain ⟨hGathered, hEvents⟩ := ih hNext
      refine ⟨hGathered, ?_⟩
      show (state.flush.2.toList ++ (decodeLines state.flush.1 lines).2).map shown =
        (block :: (blocks [] lines).1).filterMap eventOf
      rw [List.map_append, hEvents, List.filterMap_cons, ← hEvent]
      cases state.flush.2 with
      | none => rfl
      | some event => rfl
    · obtain ⟨hNext, hNone⟩ := g.decodeLine hBlank
      obtain ⟨hGathered, hEvents⟩ := ih hNext
      have hBlocks : blocks block (line :: lines) = blocks (block ++ [line]) lines := by
        rw [blocks, if_neg hBlank]
      rw [hBlocks]
      refine ⟨hGathered, ?_⟩
      show ((state.decodeLine line).2.toList ++ (decodeLines (state.decodeLine line).1 lines).2).map shown = _
      rw [hNone]
      exact hEvents

theorem blocks_concat (opened lines : List Text) (line : Text) (hLine : line ≠ []) :
    blocks opened (lines ++ [line]) = ((blocks opened lines).1, (blocks opened lines).2 ++ [line]) := by
  induction lines generalizing opened with
  | nil => simp only [List.nil_append, blocks, if_neg hLine]
  | cons head lines ih =>
    rw [List.cons_append, blocks, blocks]
    split
    next => rw [ih]
    next => exact ih _

/-! ## Chunks -/

theorem scan_eq (state : DecoderState) (line text : Text) : SseDecoder.scan state line text =
    (⟨(decodeLines state (cut line text).1).1, (cut line text).2⟩, (decodeLines state (cut line text).1).2) := by
  induction text using cases_of_text generalizing state line with
  | nil => rfl
  | crlf rest ih =>
    rw [cut_crlf, SseDecoder.scan, ih]
    rfl
  | lineBreak c rest hBreak hHalf ih =>
    have hWhole : ∀ rest', c = '\r' → rest = '\n' :: rest' → False := by
      rintro rest' rfl rfl
      exact hHalf rfl rfl
    simp only [cut_break hBreak hHalf, SseDecoder.scan, if_pos hBreak, ih, decodeLines]
  | plain c rest hPlain ih =>
    rw [cut_plain hPlain, SseDecoder.scan, if_neg (not_or.mpr hPlain), ih]
    rintro rest' rfl
    exact absurd rfl hPlain.1

def KeepsCrlf (chunks : List Text) : Prop :=
  ∀ before after, chunks = before ++ after → before.flatten.getLast? = some '\r' → after.flatten.head? ≠ some '\n'

theorem keepsCrlf_singleton (text : Text) : KeepsCrlf [text] := by
  intro before after hChunks hLast hHead
  cases before with
  | nil => cases hLast
  | cons chunk before =>
    obtain ⟨-, hRest⟩ := List.cons.inj hChunks
    obtain ⟨-, rfl⟩ := List.append_eq_nil_iff.mp hRest.symm
    cases hHead

theorem KeepsCrlf.front {chunks more : List Text} (hKeeps : KeepsCrlf (chunks ++ more)) : KeepsCrlf chunks := by
  intro before after hChunks hLast hHead
  refine hKeeps before (after ++ more) (by rw [hChunks, List.append_assoc]) hLast ?_
  rw [List.flatten_append, List.head?_append, hHead, Option.some_or]

theorem pushAll_append (decoder : SseDecoder) (chunks more : List Text) : decoder.pushAll (chunks ++ more) =
    (((decoder.pushAll chunks).1.pushAll more).1, (decoder.pushAll chunks).2 ++ ((decoder.pushAll chunks).1.pushAll more).2) := by
  induction chunks generalizing decoder with
  | nil => rfl
  | cons chunk chunks ih => simp only [List.cons_append, SseDecoder.pushAll, ih, List.append_assoc]

theorem pushAll_eq {chunks : List Text} (hKeeps : KeepsCrlf chunks) : SseDecoder.new.pushAll chunks =
    SseDecoder.new.pushText chunks.flatten := by
  induction chunks using List.reverseRecOn with
  | nil => rfl
  | append_singleton chunks chunk ih =>
    have hWhole : chunks.flatten.getLast? = some '\r' → chunk.head? ≠ some '\n' := by
      intro hLast
      have hNext := hKeeps chunks [chunk] rfl hLast
      rwa [List.flatten_singleton] at hNext
    rw [pushAll_append, ih hKeeps.front, List.flatten_append, List.flatten_singleton]
    simp only [SseDecoder.pushAll, SseDecoder.pushText, scan_eq, SseDecoder.new, cut_append hWhole, decodeLines_append,
      List.append_nil]

theorem finish_eq (g : Gathered block state) (tail : Text) :
    (SseDecoder.finish ⟨state, tail⟩).map shown = (eventOf (if tail = [] then block else block ++ [tail])).toList := by
  unfold SseDecoder.finish
  by_cases hTail : tail = []
  · rw [if_pos hTail, if_pos hTail, ← g.flush.2]
    cases hFlush : state.flush.2 with
    | none | some event => simp [hFlush]
  · obtain ⟨hNext, hNone⟩ := g.decodeLine hTail
    rw [if_neg hTail, if_neg hTail, ← hNext.flush.2]
    simp only [hNone]
    cases hFlush : (state.decodeLine tail).1.flush.2 with
    | none => simp
    | some event => simp

theorem denoted_eq (lines : List Text) (tail : Text) : denoted lines tail = closedEvents lines ++
    (eventOf (if tail = [] then (blocks [] lines).2 else (blocks [] lines).2 ++ [tail])).toList := by
  unfold denoted closedEvents
  by_cases hTail : tail = []
  · simp only [if_pos hTail, List.filterMap_append]
    cases hEvent : eventOf (blocks [] lines).2 with
    | none | some event => simp [hEvent]
  · simp only [if_neg hTail, blocks_concat _ _ _ hTail, List.filterMap_append]
    cases hEvent : eventOf ((blocks [] lines).2 ++ [tail]) with
    | none | some event => simp [hEvent]

def splitChunks : List Text :=
  ["data: a\r".toList, "\ndata: b\n\n".toList]

def wholeChunks : List Text :=
  ["data: a\r\nda".toList, "ta: b\n\n".toList]

theorem wholeChunks_keepsCrlf : KeepsCrlf wholeChunks := by
  intro before after hChunks hLast hHead
  match before, hChunks with
  | [], _ => cases hLast
  | [_], hChunks =>
    obtain ⟨rfl, rfl⟩ := List.cons.inj hChunks
    cases hHead
  | _ :: _ :: before, hChunks =>
    obtain ⟨-, hRest⟩ := List.cons.inj hChunks
    obtain ⟨-, hRest⟩ := List.cons.inj hRest
    obtain ⟨-, rfl⟩ := List.append_eq_nil_iff.mp hRest.symm
    cases hHead

end PrimeAgent.Sse
