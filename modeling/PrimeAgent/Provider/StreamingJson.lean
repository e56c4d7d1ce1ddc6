import PrimeAgent.Provider.Events
import PrimeAgent.Provider.JsonRepair

/-! # Previews of streamed arguments

The text of a tool call's arguments is parsed as it comes in: strictly, then repaired, then as a text that is cut off. A
long text is parsed again when it has grown by a sixteenth.
-/
namespace PrimeAgent.StreamingJson

open JsonRepair Provider

inductive ParseError where
  | invalid
  | truncated

def skipWhitespace (text : Text) : Text :=
  text.dropWhile fun c => c == ' ' || c == '\t' || c == '\n' || c == '\r'

/-- The first character behind the white space. -/
def opening (text : Text) : Option Char :=
  (skipWhitespace text).head?

def isObject : Json → Bool
  | .object _ => true
  | _ => false

/-- The JSON crate: `from_str` for a value and for an `f64`, and `Number::from_f64`. An object is what opens with a brace. -/
structure StreamingSerde (Error : Type) extends Serde Json Error where
  fromStrF64 : Text → Option F64
  fromF64 : F64 → Option JsonNumber
  opens : ∀ text value, fromStr text = .ok value → (isObject value = true ↔ opening text = some '\x7b')

/-! ## The tolerant parser -/

def parseLiteral : Text → Text → Except ParseError Text
  | [], text => .ok text
  | _ :: _, [] => .error .truncated
  | expected :: literal, actual :: rest => if actual = expected then parseLiteral literal rest else .error .invalid

def isNumberEnd (c : Char) : Bool :=
  c ∈ ['.', 'e', 'E', '+', '-']

variable {Error : Type} {serde : StreamingSerde Error}

/-- The loop for the longest prefix that is a number. -/
def longestNumber (serde : StreamingSerde Error) : Nat → Text → Text
  | 0, _ => []
  | rounds + 1, candidate =>
    if candidate = [] ∨ (serde.fromStrF64 candidate).isSome then candidate
    else
      let trimmed := candidate.rdropWhile isNumberEnd
      if trimmed ≠ [] ∧ (serde.fromStrF64 trimmed).isSome then trimmed else longestNumber serde rounds trimmed.dropLast

def parseNumber (serde : StreamingSerde Error) (text : Text) : Except ParseError (Json × Text) :=
  let isPart := fun c : Char => c.isDigit || isNumberEnd c
  let part := text.takeWhile isPart
  let candidate := longestNumber serde part.length part
  match if candidate = [] then none else serde.fromStrF64 candidate with
  | none => .error .invalid
  | some number =>
    let int := if candidate.any (· ∈ ['.', 'e', 'E']) then none else parseI64 candidate
    match int, serde.fromF64 number with
    | some int, _ => .ok (.number (if 0 ≤ int then .posInt int.toNat else .negInt int), text.dropWhile isPart)
    | none, some number => .ok (.number number, text.dropWhile isPart)
    | none, none => .error .invalid

/-- Four hex digits, or none where the text ends before. -/
def readHex : Nat → Nat → Text → Except ParseError (Option (Nat × Text))
  | 0, code, text => .ok (some (code, text))
  | _ + 1, _, [] => .ok none
  | digits + 1, code, c :: rest => if isHexDigit c then readHex digits (code * 16 + hexValue c) rest else .error .invalid

/-- The content and whether the closing quote was seen; each round takes a character. -/
def parseString : Nat → Text → Text → Except ParseError ((Text × Bool) × Text)
  | 0, out, text => .ok ((out, false), text)
  | _ + 1, out, [] => .ok ((out, false), [])
  | _ + 1, out, '"' :: rest => .ok ((out, true), rest)
  | _ + 1, out, ['\\'] => .ok ((out, false), [])
  | rounds + 1, out, '\\' :: 'u' :: rest => do
    let some (value, rest) ← readHex 4 0 rest | return ((out, false), [])
    if 0xD800 ≤ value ∧ value < 0xDC00 then
      match rest with
      | '\\' :: 'u' :: more =>
        -- a cut second half leaves the position where it began
        let some (low, more) ← readHex 4 0 more | return ((out, false), rest)
        if 0xDC00 ≤ low ∧ low < 0xE000 then
          parseString rounds (out ++ [Char.ofNat (0x10000 + (value - 0xD800) * 0x400 + (low - 0xDC00))]) more
        else .error .invalid
      | _ => parseString rounds (out ++ ['\uFFFD']) rest
    else if 0xDC00 ≤ value ∧ value < 0xE000 then parseString rounds (out ++ ['\uFFFD']) rest
    else parseString rounds (out ++ [Char.ofNat value]) rest
  | rounds + 1, out, '\\' :: esc :: rest =>
    if esc ∈ validJsonEscapes then parseString rounds (out ++ [Char.ofNat (escapedCode esc)]) rest else .error .invalid
  | rounds + 1, out, ch :: rest => parseString rounds (out ++ [ch]) rest

def readString (text : Text) : Except ParseError ((Text × Bool) × Text) :=
  parseString text.length [] text

mutual

/-- `parse_value`; two rounds for each character are enough. -/
def parseValue (serde : StreamingSerde Error) : Nat → Text → Except ParseError (Json × Text)
  | 0, _ => .error .invalid
  | rounds + 1, text => match text with
    | '\x7b' :: rest => parseObject serde rounds [] rest
    | '[' :: rest => parseArray serde rounds [] rest
    | '"' :: rest => do
      let ((value, _), rest) ← readString rest
      return (.string (String.ofList value), rest)
    | 't' :: _ => do return (.bool true, ← parseLiteral "true".toList text)
    | 'f' :: _ => do return (.bool false, ← parseLiteral "false".toList text)
    | 'n' :: _ => do return (.null, ← parseLiteral "null".toList text)
    | ch :: _ => if ch = '-' ∨ ch.isDigit then parseNumber serde text else .error .invalid
    | [] => .error .invalid

/-- `parse_array` behind the bracket. -/
def parseArray (serde : StreamingSerde Error) : Nat → List Json → Text → Except ParseError (Json × Text)
  | 0, _, _ => .error .invalid
  | rounds + 1, items, text => match skipWhitespace text with
    | [] => .ok (.array items, [])
    | ']' :: rest => .ok (.array items, rest)
    | ',' :: rest =>
      if items.isEmpty then .error .invalid
      else match skipWhitespace rest with
        | [] => .ok (.array items, [])
        | ']' :: rest => .ok (.array items, rest)
        | rest => parseArray serde rounds items rest
    | text => match parseValue serde rounds text with
      | .error .truncated => .ok (.array items, [])
      | .error .invalid => .error .invalid
      | .ok (value, rest) => match skipWhitespace rest with
        | [] => .ok (.array (items ++ [value]), [])
        | ',' :: rest => parseArray serde rounds (items ++ [value]) rest
        | ']' :: rest => .ok (.array (items ++ [value]), rest)
        | _ => .error .invalid

/-- `parse_object` behind the brace. -/
def parseObject (serde : StreamingSerde Error) : Nat → JsonMap → Text → Except ParseError (Json × Text)
  | 0, _, _ => .error .invalid
  | rounds + 1, object, text => match skipWhitespace text with
    | [] => .ok (.object object, [])
    | '\x7d' :: rest => .ok (.object object, rest)
    | ',' :: rest =>
      if object.isEmpty then .error .invalid
      else match skipWhitespace rest with
        | [] => .ok (.object object, [])
        | '\x7d' :: rest => .ok (.object object, rest)
        | rest => parseObject serde rounds object rest
    | '"' :: rest => match readString rest with
      | .error _ => .error .invalid
      | .ok ((_, false), _) => .ok (.object object, [])
      | .ok ((key, true), rest) => match skipWhitespace rest with
        | ':' :: rest => match skipWhitespace rest with
          | [] => .ok (.object object, [])
          | text => match parseValue serde rounds text with
            | .error .truncated => .ok (.object object, [])
            | .error .invalid => .error .invalid
            | .ok (value, rest) =>
              let object := JsonMap.set (String.ofList key) value object
              match skipWhitespace rest with
              | [] => .ok (.object object, [])
              | ',' :: rest => parseObject serde rounds object rest
              | '\x7d' :: rest => .ok (.object object, rest)
              | _ => .error .invalid
        | _ => .ok (.object object, [])
    | _ => .error .invalid

end

def parsePartialJson (serde : StreamingSerde Error) (input : Text) : Except ParseError Json :=
  match parseValue serde (2 * input.length + 1) (skipWhitespace input) with
  | .error _ => .error .invalid
  | .ok (value, rest) => if skipWhitespace rest = [] then .ok value else .error .invalid

def parseStreamingJson (serde : StreamingSerde Error) : Option Text → Json
  | none => .object []
  | some text =>
    if trim text = [] then .object []
    else match parseJsonWithRepair serde.toSerde text with
      | .ok value => value
      | .error _ => match parsePartialJson serde text with
        | .ok value => value
        | .error _ => match parsePartialJson serde (repairJson text) with
          | .ok value => value
          | .error _ => .object []

/-! ## Objects -/

variable {text rest : Text} {value : Json}

/-- Blank, or opened by a brace, or no JSON text for any of the parsers. -/
def OpensObject (serde : StreamingSerde Error) (text : Text) : Prop :=
  trim text = [] ∨ opening text = some '\x7b' ∨
    ((∃ error, parseJsonWithRepair serde.toSerde text = .error error) ∧
      (∃ error, parsePartialJson serde text = .error error) ∧
      ∃ error, parsePartialJson serde (repairJson text) = .error error)

theorem parseArray_value (rounds : Nat) (items : List Json) (text : Text)
    (hOk : parseArray serde rounds items text = .ok (value, rest)) : isObject value = false := by
  induction rounds generalizing items text with
  | zero => cases hOk
  | succ rounds ih =>
    rw [parseArray] at hOk
    repeat' split at hOk
    all_goals first | cases hOk; rfl | exact ih _ _ hOk | cases hOk

theorem parseObject_value (rounds : Nat) (object : JsonMap) (text : Text)
    (hOk : parseObject serde rounds object text = .ok (value, rest)) : isObject value = true := by
  induction rounds generalizing object text with
  | zero => cases hOk
  | succ rounds ih =>
    rw [parseObject] at hOk
    repeat' split at hOk
    all_goals first | cases hOk; rfl | exact ih _ _ hOk | cases hOk

theorem parseNumber_value (hOk : parseNumber serde text = .ok (value, rest)) : isObject value = false := by
  unfold parseNumber at hOk
  simp only at hOk
  repeat' split at hOk
  all_goals cases hOk; try rfl

theorem parseValue_value (rounds : Nat) (hOk : parseValue serde rounds text = .ok (value, rest)) :
    isObject value = true ↔ text.head? = some '\x7b' := by
  have hNot : ∀ {value' : Json}, isObject value' = false → value' = value → ¬ isObject value = true := by
    rintro _ hFalse rfl
    rw [hFalse]
    exact Bool.false_ne_true
  cases rounds with
  | zero => cases hOk
  | succ rounds =>
    rw [parseValue.eq_def] at hOk
    simp only at hOk
    split at hOk
    next => exact iff_of_true (parseObject_value rounds [] _ hOk) rfl
    next => exact iff_of_false (hNot (parseArray_value rounds [] _ hOk) rfl) (by simp)
    next text =>
      cases hText : readString text <;> rw [hText] at hOk <;> cases hOk
      exact iff_of_false (hNot rfl rfl) (by simp)
    next text =>
      cases hText : parseLiteral "true".toList ('t' :: text) <;> rw [hText] at hOk <;> cases hOk
      exact iff_of_false (hNot rfl rfl) (by simp)
    next text =>
      cases hText : parseLiteral "false".toList ('f' :: text) <;> rw [hText] at hOk <;> cases hOk
      exact iff_of_false (hNot rfl rfl) (by simp)
    next text =>
      cases hText : parseLiteral "null".toList ('n' :: text) <;> rw [hText] at hOk <;> cases hOk
      exact iff_of_false (hNot rfl rfl) (by simp)
    next ch text hBrace _ _ _ _ _ =>
      split at hOk
      next => exact iff_of_false (hNot (parseNumber_value hOk) rfl) fun hHead => hBrace (by simpa using hHead)
      next => cases hOk
    next => cases hOk

theorem parsePartialJson_opens (hOk : parsePartialJson serde text = .ok value) :
    isObject value = true ↔ opening text = some '\x7b' := by
  unfold parsePartialJson at hOk
  split at hOk
  next => cases hOk
  next value' rest hValue =>
    split at hOk
    next =>
      obtain rfl := Except.ok.inj hOk
      exact parseValue_value _ hValue
    next => cases hOk

theorem opening_repairJson (text : Text) : opening (repairJson text) = opening text := by
  unfold repairJson opening skipWhitespace
  induction text with
  | nil => rfl
  | cons ch rest ih =>
    rw [repairLoop]
    cases hSpace : (ch == ' ' || ch == '\t' || ch == '\n' || ch == '\r') with
    | true =>
      have hNoQuote : (ch == '"') = false := by
        simp only [Bool.or_eq_true, beq_iff_eq] at hSpace
        obtain ((rfl | rfl) | rfl) | rfl := hSpace <;> rfl
      simp only [hNoQuote, List.dropWhile_cons, hSpace, if_true, ih]
    | false => simp [hSpace]

theorem parseJsonWithRepair_opens (hOk : parseJsonWithRepair serde.toSerde text = .ok value) :
    isObject value = true ↔ opening text = some '\x7b' := by
  unfold parseJsonWithRepair at hOk
  split at hOk
  next value' hStrict =>
    obtain rfl := Except.ok.inj hOk
    exact serde.opens text _ hStrict
  next =>
    simp only at hOk
    split at hOk
    next => cases hOk
    next => rw [serde.opens _ value hOk, opening_repairJson]

theorem isObject_iff (serde : StreamingSerde Error) (text : Text) :
    isObject (parseStreamingJson serde (some text)) = true ↔ OpensObject serde text := by
  unfold parseStreamingJson OpensObject
  simp only
  split
  next hBlank => simp [hBlank, isObject]
  next hText =>
    split
    next value hValue => simp [hText, hValue, parseJsonWithRepair_opens hValue]
    next error hStrict =>
      split
      next value hValue => simp [hText, hStrict, hValue, parsePartialJson_opens hValue]
      next error' hPartial =>
        split
        next value hValue =>
          rw [← opening_repairJson]
          simp [hText, hStrict, hPartial, hValue, parsePartialJson_opens hValue]
        next error'' hRepaired => simp [hStrict, hPartial, hRepaired, isObject]

/-! ## Runs -/

/-- The parser of the accumulator. -/
def streamingParser (serde : StreamingSerde Error) : StreamingParser where
  parse text := parseStreamingJson serde (some text.toList)
  parse_empty := rfl

inductive Op where
  | append (delta : String)
  | flush

/-- An accumulator, the texts that were parsed with their previews, the newest first, and the lengths parsed by appends
behind the eager threshold. -/
structure History where
  accumulator : StreamingJsonAccumulator
  previews : List (String × Json)
  work : Nat

def History.new (text : String) : History :=
  ⟨.new text, [], 0⟩

variable {parser : StreamingParser} {h : History}

/-- What an operation returns, and the accumulator it leaves. -/
def Op.run (parser : StreamingParser) (accumulator : StreamingJsonAccumulator) :
    Op → Option Json × StreamingJsonAccumulator
  | .append delta => accumulator.append parser delta
  | .flush =>
    if accumulator.parsed_length ≠ accumulator.len_utf16 then accumulator.parseAll parser else (none, accumulator)

def History.step (parser : StreamingParser) (h : History) (op : Op) : History :=
  let (preview, accumulator) := op.run parser h.accumulator
  let counted := match op with
    | .append _ => preview.isSome && decide (StreamingJsonAccumulator.EAGER_PARSE_LENGTH < accumulator.len_utf16)
    | .flush => false
  { accumulator := accumulator
    previews := (preview.toList.map (Prod.mk accumulator.text)) ++ h.previews
    work := h.work + if counted then accumulator.len_utf16 else 0 }

/-- The last preview is that of the parsed part of the text, and the work is paid for by its length. -/
structure Fresh (parser : StreamingParser) (h : History) : Prop where
  parsed : ∃ parsed rest, h.accumulator.text = parsed ++ rest ∧ h.accumulator.parsed_length = utf16Length parsed ∧
    ∀ preview ∈ h.previews.head?, preview = (parsed, parser.parse parsed)
  previews : ∀ preview ∈ h.previews, preview.2 = parser.parse preview.1
  first : h.previews = [] → h.accumulator.parsed_length = 0
  work : h.work ≤ 17 * h.accumulator.parsed_length

theorem Fresh.parseAll {accumulator : StreamingJsonAccumulator} {work : Nat} (hFresh : Fresh parser h)
    (hWork : work ≤ 17 * accumulator.len_utf16) : Fresh parser
      ⟨(accumulator.parseAll parser).2, (accumulator.text, parser.parse accumulator.text) :: h.previews, work⟩ where
  parsed := ⟨accumulator.text, "", by simp [StreamingJsonAccumulator.parseAll], rfl, by simp⟩
  previews := List.forall_mem_cons.mpr ⟨rfl, hFresh.previews⟩
  first := by simp
  work := hWork

theorem fresh_new (text : String) : Fresh parser (History.new text) where
  parsed := ⟨"", text, by simp [History.new, StreamingJsonAccumulator.new], rfl, by simp [History.new]⟩
  previews := by simp [History.new]
  first _ := rfl
  work := Nat.le_refl _

theorem Fresh.length_le (hFresh : Fresh parser h) : h.accumulator.parsed_length ≤ h.accumulator.len_utf16 := by
  obtain ⟨parsed, rest, hText, hLength, -⟩ := hFresh.parsed
  rw [hLength, StreamingJsonAccumulator.len_utf16, hText, utf16Length_append]
  exact Nat.le_add_right _ _

theorem fresh_step (hFresh : Fresh parser h) (op : Op) : Fresh parser (h.step parser op) := by
  have hLength := hFresh.length_le
  have hWork := hFresh.work
  obtain ⟨parsed, rest, hText, hParsed, hLast⟩ := hFresh.parsed
  cases op with
  | append delta =>
    have hGrown : h.accumulator.len_utf16 ≤ utf16Length (h.accumulator.text ++ delta) := by
      rw [utf16Length_append]
      exact Nat.le_add_right _ _
    unfold History.step Op.run StreamingJsonAccumulator.append
    simp only
    split
    next hWithheld =>
      refine ⟨⟨parsed, rest ++ delta, ?_, hParsed, hLast⟩, hFresh.previews, hFresh.first, hWork⟩
      rw [hText, String.append_assoc]
    next hDue =>
      refine Fresh.parseAll hFresh ?_
      have hPaid : h.work + utf16Length (h.accumulator.text ++ delta) ≤ 17 * utf16Length (h.accumulator.text ++ delta) ∨
          ¬ StreamingJsonAccumulator.EAGER_PARSE_LENGTH < utf16Length (h.accumulator.text ++ delta) := by
        simp only [StreamingJsonAccumulator.len_utf16] at *
        omega
      show h.work + _ ≤ 17 * utf16Length (h.accumulator.text ++ delta)
      split
      next hCounted =>
        simp only [StreamingJsonAccumulator.parseAll, Option.isSome_some, Bool.true_and] at hCounted
        exact hPaid.resolve_right (not_not.mpr (of_decide_eq_true hCounted))
      next =>
        simp only [StreamingJsonAccumulator.len_utf16] at *
        omega
  | flush =>
    unfold History.step Op.run
    simp only
    split
    next => exact Fresh.parseAll hFresh (by simp; omega)
    next => exact ⟨⟨parsed, rest, hText, hParsed, hLast⟩, hFresh.previews, hFresh.first, hWork⟩

def History.run (parser : StreamingParser) (h : History) (ops : List Op) : History :=
  ops.foldl (History.step parser) h

theorem fresh_run (text : String) (ops : List Op) : Fresh parser ((History.new text).run parser ops) := by
  induction ops using List.reverseRecOn with
  | nil => exact fresh_new text
  | append_singleton ops op ih =>
    rw [History.run, List.foldl_append]
    exact fresh_step ih op

theorem previewed_append (hFresh : Fresh parser h) (delta : String) : (h.step parser (.append delta)).previews ≠ [] := by
  unfold History.step Op.run StreamingJsonAccumulator.append
  simp only
  split
  next hWithheld =>
    intro hNone
    have hZero := hFresh.first (List.append_eq_nil_iff.mp hNone).2
    omega
  next => simp [StreamingJsonAccumulator.parseAll]

theorem previewed_run (text : String) (ops : List Op) (hAppend : ∃ delta, Op.append delta ∈ ops) :
    ((History.new text).run parser ops).previews ≠ [] := by
  induction ops using List.reverseRecOn with
  | nil => simp at hAppend
  | append_singleton ops op ih =>
    obtain ⟨delta, hMem⟩ := hAppend
    have hFresh := @fresh_run parser text ops
    rw [History.run, List.foldl_append] at *
    obtain hEarlier | hLast := List.mem_append.mp hMem
    · exact List.append_ne_nil_of_right_ne_nil _ (ih ⟨delta, hEarlier⟩)
    · obtain rfl := List.mem_singleton.mp hLast
      exact previewed_append hFresh delta

theorem flushed_step (hFresh : Fresh parser h) (hSome : h.previews ≠ []) :
    (h.step parser .flush).previews.head? = some (h.accumulator.text, parser.parse h.accumulator.text) := by
  unfold History.step Op.run
  simp only
  split
  next => rfl
  next hCurrent =>
    obtain ⟨parsed, rest, hText, hParsed, hLast⟩ := hFresh.parsed
    rw [not_not, hParsed, StreamingJsonAccumulator.len_utf16, hText, utf16Length_append] at hCurrent
    have hRest := eq_empty_of_utf16Length (by omega : utf16Length rest = 0)
    rw [hRest, String.append_empty] at hText
    obtain ⟨preview, previews, hPreviews⟩ := List.exists_cons_of_ne_nil hSome
    rw [hPreviews] at hLast ⊢
    rw [hText]
    exact congrArg some (hLast preview rfl)

theorem streaming_previews (serde : StreamingSerde Error) (text : String) (ops : List Op) :
    let parser := streamingParser serde
    let h := (History.new text).run parser ops
    (∀ delta, h.accumulator.parsed_length ≤ utf16Length (h.accumulator.text ++ delta)) ∧
    (∀ preview ∈ h.previews, preview.2 = parseStreamingJson serde (some preview.1.toList)) ∧
    ((∀ preview ∈ h.previews, isObject preview.2 = true) ↔
      ∀ preview ∈ h.previews, OpensObject serde preview.1.toList) ∧
    (∀ delta, (h.accumulator.append parser delta).1 = none →
      16 * (utf16Length (h.accumulator.text ++ delta) - h.accumulator.parsed_length) < h.accumulator.parsed_length) ∧
    ((∃ delta, Op.append delta ∈ ops) → (h.step parser .flush).previews.head? =
      some (h.accumulator.text, parseStreamingJson serde (some h.accumulator.text.toList))) ∧
    h.work ≤ 17 * h.accumulator.len_utf16 := by
  intro parser h
  have hFresh : Fresh parser h := fresh_run text ops
  have hLength := hFresh.length_le
  refine ⟨fun delta => ?_, hFresh.previews, ?_, fun delta hNone => ?_, fun hAppend => ?_, ?_⟩
  · rw [utf16Length_append]
    exact hLength.trans (Nat.le_add_right _ _)
  · refine forall₂_congr fun preview hMem => ?_
    rw [hFresh.previews preview hMem]
    exact isObject_iff serde _
  · unfold StreamingJsonAccumulator.append at hNone
    simp only at hNone
    split at hNone
    next hWithheld => exact hWithheld.2
    next => cases hNone
  · exact flushed_step hFresh (previewed_run text ops hAppend)
  · exact hFresh.work.trans (Nat.mul_le_mul_left 17 hLength)

/-- A crate that takes no text, as it takes none that is cut off. -/
def rejectingSerde : StreamingSerde Unit where
  fromStr _ := .error ()
  legal := by simp
  same := by simp
  fromStrF64 _ := none
  fromF64 _ := none
  opens := by simp

theorem bracket_previews_as_array :
    let previews := ((History.new "").run (streamingParser rejectingSerde) [.append "["]).previews
    previews = [("[", .array [])] ∧ ¬ ∀ preview ∈ previews, isObject preview.2 = true := by
  decide +kernel

end PrimeAgent.StreamingJson
