import PrimeAgent.Types.Ai

/-! # Streamed tool arguments

`StreamingJsonAccumulator`: the text of a call's arguments as it arrives, with a preview that is parsed
again at every fragment while the text is short and only now and then once it is long.
-/
namespace PrimeAgent.Provider

/-- `parse_streaming_json`, which makes an empty object of an empty text. -/
structure StreamingParser where
  parse : String → Json
  parse_empty : parse "" = .object []

/-- A parser that sees an object without members everywhere. -/
def StreamingParser.bare : StreamingParser :=
  ⟨fun _ => .object [], rfl⟩

/-- `value.as_object().cloned().unwrap_or_default()`. -/
def objectOrEmpty : Json → JsonMap
  | .object members => members
  | _ => []

def utf16Length (text : String) : Nat :=
  (text.toList.map fun c => if c.toNat < 0x10000 then 1 else 2).sum

theorem utf16Length_append (text more : String) :
    utf16Length (text ++ more) = utf16Length text + utf16Length more := by
  simp [utf16Length, String.toList_append]

theorem eq_empty_of_utf16Length {text : String} (hLength : utf16Length text = 0) : text = "" := by
  rw [← String.toList_eq_nil_iff]
  cases hList : text.toList with
  | nil => rfl
  | cons c rest =>
    rw [utf16Length, hList, List.map_cons, List.sum_cons] at hLength
    split at hLength <;> omega

structure StreamingJsonAccumulator where
  text : String
  parsed_length : Nat
deriving DecidableEq

namespace StreamingJsonAccumulator

def EAGER_PARSE_LENGTH : Nat := 8 * 1024

def default : StreamingJsonAccumulator :=
  ⟨"", 0⟩

def new (text : String) : StreamingJsonAccumulator :=
  ⟨text, 0⟩

def len_utf16 (scratch : StreamingJsonAccumulator) : Nat :=
  utf16Length scratch.text

def parseAll (parser : StreamingParser) (scratch : StreamingJsonAccumulator) :
    Option Json × StreamingJsonAccumulator :=
  (some (parser.parse scratch.text), { scratch with parsed_length := scratch.len_utf16 })

def append (parser : StreamingParser) (fragment : String) (scratch : StreamingJsonAccumulator) :
    Option Json × StreamingJsonAccumulator :=
  let grown : StreamingJsonAccumulator := { scratch with text := scratch.text ++ fragment }
  if grown.len_utf16 > EAGER_PARSE_LENGTH ∧
      16 * (grown.len_utf16 - grown.parsed_length) < grown.parsed_length then (none, grown)
  else grown.parseAll parser

def flush (parser : StreamingParser) (scratch : StreamingJsonAccumulator) : Option Json :=
  if scratch.parsed_length ≠ scratch.len_utf16 then some (parser.parse scratch.text) else none

def Previews (parser : StreamingParser) (scratch : StreamingJsonAccumulator) (preview : JsonMap) : Prop :=
  ∃ parsed rest, scratch.text = parsed ++ rest ∧ scratch.parsed_length = utf16Length parsed ∧
    preview = objectOrEmpty (parser.parse parsed)

variable {parser : StreamingParser} {scratch : StreamingJsonAccumulator} {preview : JsonMap}

theorem append_text (fragment : String) : (scratch.append parser fragment).2.text = scratch.text ++ fragment := by
  unfold append parseAll
  dsimp only
  split <;> rfl

theorem previews_parseAll :
    Previews parser (scratch.parseAll parser).2 (objectOrEmpty (parser.parse scratch.text)) :=
  ⟨scratch.text, "", by simp [parseAll], rfl, rfl⟩

theorem previews_append (hPreviews : Previews parser scratch preview) (fragment : String) :
    Previews parser (scratch.append parser fragment).2
      (((scratch.append parser fragment).1.map objectOrEmpty).getD preview) := by
  obtain ⟨parsed, rest, hText, hLength, hPreview⟩ := hPreviews
  unfold append
  dsimp only
  split
  · refine ⟨parsed, rest ++ fragment, ?_, hLength, hPreview⟩
    simp [hText, String.append_assoc]
  · exact previews_parseAll

theorem append_first (fragment : String) :
    default.append parser fragment = (some (parser.parse fragment), ⟨fragment, utf16Length fragment⟩) := by
  unfold append
  dsimp only [default]
  rw [if_neg (by omega)]
  simp [parseAll, len_utf16]

theorem Previews.current (hPreviews : Previews parser scratch preview)
    (hCurrent : scratch.parsed_length = scratch.len_utf16) :
    preview = objectOrEmpty (parser.parse scratch.text) := by
  obtain ⟨parsed, rest, hText, hLength, hPreview⟩ := hPreviews
  have hRest : rest = "" := by
    apply eq_empty_of_utf16Length
    have hSum := utf16Length_append parsed rest
    rw [← hText] at hSum
    unfold len_utf16 at hCurrent
    omega
  rw [hPreview, hText, hRest, String.append_empty]

theorem Previews.flushed (hPreviews : Previews parser scratch preview) :
    ((scratch.flush parser).map objectOrEmpty).getD preview = objectOrEmpty (parser.parse scratch.text) := by
  unfold flush
  split
  · rfl
  · rename_i hCurrent
    exact hPreviews.current (not_not.mp hCurrent)

end StreamingJsonAccumulator

end PrimeAgent.Provider

/-! ## Stream events

The events a provider's stream writes to its caller, and the changes deltas make to a block.
-/
namespace PrimeAgent.Provider

def strField (key : String) (value : Json) : String :=
  ((value.get key).bind Json.asStr).getD ""

def u64Field (key : String) (value : Json) : Nat :=
  ((value.get key).bind Json.asU64).getD 0

def typeOf (value : Json) : String :=
  strField "type" value

/-- The events written to the caller, each with the content of the message at that moment. -/
inductive Pushed where
  | textStart (contentIndex : Nat) (snapshot : List AssistantContentBlock)
  | textDelta (contentIndex : Nat) (delta : String) (snapshot : List AssistantContentBlock)
  | textEnd (contentIndex : Nat) (content : String) (snapshot : List AssistantContentBlock)
  | thinkingStart (contentIndex : Nat) (snapshot : List AssistantContentBlock)
  | thinkingDelta (contentIndex : Nat) (delta : String) (snapshot : List AssistantContentBlock)
  | thinkingEnd (contentIndex : Nat) (content : String) (snapshot : List AssistantContentBlock)
  | toolcallStart (contentIndex : Nat) (snapshot : List AssistantContentBlock)
  | toolcallDelta (contentIndex : Nat) (delta : String) (snapshot : List AssistantContentBlock)
  | toolcallEnd (contentIndex : Nat) (call : ToolCall) (snapshot : List AssistantContentBlock)
deriving DecidableEq

inductive Kind where
  | started
  | delta
  | ended
deriving DecidableEq

namespace Pushed

def contentIndex : Pushed → Nat
  | .textStart position _ | .textDelta position _ _ | .textEnd position _ _ | .thinkingStart position _
  | .thinkingDelta position _ _ | .thinkingEnd position _ _ | .toolcallStart position _
  | .toolcallDelta position _ _ | .toolcallEnd position _ _ => position

def kind : Pushed → Kind
  | .textStart _ _ | .thinkingStart _ _ | .toolcallStart _ _ => .started
  | .textDelta _ _ _ | .thinkingDelta _ _ _ | .toolcallDelta _ _ _ => .delta
  | .textEnd _ _ _ | .thinkingEnd _ _ _ | .toolcallEnd _ _ _ => .ended

end Pushed

def snapshotOf : Pushed → List AssistantContentBlock
  | .textStart _ snapshot | .textDelta _ _ snapshot | .textEnd _ _ snapshot | .thinkingStart _ snapshot
  | .thinkingDelta _ _ snapshot | .thinkingEnd _ _ snapshot | .toolcallStart _ snapshot
  | .toolcallDelta _ _ snapshot | .toolcallEnd _ _ snapshot => snapshot

def kindsAt (position : Nat) (pushed : List Pushed) : List Kind :=
  (pushed.filter (fun event => event.contentIndex == position)).map Pushed.kind

def pushText (text : String) : AssistantContentBlock → AssistantContentBlock
  | .text content => .text { content with text := content.text ++ text }
  | block => block

def pushThinking (thinking : String) : AssistantContentBlock → AssistantContentBlock
  | .thinking content => .thinking { content with thinking := content.thinking ++ thinking }
  | block => block

def pushSignature (signature : String) : AssistantContentBlock → AssistantContentBlock
  | .thinking content =>
    .thinking { content with thinkingSignature := some (content.thinkingSignature.getD "" ++ signature) }
  | block => block

def setArguments (parsed : Option Json) : AssistantContentBlock → AssistantContentBlock
  | .toolCall call => .toolCall { call with arguments := (parsed.map objectOrEmpty).getD call.arguments }
  | block => block

def joined (texts : List String) : String :=
  texts.foldl (· ++ ·) ""

theorem joined_append (texts : List String) (text : String) : joined (texts ++ [text]) = joined texts ++ text := by
  simp [joined, List.foldl_append]

variable {position : Nat}

theorem modify_at {α : Type} {list : List α} {x : α} (hAt : list[position]? = some x) (f : α → α) :
    list.modify position f = list.set position (f x) := by
  obtain ⟨hLength, rfl⟩ := List.getElem?_eq_some_iff.mp hAt
  apply List.ext_getElem?
  intro other
  rw [List.getElem?_modify, List.getElem?_set]
  split
  · rename_i hEq
    subst hEq
    simp [hLength]
  · simp

theorem set_at {α : Type} {list : List α} {x : α} (hAt : list[position]? = some x) :
    list.set position x = list := by
  have hSame := (modify_at hAt id).symm
  rwa [List.modify_id] at hSame

end PrimeAgent.Provider
