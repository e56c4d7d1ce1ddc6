import PrimeAgent.Session.Timestamp
import Mathlib.Algebra.Order.BigOperators.Group.List
import Mathlib.Algebra.Order.Ring.Nat

/-! # Repaired JSON

The arguments of a tool call can hold strings with raw control characters and stray backslashes; a text that does not
parse is repaired by a scan that escapes both, and parsed again.
-/
namespace PrimeAgent.JsonRepair

def validJsonEscapes : List Char :=
  ['"', '\\', '/', 'b', 'f', 'n', 'r', 't']

def isControlCharacter (ch : Char) : Bool :=
  ch.toNat ≤ 0x1f

def isHexDigit (c : Char) : Bool :=
  ('0' ≤ c && c ≤ '9') || ('a' ≤ c && c ≤ 'f') || ('A' ≤ c && c ≤ 'F')

def escapeControlCharacter (ch : Char) : Text :=
  if ch.toNat = 8 then ['\\', 'b'] else if ch.toNat = 12 then ['\\', 'f'] else if ch = '\n' then ['\\', 'n']
  else if ch = '\r' then ['\\', 'r'] else if ch = '\t' then ['\\', 't']
  else ['\\', 'u', '0', '0', Nat.digitChar (ch.toNat / 16), Nat.digitChar (ch.toNat % 16)]

/-- The loop of `repair_json`. Behind a complete `\u` escape it goes on at the last digit. -/
def repairLoop : Bool → Text → Text
  | _, [] => []
  | false, ch :: rest => ch :: repairLoop (ch == '"') rest
  | true, ch :: rest =>
    if ch = '"' then ch :: repairLoop false rest
    else if ch = '\\' then
      match rest with
      | [] => ['\\', '\\']
      | 'u' :: a :: b :: c :: d :: more =>
        if [a, b, c, d].all isHexDigit then ['\\', 'u', a, b, c, d] ++ repairLoop true (d :: more)
        else ['\\', '\\'] ++ repairLoop true ('u' :: a :: b :: c :: d :: more)
      | next :: more =>
        if next ∈ validJsonEscapes then ['\\', next] ++ repairLoop true more
        else ['\\', '\\'] ++ repairLoop true (next :: more)
    else if isControlCharacter ch then escapeControlCharacter ch ++ repairLoop true rest
    else ch :: repairLoop true rest

def repairJson (json : Text) : Text :=
  repairLoop false json

/-! ## Pieces of a text -/

inductive Piece where
  | outside (ch : Char)
  | unicode (a b c d : Char)
  | escape (ch : Char)
  | stray
  | char (ch : Char)

def pieces : Bool → Text → List Piece
  | _, [] => []
  | false, ch :: rest => .outside ch :: pieces (ch == '"') rest
  | true, ch :: rest =>
    if ch = '"' then .outside ch :: pieces false rest
    else if ch = '\\' then
      match rest with
      | [] => [.stray]
      | 'u' :: a :: b :: c :: d :: more =>
        if [a, b, c, d].all isHexDigit then .unicode a b c d :: pieces true more
        else .stray :: pieces true ('u' :: a :: b :: c :: d :: more)
      | next :: more =>
        if next ∈ validJsonEscapes then .escape next :: pieces true more else .stray :: pieces true (next :: more)
    else .char ch :: pieces true rest

def hexValue (c : Char) : Nat :=
  if c ≤ '9' then c.toNat - '0'.toNat else if c ≤ 'F' then c.toNat - 'A'.toNat + 10 else c.toNat - 'a'.toNat + 10

def escapedCode (ch : Char) : Nat :=
  match ch with
  | 'b' => 8
  | 'f' => 12
  | 'n' => 10
  | 'r' => 13
  | 't' => 9
  | other => other.toNat

/-- `encode_utf16` of one character. -/
def utf16 (ch : Char) : List Nat :=
  if ch.toNat < 0x10000 then [ch.toNat]
  else [0xD800 + (ch.toNat - 0x10000) / 0x400, 0xDC00 + (ch.toNat - 0x10000) % 0x400]

namespace Piece

def meaning : Piece → List (Char ⊕ Nat)
  | outside ch => [.inl ch]
  | unicode a b c d => [.inr (((hexValue a * 16 + hexValue b) * 16 + hexValue c) * 16 + hexValue d)]
  | escape ch => [.inr (escapedCode ch)]
  | stray => [.inr '\\'.toNat]
  | char ch => (utf16 ch).map .inr

def Legal : Piece → Prop
  | stray => False
  | char ch => isControlCharacter ch = false
  | _ => True

/-- No `\u` escape, and no control character that is written as one. -/
def Spared : Piece → Prop
  | unicode .. => False
  | char ch => isControlCharacter ch = true → ch.toNat ∈ [8, 9, 10, 12, 13]
  | _ => True

def repaired : Piece → Text
  | outside ch => [ch]
  | unicode a b c d => ['\\', 'u', a, b, c, d, d]
  | escape ch => ['\\', ch]
  | stray => ['\\', '\\']
  | char ch => if isControlCharacter ch then escapeControlCharacter ch else [ch]

def again : Piece → List Piece
  | unicode a b c d => [unicode a b c d, char d]
  | stray => [escape '\\']
  | char ch =>
    if ch.toNat = 8 then [escape 'b'] else if ch.toNat = 12 then [escape 'f'] else if ch = '\n' then [escape 'n']
    else if ch = '\r' then [escape 'r'] else if ch = '\t' then [escape 't']
    else if isControlCharacter ch then
      [unicode '0' '0' (Nat.digitChar (ch.toNat / 16)) (Nat.digitChar (ch.toNat % 16))]
    else [char ch]
  | piece => [piece]

def source : Piece → Text
  | outside ch => [ch]
  | unicode a b c d => ['\\', 'u', a, b, c, d]
  | escape ch => ['\\', ch]
  | stray => ['\\']
  | char ch => [ch]

def kept : Piece → Text
  | outside ch => [ch]
  | _ => []

end Piece

def Legal (text : Text) : Prop :=
  ∀ piece ∈ pieces false text, piece.Legal

def meaning (text : Text) : List (Char ⊕ Nat) :=
  (pieces false text).flatMap Piece.meaning

def outsideOf (text : Text) : Text :=
  (pieces false text).flatMap Piece.kept

/-- The parser: it takes no raw control character and no stray backslash in a string, and its value depends on what is
outside of the strings and on the code units in them. -/
structure Serde (Value Error : Type) where
  fromStr : Text → Except Error Value
  legal : ∀ text value, fromStr text = .ok value → Legal text
  same : ∀ text text' value, Legal text → Legal text' → meaning text = meaning text' → fromStr text = .ok value →
    fromStr text' = .ok value

variable {Value Error : Type} {serde : Serde Value Error} {text json rest : Text} {piece other : Piece} {ch : Char}

def parseJsonWithRepair (serde : Serde Value Error) (json : Text) : Except Error Value :=
  match serde.fromStr json with
  | .ok value => .ok value
  | .error error =>
    let repaired := repairJson json
    if repaired = json then .error error else serde.fromStr repaired

/-! ## One piece -/

theorem digit_plain {d : Char} (hDigit : isHexDigit d = true) :
    isControlCharacter d = false ∧ d ≠ '"' ∧ d ≠ '\\' := by
  have hBounds : 48 ≤ d.toNat ∧ d.toNat ≠ 92 := by
    have hLe : ∀ a b : Char, a ≤ b ↔ a.toNat ≤ b.toNat := fun _ _ => Iff.rfl
    simp only [isHexDigit, Bool.or_eq_true, Bool.and_eq_true, decide_eq_true_eq, hLe, Char.reduceToNat] at hDigit
    omega
  refine ⟨?_, ?_, ?_⟩
  · simp only [isControlCharacter, decide_eq_false_iff_not]
    omega
  · rintro rfl
    simp at hBounds
  · rintro rfl
    simp at hBounds

theorem repairLoop_char (hQuote : ch ≠ '"') (hSlash : ch ≠ '\\') (rest : Text) :
    repairLoop true (ch :: rest) = (Piece.char ch).repaired ++ repairLoop true rest := by
  rw [repairLoop.eq_def]
  simp only [hQuote, hSlash, if_false, Piece.repaired]
  split <;> rfl

theorem repairLoop_eq (quoted : Bool) (text : Text) :
    repairLoop quoted text = (pieces quoted text).flatMap Piece.repaired := by
  fun_induction pieces quoted text with
  | case1 quoted => cases quoted <;> rfl
  | case2 ch rest ih => rw [repairLoop, ih]; rfl
  | case3 rest ih =>
    rw [repairLoop.eq_def]
    simp [ih, Piece.repaired]
  | case4 => rfl
  | case5 a b c d more hDigits _ ih =>
    obtain ⟨hControl, hQuote, hSlash⟩ := digit_plain (List.all_eq_true.mp hDigits d (by simp))
    rw [repairLoop, if_neg (by decide), if_pos rfl]
    simp only [hDigits, if_true, repairLoop_char hQuote hSlash, ih, Piece.repaired, hControl, List.flatMap_cons]
    rfl
  | case6 a b c d more hDigits _ ih =>
    rw [repairLoop, if_neg (by decide), if_pos rfl]
    simp only [hDigits, ih, List.flatMap_cons]
    rfl
  | case7 next more hNext hValid _ ih | case8 next more hNext hValid _ ih =>
    rw [repairLoop.eq_def]
    simp [hValid, ih, Piece.repaired]
  | case9 ch rest hQuote hSlash ih => rw [repairLoop_char hQuote hSlash, ih]; rfl

theorem source_pieces (quoted : Bool) (text : Text) : (pieces quoted text).flatMap Piece.source = text := by
  fun_induction pieces quoted text <;> simp_all [Piece.source]

theorem pieces_unicode {a b c d : Char} (hDigits : [a, b, c, d].all isHexDigit = true) (rest : Text) :
    pieces true ('\\' :: 'u' :: a :: b :: c :: d :: rest) = .unicode a b c d :: pieces true rest := by
  rw [pieces, if_neg (by decide), if_pos rfl]
  simp only [hDigits, if_true]

theorem pieces_escape (hValid : ch ∈ validJsonEscapes) (rest : Text) :
    pieces true ('\\' :: ch :: rest) = .escape ch :: pieces true rest := by
  have hOther : ch ≠ 'u' := by
    rintro rfl
    revert hValid
    decide
  rw [pieces.eq_def]
  simp [hValid, hOther]

theorem pieces_char (hQuote : ch ≠ '"') (hSlash : ch ≠ '\\') (rest : Text) :
    pieces true (ch :: rest) = .char ch :: pieces true rest := by
  rw [pieces.eq_def]
  simp [hQuote, hSlash]

theorem toNat_eq {ch other : Char} : ch = other ↔ ch.toNat = other.toNat :=
  Char.toNat_inj.symm

theorem digitChar_hex : ∀ n < 16, isHexDigit (Nat.digitChar n) = true := by
  decide

theorem pieces_control (hControl : isControlCharacter ch = true) (rest : Text) :
    pieces true (escapeControlCharacter ch ++ rest) = (Piece.char ch).again ++ pieces true rest := by
  unfold escapeControlCharacter Piece.again
  simp only [hControl, if_true]
  split_ifs
  · exact pieces_escape (by decide) rest
  · exact pieces_escape (by decide) rest
  · exact pieces_escape (by decide) rest
  · exact pieces_escape (by decide) rest
  · exact pieces_escape (by decide) rest
  · refine pieces_unicode ?_ rest
    simp only [isControlCharacter, decide_eq_true_eq] at hControl
    have hHigh := digitChar_hex (ch.toNat / 16) (by omega)
    have hLow := digitChar_hex (ch.toNat % 16) (by omega)
    simp only [List.all_cons, hHigh, hLow]
    decide

theorem again_of_plain (hPlain : isControlCharacter ch = false) : (Piece.char ch).again = [.char ch] := by
  have hLarge : ¬ ch.toNat ≤ 31 := by simpa [isControlCharacter] using hPlain
  unfold Piece.again
  simp only [hPlain, toNat_eq, Char.reduceToNat, Bool.false_eq_true, if_false]
  split_ifs <;> first | omega | rfl

theorem pieces_repaired (quoted : Bool) (text : Text) :
    pieces quoted ((pieces quoted text).flatMap Piece.repaired) = (pieces quoted text).flatMap Piece.again := by
  fun_induction pieces quoted text with
  | case1 quoted => cases quoted <;> rfl
  | case2 ch rest ih =>
    rw [List.flatMap_cons, List.flatMap_cons, ← ih]
    rfl
  | case3 rest ih =>
    rw [List.flatMap_cons, List.flatMap_cons, ← ih, Piece.repaired, List.singleton_append, pieces.eq_def]
    simp [Piece.again]
  | case4 => exact pieces_escape (by decide) []
  | case5 a b c d more hDigits _ ih =>
    obtain ⟨-, hQuote, hSlash⟩ := digit_plain (List.all_eq_true.mp hDigits d (by simp))
    rw [List.flatMap_cons, List.flatMap_cons, ← ih]
    exact (pieces_unicode hDigits _).trans (congrArg _ (pieces_char hQuote hSlash _))
  | case6 a b c d more _ _ ih =>
    rw [List.flatMap_cons, List.flatMap_cons, ← ih]
    exact pieces_escape (by decide) _
  | case7 next more _ hValid _ ih =>
    rw [List.flatMap_cons, List.flatMap_cons, ← ih]
    exact pieces_escape hValid _
  | case8 next more _ hValid _ ih =>
    rw [List.flatMap_cons, List.flatMap_cons, ← ih]
    exact pieces_escape (by decide) _
  | case9 ch rest hQuote hSlash ih =>
    rw [List.flatMap_cons, List.flatMap_cons, ← ih, Piece.repaired]
    cases hControl : isControlCharacter ch with
    | true => exact pieces_control hControl _
    | false =>
      rw [again_of_plain hControl]
      exact pieces_char hQuote hSlash _

theorem pieces_repairJson (text : Text) : pieces false (repairJson text) = (pieces false text).flatMap Piece.again := by
  rw [repairJson, repairLoop_eq, pieces_repaired]

theorem repairJson_eq (text : Text) : repairJson text = (pieces false text).flatMap Piece.repaired :=
  repairLoop_eq false text

/-! ## What a repair keeps -/

namespace Piece

theorem char_cases (ch : Char) :
    (isControlCharacter ch = false ∧ (char ch).again = [char ch] ∧ (char ch).repaired = [ch]) ∨
    (isControlCharacter ch = true ∧ ch.toNat ∈ [8, 9, 10, 12, 13] ∧ ∃ e, (char ch).again = [escape e] ∧
      (char ch).repaired = ['\\', e] ∧ escapedCode e = ch.toNat) ∨
    isControlCharacter ch = true ∧ ch.toNat ∉ [8, 9, 10, 12, 13] ∧ ∃ h l, (char ch).again = [unicode '0' '0' h l] ∧
      (char ch).repaired = ['\\', 'u', '0', '0', h, l] := by
  cases hControl : isControlCharacter ch with
  | false => exact Or.inl ⟨rfl, again_of_plain hControl, by simp [repaired, hControl]⟩
  | true =>
    right
    simp only [again, repaired, hControl, if_true, escapeControlCharacter]
    split_ifs with hBackspace hFormFeed hLine hReturn hTab
    · exact Or.inl ⟨trivial, by simp [hBackspace], 'b', rfl, rfl, hBackspace.symm⟩
    · exact Or.inl ⟨trivial, by simp [hFormFeed], 'f', rfl, rfl, hFormFeed.symm⟩
    · exact Or.inl ⟨trivial, by simp [hLine], 'n', rfl, rfl, by simp [hLine, escapedCode]⟩
    · exact Or.inl ⟨trivial, by simp [hReturn], 'r', rfl, rfl, by simp [hReturn, escapedCode]⟩
    · exact Or.inl ⟨trivial, by simp [hTab], 't', rfl, rfl, by simp [hTab, escapedCode]⟩
    · simp only [toNat_eq, Char.reduceToNat] at hLine hReturn hTab
      exact Or.inr ⟨trivial, by simp_all, _, _, rfl, rfl⟩

theorem legal_again (hSpared : other.Spared) (hMem : piece ∈ other.again) : piece.Legal := by
  cases other with
  | outside ch | escape ch | stray =>
    obtain rfl := List.mem_singleton.mp hMem
    trivial
  | unicode a b c d => exact hSpared.elim
  | char ch =>
    obtain ⟨hPlain, hAgain, -⟩ | ⟨-, -, e, hAgain, -⟩ | ⟨-, -, h, l, hAgain, -⟩ := char_cases ch <;>
      rw [hAgain] at hMem <;> obtain rfl := List.mem_singleton.mp hMem
    · exact hPlain
    · trivial
    · trivial

theorem meaning_again (hSpared : piece.Spared) : piece.again.flatMap meaning = piece.meaning := by
  cases piece with
  | outside ch | escape ch | stray => rfl
  | unicode a b c d => exact hSpared.elim
  | char ch =>
    obtain ⟨-, hAgain, -⟩ | ⟨hControl, -, e, hAgain, -, hCode⟩ | ⟨hControl, hOther, -⟩ := char_cases ch
    · rw [hAgain, List.flatMap_singleton]
    · have hSmall : ch.toNat < 0x10000 := by
        simp only [isControlCharacter, decide_eq_true_eq] at hControl
        omega
      rw [hAgain, List.flatMap_singleton, meaning, meaning, utf16, if_pos hSmall, hCode]
      rfl
    · exact absurd (hSpared hControl) hOther

theorem kept_again (piece : Piece) : piece.again.flatMap kept = piece.kept := by
  cases piece with
  | outside ch | escape ch | stray | unicode a b c d => rfl
  | char ch =>
    obtain ⟨-, hAgain, -⟩ | ⟨-, -, e, hAgain, -⟩ | ⟨-, -, h, l, hAgain, -⟩ := char_cases ch <;> rw [hAgain] <;> rfl

theorem repaired_again (hSpared : piece.Spared) : piece.again.flatMap repaired = piece.repaired := by
  cases piece with
  | outside ch | escape ch | stray => rfl
  | unicode a b c d => exact hSpared.elim
  | char ch =>
    obtain ⟨-, hAgain, -⟩ | ⟨-, -, e, hAgain, hRepaired, -⟩ | ⟨hControl, hOther, -⟩ := char_cases ch
    · rw [hAgain, List.flatMap_singleton]
    · rw [hAgain, List.flatMap_singleton, hRepaired, repaired]
    · exact absurd (hSpared hControl) hOther

theorem repaired_shorter (hSpoiled : ¬ piece.Spared) :
    piece.repaired.length < (piece.again.flatMap repaired).length := by
  cases piece with
  | outside ch | escape ch | stray => exact absurd trivial hSpoiled
  | unicode a b c d =>
    have hDigit : 0 < (char d).repaired.length := by
      obtain ⟨-, -, hRepaired⟩ | ⟨-, -, e, -, hRepaired, -⟩ | ⟨-, -, h, l, -, hRepaired⟩ := char_cases d <;>
        simp [hRepaired]
    show 7 < ((unicode a b c d).repaired ++ ((char d).repaired ++ [])).length
    rw [List.append_nil, List.length_append]
    exact Nat.add_lt_add_left hDigit 7
  | char ch =>
    obtain ⟨hPlain, -⟩ | ⟨-, hShort, -⟩ | ⟨-, -, h, l, hAgain, hRepaired⟩ := char_cases ch
    · exact absurd (fun hControl => by rw [hPlain] at hControl; cases hControl) hSpoiled
    · exact absurd (fun _ => hShort) hSpoiled
    · rw [hAgain, hRepaired, List.flatMap_singleton]
      exact Nat.lt_succ_self _

theorem repaired_of_legal (hLegal : piece.Legal) (hSpared : piece.Spared) : piece.repaired = piece.source := by
  cases piece with
  | outside ch | escape ch => rfl
  | stray => exact hLegal.elim
  | unicode a b c d => exact hSpared.elim
  | char ch => rw [repaired, hLegal, if_neg (by decide), source]

end Piece

/-! ## All pieces -/

theorem length_flatMap_lt {l : List Piece} {f g : Piece → Text}
    (hLe : ∀ piece ∈ l, (f piece).length ≤ (g piece).length) (hMem : piece ∈ l)
    (hLt : (f piece).length < (g piece).length) : (l.flatMap f).length < (l.flatMap g).length := by
  rw [List.length_flatMap, List.length_flatMap]
  exact List.sum_lt_sum _ _ hLe ⟨piece, hMem, hLt⟩

theorem flatMap_congr {α : Type} {l : List Piece} {f g : Piece → List α} (h : ∀ piece ∈ l, f piece = g piece) :
    l.flatMap f = l.flatMap g := by
  rw [List.flatMap_def, List.flatMap_def, List.map_congr_left h]

def Spared (text : Text) : Prop :=
  ∀ piece ∈ pieces false text, piece.Spared

theorem legal_repairJson (hSpared : Spared text) : Legal (repairJson text) := by
  intro piece hMem
  rw [pieces_repairJson] at hMem
  obtain ⟨other, hOther, hAgain⟩ := List.mem_flatMap.mp hMem
  exact Piece.legal_again (hSpared other hOther) hAgain

theorem meaning_repairJson (hSpared : Spared text) : meaning (repairJson text) = meaning text := by
  rw [meaning, pieces_repairJson, List.flatMap_assoc]
  exact flatMap_congr fun piece hMem => Piece.meaning_again (hSpared piece hMem)

theorem outsideOf_repairJson (text : Text) : outsideOf (repairJson text) = outsideOf text := by
  rw [outsideOf, pieces_repairJson, List.flatMap_assoc]
  exact flatMap_congr fun piece _ => Piece.kept_again piece

theorem repairJson_of_legal (hLegal : Legal text) (hSpared : Spared text) : repairJson text = text := by
  rw [repairJson_eq]
  nth_rewrite 2 [← source_pieces false text]
  exact flatMap_congr fun piece hMem => Piece.repaired_of_legal (hLegal piece hMem) (hSpared piece hMem)

structure Repairs (serde : Serde Value Error) (text : Text) : Prop where
  idempotent : repairJson (repairJson text) = repairJson text
  valid : ∀ value, serde.fromStr text = .ok value → repairJson text = text
  outside : outsideOf (repairJson text) = outsideOf text
  spoiled : ∀ intended value, Legal intended → meaning intended = meaning text → serde.fromStr intended = .ok value →
    parseJsonWithRepair serde text = .ok value

theorem repair_twice (text : Text) : repairJson (repairJson text) =
    (pieces false text).flatMap fun piece => piece.again.flatMap Piece.repaired := by
  rw [repairJson_eq, pieces_repairJson, List.flatMap_assoc]

theorem spared_of_idempotent (hTwice : repairJson (repairJson text) = repairJson text) : Spared text := by
  by_contra hSpoiled
  simp only [Spared, not_forall] at hSpoiled
  obtain ⟨piece, hMem, hPiece⟩ := hSpoiled
  have hLonger := @length_flatMap_lt piece (pieces false text) Piece.repaired
    (fun piece => piece.again.flatMap Piece.repaired) (fun other _ => ?_) hMem
    (Piece.repaired_shorter hPiece)
  · rw [← repair_twice, hTwice, repairJson_eq] at hLonger
    exact Nat.lt_irrefl _ hLonger
  · rcases em other.Spared with hOther | hOther
    · rw [Piece.repaired_again hOther]
    · exact (Piece.repaired_shorter hOther).le

theorem parses_intended {intended : Text} {value : Value} (hSpared : Spared text) (hLegal : Legal intended)
    (hMeaning : meaning intended = meaning text) (hValue : serde.fromStr intended = .ok value) :
    parseJsonWithRepair serde text = .ok value := by
  have hRepaired := serde.same intended (repairJson text) value hLegal (legal_repairJson hSpared)
    (hMeaning.trans (meaning_repairJson hSpared).symm) hValue
  unfold parseJsonWithRepair
  cases hText : serde.fromStr text with
  | ok value' =>
    rw [repairJson_of_legal (serde.legal text value' hText) hSpared, hText] at hRepaired
    exact hRepaired
  | error error =>
    simp only
    split
    next hSame =>
      rw [hSame, hText] at hRepaired
      cases hRepaired
    next => exact hRepaired

theorem repair_json_iff (serde : Serde Value Error) (text : Text) : Repairs serde text ↔ Spared text := by
  constructor
  · exact fun hRepairs => spared_of_idempotent hRepairs.idempotent
  · intro hSpared
    have hLegal := legal_repairJson hSpared
    refine ⟨?_, fun value hValue => repairJson_of_legal (serde.legal text value hValue) hSpared,
      outsideOf_repairJson text, fun intended value => parses_intended hSpared⟩
    rw [repair_twice, repairJson_eq]
    exact flatMap_congr fun piece hMem => Piece.repaired_again (hSpared piece hMem)

theorem unicode_escape_gains_a_digit :
    repairJson "\"\\u0041\"".toList = "\"\\u00411\"".toList ∧
      repairJson (repairJson "\"\\u0041\"".toList) ≠ repairJson "\"\\u0041\"".toList := by
  decide +kernel

end PrimeAgent.JsonRepair
