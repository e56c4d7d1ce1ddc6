import Mathlib.Data.List.Basic

/-! # UTF-8

Strict and lossy reading of bytes as characters. The lossy reader puts one replacement character where
each maximal part of a broken character stands.
-/
namespace Utf8

def encode (text : List Char) : List UInt8 :=
  text.flatMap String.utf8EncodeChar

def decodeHead (bytes : List UInt8) : Option Char :=
  bytes.toByteArray.utf8DecodeChar? 0

def decodeWith : Nat → List UInt8 → Option (List Char)
  | _, [] => some []
  | 0, _ :: _ => none
  | fuel + 1, bytes => match decodeHead bytes with
    | some c => (decodeWith fuel (bytes.drop c.utf8Size)).map (c :: ·)
    | none => none

def decode (bytes : List UInt8) : Option (List Char) :=
  decodeWith bytes.length bytes

def isTail (b : UInt8) : Bool :=
  0x80 ≤ b && b ≤ 0xBF

def isSecond (first b : UInt8) : Bool :=
  if first = 0xE0 then 0xA0 ≤ b && b ≤ 0xBF
  else if first = 0xED then 0x80 ≤ b && b ≤ 0x9F
  else if first = 0xF0 then 0x90 ≤ b && b ≤ 0xBF
  else if first = 0xF4 then 0x80 ≤ b && b ≤ 0x8F
  else isTail b

def brokenLength : List UInt8 → Nat
  | first :: second :: rest =>
    if 0xE0 ≤ first ∧ first ≤ 0xF4 ∧ isSecond first second then
      match rest with
      | third :: _ => if 0xF0 ≤ first ∧ isTail third then 3 else 2
      | [] => 2
    else 1
  | _ => 1

def replacement : Char :=
  Char.ofNat 0xFFFD

def lossyWith : Nat → List UInt8 → List Char
  | _, [] => []
  | 0, _ :: _ => []
  | fuel + 1, bytes => match decodeHead bytes with
    | some c => c :: lossyWith fuel (bytes.drop c.utf8Size)
    | none => replacement :: lossyWith fuel (bytes.drop (brokenLength bytes))

def lossy (bytes : List UInt8) : List Char :=
  lossyWith bytes.length bytes

theorem encode_cons (c : Char) (text : List Char) : encode (c :: text) = String.utf8EncodeChar c ++ encode text := rfl

theorem encode_append (text text' : List Char) : encode (text ++ text') = encode text ++ encode text' :=
  List.flatMap_append

variable {bytes : List UInt8} {c : Char} {text : List Char} {b : UInt8}

theorem decodeHead_eq_some_iff :
    decodeHead bytes = some c ↔ ∃ rest, bytes = String.utf8EncodeChar c ++ rest := by
  constructor
  · intro h
    have hBytes := ByteArray.eq_of_utf8DecodeChar?_eq_some h
    have hList := congrArg (fun b : ByteArray => b.data.toList) hBytes
    exact ⟨_, by simpa using hList⟩
  · rintro ⟨rest, rfl⟩
    rw [decodeHead, List.toByteArray_append]
    exact ByteArray.utf8DecodeChar?_utf8EncodeChar_append

theorem decodeHead_append (c : Char) (rest : List UInt8) :
    decodeHead (String.utf8EncodeChar c ++ rest) = some c :=
  decodeHead_eq_some_iff.mpr ⟨rest, rfl⟩

theorem drop_encodeChar (c : Char) (rest : List UInt8) :
    (String.utf8EncodeChar c ++ rest).drop c.utf8Size = rest := by
  rw [← String.length_utf8EncodeChar, List.drop_left]

theorem decodeWith_encode (text : List Char) : ∀ fuel, text.length ≤ fuel → decodeWith fuel (encode text) = some text := by
  induction text with
  | nil => intro fuel _; cases fuel <;> rfl
  | cons c text ih =>
    intro fuel hFuel
    cases fuel with
    | zero => cases hFuel
    | succ fuel =>
      obtain ⟨b, bs, hBytes⟩ := List.exists_cons_of_ne_nil String.utf8EncodeChar_ne_nil
      have hHead := decodeHead_append c (encode text)
      have hDrop := drop_encodeChar c (encode text)
      rw [hBytes] at hHead hDrop
      rw [encode_cons, hBytes, List.cons_append, decodeWith, ← List.cons_append, hHead]
      simp only [hDrop, ih fuel (Nat.le_of_succ_le_succ hFuel), Option.map_some]
      exact fun h => by cases h

theorem length_le_encode (text : List Char) : text.length ≤ (encode text).length := by
  induction text with
  | nil => exact Nat.le_refl _
  | cons c text ih =>
    rw [encode_cons, List.length_append, String.length_utf8EncodeChar, List.length_cons]
    have := c.utf8Size_pos
    omega

theorem decode_encode (text : List Char) : decode (encode text) = some text :=
  decodeWith_encode text _ (length_le_encode text)

theorem eq_encode_of_decodeWith (fuel : Nat) : ∀ (bytes : List UInt8) (text : List Char),
    decodeWith fuel bytes = some text → bytes = encode text := by
  induction fuel with
  | zero =>
    intro bytes text h
    cases bytes with
    | nil => obtain rfl := Option.some.inj h; rfl
    | cons _ _ => cases h
  | succ fuel ih =>
    intro bytes text h
    cases bytes with
    | nil => obtain rfl := Option.some.inj h; rfl
    | cons b bs =>
      rw [decodeWith] at h
      · cases hHead : decodeHead (b :: bs) with
        | none => rw [hHead] at h; cases h
        | some c =>
          obtain ⟨rest, hRest⟩ := decodeHead_eq_some_iff.mp hHead
          rw [hHead, hRest] at h
          simp only [drop_encodeChar, Option.map_eq_some_iff] at h
          obtain ⟨text', hText, rfl⟩ := h
          rw [hRest, encode_cons, ← ih rest text' hText]
      · exact fun h => by cases h

theorem decode_eq_some_iff : decode bytes = some text ↔ bytes = encode text := by
  constructor
  · exact eq_encode_of_decodeWith _ bytes text
  · rintro rfl
    exact decode_encode text

theorem encode_injective {text text' : List Char} (h : encode text = encode text') : text = text' := by
  have hText := decode_encode text
  rw [h, decode_encode] at hText
  exact (Option.some.inj hText).symm

theorem lossyWith_encode (text : List Char) : ∀ fuel, text.length ≤ fuel → lossyWith fuel (encode text) = text := by
  induction text with
  | nil => intro fuel _; cases fuel <;> rfl
  | cons c text ih =>
    intro fuel hFuel
    cases fuel with
    | zero => cases hFuel
    | succ fuel =>
      obtain ⟨b, bs, hBytes⟩ := List.exists_cons_of_ne_nil String.utf8EncodeChar_ne_nil
      have hHead := decodeHead_append c (encode text)
      have hDrop := drop_encodeChar c (encode text)
      rw [hBytes] at hHead hDrop
      rw [encode_cons, hBytes, List.cons_append, lossyWith, ← List.cons_append, hHead]
      simp only [hDrop, ih fuel (Nat.le_of_succ_le_succ hFuel)]
      exact fun h => by cases h

theorem lossy_encode (text : List Char) : lossy (encode text) = text :=
  lossyWith_encode text _ (length_le_encode text)

theorem mem_encodeChar_ascii (hAscii : b.toNat < 128) :
    b ∈ String.utf8EncodeChar c ↔ c.toNat = b.toNat := by
  have hByte : ∀ n : Nat, b = UInt8.ofNat n ↔ b.toNat = n % 256 := by
    intro n
    rw [← UInt8.toNat_inj, UInt8.toNat_ofNat']
  have hChar : c.toNat < 0x110000 := by
    have := c.valid
    simp only [UInt32.isValidChar, Nat.isValidChar] at this
    have : c.toNat = c.val.toNat := rfl
    omega
  have hVal : c.val.toNat = c.toNat := rfl
  simp only [String.utf8EncodeChar, hVal]
  split
  · simp only [List.mem_singleton, hByte]
    omega
  · split
    · simp only [List.mem_cons, List.not_mem_nil, or_false, hByte]
      omega
    · split
      · simp only [List.mem_cons, List.not_mem_nil, or_false, hByte]
        omega
      · simp only [List.mem_cons, List.not_mem_nil, or_false, hByte]
        omega

theorem encodeChar_lt (hMem : b ∈ String.utf8EncodeChar c) : b.toNat < 0xF8 := by
  have hByte : ∀ n : Nat, b = UInt8.ofNat n ↔ b.toNat = n % 256 := by
    intro n
    rw [← UInt8.toNat_inj, UInt8.toNat_ofNat']
  have hVal : c.val.toNat = c.toNat := rfl
  simp only [String.utf8EncodeChar, hVal] at hMem
  split at hMem
  · simp only [List.mem_singleton, hByte] at hMem
    omega
  · split at hMem
    · simp only [List.mem_cons, List.not_mem_nil, or_false, hByte] at hMem
      omega
    · split at hMem
      · simp only [List.mem_cons, List.not_mem_nil, or_false, hByte] at hMem
        omega
      · simp only [List.mem_cons, List.not_mem_nil, or_false, hByte] at hMem
        omega

theorem decode_eq_none (hMem : b ∈ bytes) (hHigh : 0xF8 ≤ b.toNat) :
    decode bytes = none := by
  cases hDecode : decode bytes with
  | none => rfl
  | some text =>
    rw [decode_eq_some_iff.mp hDecode, encode, List.mem_flatMap] at hMem
    obtain ⟨c, -, hByte⟩ := hMem
    exact absurd (encodeChar_lt hByte) (Nat.not_lt.mpr hHigh)

theorem encodeChar_ascii (hAscii : c.toNat < 128) : String.utf8EncodeChar c = [UInt8.ofNat c.toNat] := by
  have hVal : c.val.toNat = c.toNat := rfl
  simp only [String.utf8EncodeChar, hVal]
  rw [if_pos (by omega)]

theorem mem_encode_ascii (hAscii : b.toNat < 128) :
    b ∈ encode text ↔ ∃ c ∈ text, c.toNat = b.toNat := by
  simp only [encode, List.mem_flatMap, mem_encodeChar_ascii hAscii]

theorem mem_lossyWith_ascii (hAscii : c.toNat < 128) (fuel : Nat) : ∀ bytes : List UInt8,
    c ∈ lossyWith fuel bytes → UInt8.ofNat c.toNat ∈ bytes := by
  induction fuel with
  | zero => intro bytes h; cases bytes <;> cases h
  | succ fuel ih =>
    intro bytes h
    cases bytes with
    | nil => cases h
    | cons b bs =>
      rw [lossyWith] at h
      · cases hHead : decodeHead (b :: bs) with
        | none =>
          rw [hHead] at h
          rcases List.mem_cons.mp h with rfl | h
          · exact absurd hAscii (by decide)
          · exact List.mem_of_mem_drop (ih _ h)
        | some d =>
          rw [hHead] at h
          rcases List.mem_cons.mp h with rfl | h
          · obtain ⟨rest, hRest⟩ := decodeHead_eq_some_iff.mp hHead
            rw [hRest, encodeChar_ascii hAscii]
            exact List.mem_cons_self
          · exact List.mem_of_mem_drop (ih _ h)
      · exact fun h => by cases h

theorem mem_lossy_ascii (hAscii : c.toNat < 128) (h : c ∈ lossy bytes) :
    UInt8.ofNat c.toNat ∈ bytes :=
  mem_lossyWith_ascii hAscii _ bytes h

end Utf8

/-! ## The forms of a character in UTF-8

A character is one byte, or a first byte with the second and further bytes that can follow it. The lossy reader is
unfolded by its head.
-/
namespace Utf8

variable {a b d e : UInt8} {rest : List UInt8}

def Opens (a b : UInt8) : Prop :=
  isTail b = true ∧ (0xC2 ≤ a.toNat ∧ a.toNat ≤ 0xF4) ∧ (a.toNat = 0xE0 → 0xA0 ≤ b.toNat) ∧
    (a.toNat = 0xED → b.toNat < 0xA0) ∧ (a.toNat = 0xF0 → 0x90 ≤ b.toNat) ∧ (a.toNat = 0xF4 → b.toNat < 0x90)

instance (a b : UInt8) : Decidable (Opens a b) :=
  inferInstanceAs (Decidable (_ ∧ _))

inductive Form : List UInt8 → Prop where
  | one {a : UInt8} (hFirst : a.toNat < 0x80) : Form [a]
  | two {a b : UInt8} (hFirst : a.toNat < 0xE0) (hOpens : Opens a b) : Form [a, b]
  | three {a b d : UInt8} (hFirst : 0xE0 ≤ a.toNat ∧ a.toNat < 0xF0) (hOpens : Opens a b) (hThird : isTail d = true) :
      Form [a, b, d]
  | four {a b d e : UInt8} (hFirst : 0xF0 ≤ a.toNat) (hOpens : Opens a b) (hThird : isTail d = true)
      (hFourth : isTail e = true) : Form [a, b, d, e]

theorem isTail_iff : isTail b = true ↔ 0x80 ≤ b.toNat ∧ b.toNat < 0xC0 := by
  rw [isTail, Bool.and_eq_true, decide_eq_true_eq, decide_eq_true_eq, UInt8.le_iff_toNat_le, UInt8.le_iff_toNat_le]
  change 0x80 ≤ b.toNat ∧ b.toNat ≤ 0xBF ↔ _
  omega

theorem opens_iff : Opens a b ↔ (0x80 ≤ b.toNat ∧ b.toNat < 0xC0) ∧ (0xC2 ≤ a.toNat ∧ a.toNat ≤ 0xF4) ∧
    (a.toNat = 0xE0 → 0xA0 ≤ b.toNat) ∧ (a.toNat = 0xED → b.toNat < 0xA0) ∧ (a.toNat = 0xF0 → 0x90 ≤ b.toNat) ∧
    (a.toNat = 0xF4 → b.toNat < 0x90) := by
  rw [Opens, isTail_iff]

theorem isSecond_iff (hFirst : 0xE0 ≤ a.toNat ∧ a.toNat ≤ 0xF4) : isSecond a b = true ↔ Opens a b := by
  have hIs {n : UInt8} : a = n ↔ a.toNat = n.toNat := UInt8.toNat_inj.symm
  have hRange {low high : UInt8} : (decide (low ≤ b) && decide (b ≤ high)) = true ↔
      low.toNat ≤ b.toNat ∧ b.toNat ≤ high.toNat := by
    rw [Bool.and_eq_true, decide_eq_true_eq, decide_eq_true_eq, UInt8.le_iff_toNat_le, UInt8.le_iff_toNat_le]
  rw [opens_iff, isSecond]
  split
  · rename_i hE0
    have hEq : a.toNat = 0xE0 := hIs.mp hE0
    refine hRange.trans ?_
    change 0xA0 ≤ b.toNat ∧ b.toNat ≤ 0xBF ↔ _
    omega
  rename_i hE0
  have hNotE0 : a.toNat ≠ 0xE0 := hIs.not.mp hE0
  split
  · rename_i hED
    have hEq : a.toNat = 0xED := hIs.mp hED
    refine hRange.trans ?_
    change 0x80 ≤ b.toNat ∧ b.toNat ≤ 0x9F ↔ _
    omega
  rename_i hED
  have hNotED : a.toNat ≠ 0xED := hIs.not.mp hED
  split
  · rename_i hF0
    have hEq : a.toNat = 0xF0 := hIs.mp hF0
    refine hRange.trans ?_
    change 0x90 ≤ b.toNat ∧ b.toNat ≤ 0xBF ↔ _
    omega
  rename_i hF0
  have hNotF0 : a.toNat ≠ 0xF0 := hIs.not.mp hF0
  split
  · rename_i hF4
    have hEq : a.toNat = 0xF4 := hIs.mp hF4
    refine hRange.trans ?_
    change 0x80 ≤ b.toNat ∧ b.toNat ≤ 0x8F ↔ _
    omega
  · rename_i hF4
    have hNotF4 : a.toNat ≠ 0xF4 := hIs.not.mp hF4
    rw [isTail_iff]
    omega

theorem form_encodeChar (c : Char) : Form (String.utf8EncodeChar c) := by
  have hVal : c.val.toNat = c.toNat := rfl
  have hChar := c.valid
  simp only [UInt32.isValidChar, Nat.isValidChar, hVal] at hChar
  have hByte (n : Nat) : (UInt8.ofNat n).toNat = n % 256 := UInt8.toNat_ofNat'
  simp only [String.utf8EncodeChar, hVal]
  split
  · exact .one (by rw [hByte]; omega)
  · split
    · exact .two (by rw [hByte]; omega) (by rw [opens_iff, hByte, hByte]; omega)
    · split
      · refine .three ?_ ?_ ?_
        · rw [hByte]
          omega
        · rw [opens_iff, hByte, hByte]
          omega
        · rw [isTail_iff, hByte]
          omega
      · refine .four ?_ ?_ ?_ ?_
        · rw [hByte]
          omega
        · rw [opens_iff, hByte, hByte]
          omega
        · rw [isTail_iff, hByte]
          omega
        · rw [isTail_iff, hByte]
          omega

theorem exists_encodeChar {bytes : List UInt8} (hForm : Form bytes) : ∃ c : Char, String.utf8EncodeChar c = bytes := by
  have hByte {n : Nat} {b : UInt8} (hEq : n = b.toNat) : UInt8.ofNat n = b := by
    rw [hEq, UInt8.ofNat_toNat]
  have hChar {n : Nat} (hValid : n.isValidChar) : (Char.ofNat n).val.toNat = n := by
    rw [Char.ofNat, dif_pos hValid]
    rfl
  cases hForm with
  | @one a hFirst =>
    refine ⟨Char.ofNat a.toNat, ?_⟩
    have hVal := @hChar a.toNat (Or.inl (by omega))
    simp only [String.utf8EncodeChar, hVal]
    rw [if_pos (by omega), hByte rfl]
  | @two a b hFirst hOpens =>
    rw [opens_iff] at hOpens
    refine ⟨Char.ofNat (a.toNat % 32 * 64 + b.toNat % 64), ?_⟩
    have hVal := @hChar (a.toNat % 32 * 64 + b.toNat % 64) (Or.inl (by omega))
    simp only [String.utf8EncodeChar, hVal]
    rw [if_neg (by omega), if_pos (by omega), @hByte _ a (by omega), @hByte _ b (by omega)]
  | @three a b d hFirst hOpens hThird =>
    rw [opens_iff] at hOpens
    rw [isTail_iff] at hThird
    refine ⟨Char.ofNat (a.toNat % 16 * 4096 + b.toNat % 64 * 64 + d.toNat % 64), ?_⟩
    have hVal := @hChar (a.toNat % 16 * 4096 + b.toNat % 64 * 64 + d.toNat % 64)
      (show _ < _ ∨ _ < _ ∧ _ < _ by omega)
    simp only [String.utf8EncodeChar, hVal]
    rw [if_neg (by omega), if_neg (by omega), if_pos (by omega), @hByte _ a (by omega), @hByte _ b (by omega),
      @hByte _ d (by omega)]
  | @four a b d e hFirst hOpens hThird hFourth =>
    rw [opens_iff] at hOpens
    rw [isTail_iff] at hThird hFourth
    refine ⟨Char.ofNat (a.toNat % 8 * 262144 + b.toNat % 64 * 4096 + d.toNat % 64 * 64 + e.toNat % 64), ?_⟩
    have hVal := @hChar (a.toNat % 8 * 262144 + b.toNat % 64 * 4096 + d.toNat % 64 * 64 + e.toNat % 64)
      (show _ < _ ∨ _ < _ ∧ _ < _ by omega)
    simp only [String.utf8EncodeChar, hVal]
    rw [if_neg (by omega), if_neg (by omega), if_neg (by omega), @hByte _ a (by omega), @hByte _ b (by omega),
      @hByte _ d (by omega), @hByte _ e (by omega)]

theorem brokenLength_pos (bytes : List UInt8) : 0 < brokenLength bytes := by
  unfold brokenLength
  split
  · split
    · split
      · split <;> decide
      · decide
    · decide
  · decide

theorem lossyWith_enough : ∀ {n m : Nat} {bytes : List UInt8}, bytes.length ≤ n → bytes.length ≤ m →
    lossyWith n bytes = lossyWith m bytes := by
  intro n
  induction n with
  | zero =>
    intro m bytes hLength _
    obtain rfl := List.length_eq_zero_iff.mp (Nat.le_zero.mp hLength)
    cases m <;> rfl
  | succ n ih =>
    intro m bytes hLength hEnough
    cases bytes with
    | nil => cases m <;> rfl
    | cons first rest =>
      cases m with
      | zero => cases hEnough
      | succ m =>
        have hDrop {k : Nat} (hPos : 0 < k) : lossyWith n ((first :: rest).drop k) = lossyWith m ((first :: rest).drop k) := by
          have hShort : ((first :: rest).drop k).length ≤ rest.length := by
            rw [List.length_drop, List.length_cons]
            omega
          exact ih (Nat.le_trans hShort (Nat.le_of_succ_le_succ hLength))
            (Nat.le_trans hShort (Nat.le_of_succ_le_succ hEnough))
        simp only [lossyWith]
        split
        · rename_i c _
          rw [hDrop c.utf8Size_pos]
        · rw [hDrop (brokenLength_pos _)]

theorem lossy_cons (first : UInt8) (rest : List UInt8) : lossy (first :: rest) =
    match decodeHead (first :: rest) with
    | some c => c :: lossy ((first :: rest).drop c.utf8Size)
    | none => replacement :: lossy ((first :: rest).drop (brokenLength (first :: rest))) := by
  have hEnough {k : Nat} (hPos : 0 < k) : lossyWith rest.length ((first :: rest).drop k) = lossy ((first :: rest).drop k) := by
    refine lossyWith_enough ?_ (Nat.le_refl _)
    rw [List.length_drop, List.length_cons]
    omega
  rw [lossy, List.length_cons, lossyWith]
  · cases decodeHead (first :: rest) with
    | some c => exact congrArg (c :: ·) (hEnough c.utf8Size_pos)
    | none => exact congrArg (replacement :: ·) (hEnough (brokenLength_pos _))
  · exact fun hNil => nomatch hNil

theorem lossy_form {form : List UInt8} (hForm : Form form) (rest : List UInt8) :
    ∃ c : Char, decode form = some [c] ∧ lossy (form ++ rest) = c :: lossy rest := by
  obtain ⟨c, rfl⟩ := exists_encodeChar hForm
  refine ⟨c, decode_eq_some_iff.mpr (List.append_nil _).symm, ?_⟩
  obtain ⟨first, bytes, hBytes⟩ := List.exists_cons_of_ne_nil String.utf8EncodeChar_ne_nil
  have hHead := decodeHead_append c rest
  have hDrop := drop_encodeChar c rest
  rw [hBytes, List.cons_append] at hHead hDrop ⊢
  rw [lossy_cons, hHead]
  dsimp only
  rw [hDrop]

theorem lossy_broken {first : UInt8} {rest : List UInt8} (hBroken : ∀ form more, Form form → first :: rest ≠ form ++ more) :
    lossy (first :: rest) = replacement :: lossy ((first :: rest).drop (brokenLength (first :: rest))) := by
  rw [lossy_cons]
  cases hHead : decodeHead (first :: rest) with
  | none => rfl
  | some c =>
    obtain ⟨more, hMore⟩ := decodeHead_eq_some_iff.mp hHead
    exact absurd hMore (hBroken _ more (form_encodeChar c))

theorem length_le_encode_lossy (bytes : List UInt8) : bytes.length ≤ (encode (lossy bytes)).length := by
  induction hLength : bytes.length using Nat.strongRecOn generalizing bytes with
  | ind n ih =>
    subst hLength
    cases bytes with
    | nil => exact Nat.zero_le _
    | cons first rest =>
      rw [lossy_cons]
      cases hHead : decodeHead (first :: rest) with
      | some c =>
        obtain ⟨more, hMore⟩ := decodeHead_eq_some_iff.mp hHead
        have hPos := c.utf8Size_pos
        rw [← String.length_utf8EncodeChar] at hPos
        simp only [hMore, drop_encodeChar, encode_cons, List.length_append] at ih ⊢
        have hMoreLength := ih more.length (by omega) more rfl
        omega
      | none =>
        have hPos := brokenLength_pos (first :: rest)
        have hThree : brokenLength (first :: rest) ≤ 3 := by
          unfold brokenLength
          repeat' split
          all_goals decide
        have hDrop := ih _ (by simp only [List.length_drop, List.length_cons]; omega)
          ((first :: rest).drop (brokenLength (first :: rest))) rfl
        have hReplacement : (String.utf8EncodeChar replacement).length = 3 := by decide
        simp only [encode_cons, List.length_append, List.length_drop, List.length_cons] at hDrop ⊢
        omega

variable {pieces : List (List UInt8)} {text : List Char}

theorem pieces_grow : pieces.flatten.length ≤ (pieces.flatMap fun piece => encode (lossy piece)).length ∧
    ((pieces.flatMap fun piece => encode (lossy piece)) = pieces.flatten → ∀ piece ∈ pieces, encode (lossy piece) = piece) := by
  induction pieces with
  | nil => exact ⟨Nat.le_refl _, fun _ piece hMem => absurd hMem List.not_mem_nil⟩
  | cons piece pieces ih =>
    have hPiece := length_le_encode_lossy piece
    rw [List.flatMap_cons, List.flatten_cons, List.length_append, List.length_append, List.forall_mem_cons]
    refine ⟨Nat.add_le_add hPiece ih.1, fun hSame => ?_⟩
    have hLength := congrArg List.length hSame
    simp only [List.length_append] at hLength
    -- no piece becomes shorter, so each keeps its length
    obtain ⟨hFirst, hRest⟩ := List.append_inj hSame (by omega)
    exact ⟨hFirst, ih.2 hRest⟩

theorem lossy_pieces_iff (hText : pieces.flatten = encode text) :
    pieces.flatMap lossy = text ↔ ∀ piece ∈ pieces, ∃ part, piece = encode part := by
  have hEncode : encode (pieces.flatMap lossy) = pieces.flatMap fun piece => encode (lossy piece) :=
    List.flatMap_assoc
  constructor
  · rintro rfl piece hMem
    exact ⟨_, (pieces_grow.2 (hEncode.symm.trans hText.symm) piece hMem).symm⟩
  · intro hWhole
    refine encode_injective ?_
    rw [hEncode, ← hText, List.flatten_eq_flatMap]
    refine List.flatMap_congr fun piece hMem => ?_
    obtain ⟨part, rfl⟩ := hWhole piece hMem
    rw [lossy_encode]
    rfl

end Utf8
