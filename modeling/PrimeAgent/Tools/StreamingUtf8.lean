import PrimeAgent.Session.Timestamp

/-! # Decoding output as it arrives

Bytes that do not yet make up a character wait for the next chunk. However the bytes are cut, the text is the same. It is
the lossy reading where no first byte is followed by a further byte that cannot be its second.
-/
namespace PrimeAgent.Tools

inductive Decoded where
  | char (len : Nat)
  | invalid (len : Nat)
  | incomplete
deriving DecidableEq

/-- The bytes from the second on: `invalid` at the first that is no further byte. -/
def checkTails (i : Nat) : Bytes → Option Decoded
  | [] => none
  | b :: rest => if b &&& 0xC0 ≠ 0x80 then some (.invalid i) else checkTails (i + 1) rest

def codePoint (first : Nat) (tails : Bytes) : Nat :=
  tails.foldl (fun cp b => (cp <<< 6) ||| (b &&& 0x3F).toNat) first

def announced (b0 : UInt8) : Option (Nat × Nat × Nat) :=
  if b0 &&& 0xE0 = 0xC0 then some (2, 0x80, (b0 &&& 0x1F).toNat)
  else if b0 &&& 0xF0 = 0xE0 then some (3, 0x800, (b0 &&& 0x0F).toNat)
  else if b0 &&& 0xF8 = 0xF0 then some (4, 0x10000, (b0 &&& 0x07).toNat)
  else none

def decodeUtf8Char : Bytes → Decoded
  | [] => .incomplete
  | b0 :: rest =>
    if b0 < 0x80 then .char 1
    else match announced b0 with
      | none => .invalid 1
      | some (len, min, first) =>
        let tails := rest.take (len - 1)
        match checkTails 1 tails with
        | some invalid => invalid
        | none =>
          if tails.length < len - 1 then .incomplete
          else
            let cp := codePoint first tails
            if cp < min ∨ 0xD800 ≤ cp ∧ cp ≤ 0xDFFF ∨ 0x10FFFF < cp then .invalid len
            else .char len

/-- `from_utf8(..).unwrap_or("\u{FFFD}")`. -/
def fromUtf8 (bytes : Bytes) : Text :=
  (Utf8.decode bytes).getD [Utf8.replacement]

def drain : Nat → Bytes → Text × Bytes
  | 0, buf => ([], buf)
  | _ + 1, [] => ([], [])
  | n + 1, b :: rest => match decodeUtf8Char (b :: rest) with
    | .char len =>
      let (text, waiting) := drain n ((b :: rest).drop len)
      (fromUtf8 ((b :: rest).take len) ++ text, waiting)
    | .invalid len =>
      let (text, waiting) := drain n ((b :: rest).drop len)
      (Utf8.replacement :: text, waiting)
    | .incomplete => ([], b :: rest)

structure StreamingUtf8 where
  buffer : Bytes
deriving DecidableEq

namespace StreamingUtf8

def empty : StreamingUtf8 :=
  ⟨[]⟩

def decodeChunk (decoder : StreamingUtf8) (data : Bytes) : Text × StreamingUtf8 :=
  let buf := decoder.buffer ++ data
  let (text, waiting) := drain buf.length buf
  (text, ⟨waiting⟩)

def flush (decoder : StreamingUtf8) : Text :=
  let (text, waiting) := drain decoder.buffer.length decoder.buffer
  if waiting.isEmpty then text else text ++ [Utf8.replacement]

def decodeChunks (decoder : StreamingUtf8) : List Bytes → Text
  | [] => decoder.flush
  | chunk :: chunks =>
    let (text, decoder) := decoder.decodeChunk chunk
    text ++ decoder.decodeChunks chunks

end StreamingUtf8

section Shapes

def wants (a : UInt8) : Nat :=
  if a.toNat < 0xE0 then 1 else if a.toNat < 0xF0 then 2 else 3

def IsLead (a : UInt8) : Prop :=
  0xC0 ≤ a.toNat ∧ a.toNat < 0xF8

instance (a : UInt8) : Decidable (IsLead a) :=
  inferInstanceAs (Decidable (_ ∧ _))

def Tails (bytes : Bytes) : Prop :=
  ∀ b ∈ bytes, Utf8.isTail b = true

inductive Reads : Bytes → Decoded → Prop where
  | ascii {a : UInt8} {rest : Bytes} (hAscii : a.toNat < 0x80) : Reads (a :: rest) (.char 1)
  | stray {a : UInt8} {rest : Bytes} (hHigh : 0x80 ≤ a.toNat) (hStray : ¬ IsLead a) : Reads (a :: rest) (.invalid 1)
  | short {a : UInt8} {tails : Bytes} (hLead : IsLead a) (hTails : Tails tails) (hShort : tails.length < wants a) :
      Reads (a :: tails) .incomplete
  | broken {a b : UInt8} {tails rest : Bytes} (hLead : IsLead a) (hTails : Tails tails) (hShort : tails.length < wants a)
      (hOther : Utf8.isTail b = false) : Reads (a :: (tails ++ b :: rest)) (.invalid (tails.length + 1))
  | whole {a b : UInt8} {tails rest : Bytes} (hLead : IsLead a) (hTails : Tails (b :: tails))
      (hWhole : (b :: tails).length = wants a) :
      Reads (a :: (b :: tails ++ rest))
        (if Utf8.Opens a b then .char ((b :: tails).length + 1) else .invalid ((b :: tails).length + 1))

variable {a b d e : UInt8} {tails rest more : Bytes}

theorem isTail_mask : b &&& 0xC0 ≠ 0x80 ↔ Utf8.isTail b = false := by
  have hAll : ∀ n < 256, UInt8.ofNat n &&& 0xC0 ≠ 0x80 ↔ Utf8.isTail (UInt8.ofNat n) = false := by
    decide +kernel
  have hByte := hAll b.toNat b.toNat_lt
  rwa [UInt8.ofNat_toNat] at hByte

theorem announced_eq (a : UInt8) : announced a =
    if a.toNat < 0xC0 then none
    else if a.toNat < 0xE0 then some (2, 0x80, a.toNat % 32)
    else if a.toNat < 0xF0 then some (3, 0x800, a.toNat % 16)
    else if a.toNat < 0xF8 then some (4, 0x10000, a.toNat % 8)
    else none := by
  have hAll : ∀ n < 256, announced (UInt8.ofNat n) =
      if n < 0xC0 then none
      else if n < 0xE0 then some (2, 0x80, n % 32)
      else if n < 0xF0 then some (3, 0x800, n % 16)
      else if n < 0xF8 then some (4, 0x10000, n % 8)
      else none := by
    decide +kernel
  have hByte := hAll a.toNat a.toNat_lt
  rwa [UInt8.ofNat_toNat] at hByte

theorem tails_cons : Tails (b :: tails) ↔ Utf8.isTail b = true ∧ Tails tails :=
  List.forall_mem_cons

theorem checkTails_tails (hTails : Tails tails) : ∀ i more, checkTails i (tails ++ more) = checkTails (i + tails.length) more := by
  induction tails with
  | nil => exact fun _ _ => rfl
  | cons b tails ih =>
    intro i more
    obtain ⟨hTail, hTails⟩ := tails_cons.mp hTails
    have hMask : ¬ (b &&& 0xC0 ≠ 0x80) := fun h => by
      rw [isTail_mask, hTail] at h
      cases h
    rw [List.cons_append, checkTails, if_neg hMask, ih hTails, List.length_cons, Nat.add_assoc, Nat.add_comm 1]

theorem codePoint_cons (first : Nat) (b : UInt8) (tails : Bytes) :
    codePoint first (b :: tails) = codePoint (first * 64 + b.toNat % 64) tails := by
  have hBits : (b &&& 0x3F).toNat = b.toNat % 64 := by
    rw [UInt8.toNat_and]
    exact Nat.and_two_pow_sub_one_eq_mod _ 6
  rw [codePoint, List.foldl_cons, hBits, ← Nat.shiftLeft_add_eq_or_of_lt (show b.toNat % 64 < 2 ^ 6 by omega),
    Nat.shiftLeft_eq]
  rfl

theorem announced_lead (hLead : IsLead a) : ∃ min first, announced a = some (wants a + 1, min, first) ∧
    ∀ b tails, Tails (b :: tails) → (b :: tails).length = wants a →
      ((codePoint first (b :: tails) < min ∨ 0xD800 ≤ codePoint first (b :: tails) ∧ codePoint first (b :: tails) ≤ 0xDFFF
        ∨ 0x10FFFF < codePoint first (b :: tails)) ↔ ¬ Utf8.Opens a b) := by
  unfold IsLead at hLead
  rw [announced_eq, wants, if_neg (by omega)]
  by_cases hTwo : a.toNat < 0xE0
  · rw [if_pos hTwo, if_pos hTwo]
    refine ⟨_, _, rfl, fun b tails hTails hLength => ?_⟩
    obtain rfl := List.length_eq_zero_iff.mp (Nat.succ.inj hLength)
    have hTail := Utf8.isTail_iff.mp (tails_cons.mp hTails).1
    rw [codePoint_cons, Utf8.opens_iff]
    change (_ < _ ∨ _) ↔ _
    simp only [codePoint, List.foldl_nil]
    omega
  rw [if_neg hTwo, if_neg hTwo]
  by_cases hThree : a.toNat < 0xF0
  · rw [if_pos hThree, if_pos hThree]
    refine ⟨_, _, rfl, fun b tails hTails hLength => ?_⟩
    obtain ⟨d, rfl⟩ := List.length_eq_one_iff.mp (Nat.succ.inj hLength)
    have hTail := Utf8.isTail_iff.mp (tails_cons.mp hTails).1
    have hTail' := Utf8.isTail_iff.mp (tails_cons.mp (tails_cons.mp hTails).2).1
    rw [codePoint_cons, codePoint_cons, Utf8.opens_iff]
    simp only [codePoint, List.foldl_nil]
    omega
  · rw [if_neg hThree, if_neg hThree, if_pos hLead.2]
    refine ⟨_, _, rfl, fun b tails hTails hLength => ?_⟩
    obtain ⟨d, e, rfl⟩ := List.length_eq_two.mp (Nat.succ.inj hLength)
    have hTail := Utf8.isTail_iff.mp (tails_cons.mp hTails).1
    have hTail' := Utf8.isTail_iff.mp (tails_cons.mp (tails_cons.mp hTails).2).1
    have hTail'' := Utf8.isTail_iff.mp (tails_cons.mp (tails_cons.mp (tails_cons.mp hTails).2).2).1
    rw [codePoint_cons, codePoint_cons, codePoint_cons, Utf8.opens_iff]
    simp only [codePoint, List.foldl_nil]
    omega

theorem not_ascii (hHigh : 0x80 ≤ a.toNat) : ¬ a < 0x80 :=
  fun hLow => Nat.not_lt.mpr hHigh (UInt8.lt_iff_toNat_lt.mp hLow)

theorem decodeUtf8Char_lead (hLead : IsLead a) : ∃ min first, announced a = some (wants a + 1, min, first) ∧
    ∀ rest, decodeUtf8Char (a :: rest) = match checkTails 1 (rest.take (wants a)) with
      | some invalid => invalid
      | none =>
        if (rest.take (wants a)).length < wants a then .incomplete
        else if codePoint first (rest.take (wants a)) < min ∨ 0xD800 ≤ codePoint first (rest.take (wants a)) ∧
          codePoint first (rest.take (wants a)) ≤ 0xDFFF ∨ 0x10FFFF < codePoint first (rest.take (wants a)) then
            .invalid (wants a + 1)
        else .char (wants a + 1) := by
  obtain ⟨min, first, hAnnounced, -⟩ := announced_lead hLead
  refine ⟨min, first, hAnnounced, fun rest => ?_⟩
  rw [decodeUtf8Char, if_neg (not_ascii (Nat.le_trans (by decide) hLead.1)), hAnnounced]
  rfl

theorem decodeUtf8Char_reads {bytes : Bytes} {decoded : Decoded} (hReads : Reads bytes decoded) :
    decodeUtf8Char bytes = decoded := by
  cases hReads with
  | ascii hAscii =>
    rw [decodeUtf8Char, if_pos (UInt8.lt_iff_toNat_lt.mpr hAscii)]
  | @stray a rest hHigh hStray =>
    have hNone : announced a = none := by
      unfold IsLead at hStray
      rw [announced_eq]
      split
      · rfl
      · rw [if_neg (by omega), if_neg (by omega), if_neg (by omega)]
    rw [decodeUtf8Char, if_neg (not_ascii hHigh), hNone]
  | @short a tails hLead hTails hShort =>
    obtain ⟨min, first, -, hDecode⟩ := decodeUtf8Char_lead hLead
    have hCheck := checkTails_tails hTails 1 []
    rw [List.append_nil] at hCheck
    rw [hDecode, List.take_of_length_le (Nat.le_of_lt hShort), hCheck]
    exact if_pos hShort
  | @broken a b tails rest hLead hTails hShort hOther =>
    obtain ⟨min, first, -, hDecode⟩ := decodeUtf8Char_lead hLead
    obtain ⟨k, hk⟩ := Nat.exists_eq_add_of_lt hShort
    have hTake : (tails ++ b :: rest).take (wants a) = tails ++ b :: rest.take k := by
      rw [List.take_append, List.take_of_length_le (Nat.le_of_lt hShort),
        show wants a - tails.length = k + 1 by omega, List.take_succ_cons]
    rw [hDecode, hTake, checkTails_tails hTails, checkTails, if_pos (isTail_mask.mpr hOther), Nat.add_comm]
  | @whole a b tails rest hLead hTails hWhole =>
    obtain ⟨min, first, hAnnounced, hDecode⟩ := decodeUtf8Char_lead hLead
    obtain ⟨min', first', hAnnounced', hPoint⟩ := announced_lead hLead
    rw [hAnnounced] at hAnnounced'
    cases hAnnounced'
    have hTake : (b :: tails ++ rest).take (wants a) = b :: tails := by
      rw [← hWhole, List.take_left]
    have hCheck := checkTails_tails hTails 1 []
    rw [List.append_nil] at hCheck
    rw [hDecode, hTake, hCheck]
    dsimp only [checkTails]
    rw [if_neg (by omega), hWhole]
    by_cases hOpens : Utf8.Opens a b
    · rw [if_pos hOpens, if_neg fun h => (hPoint b tails hTails hWhole).mp h hOpens]
    · rw [if_neg hOpens, if_pos ((hPoint b tails hTails hWhole).mpr hOpens)]

theorem exists_reads (a : UInt8) (rest : Bytes) : ∃ decoded, Reads (a :: rest) decoded := by
  by_cases hAscii : a.toNat < 0x80
  · exact ⟨_, .ascii hAscii⟩
  by_cases hLead : IsLead a
  · have hWants : 0 < wants a := by
      unfold wants
      split
      · decide
      · split <;> decide
    -- the further bytes, up to the announced number
    have hSplit : ∀ (n : Nat) (bytes : Bytes), (∃ tails more, bytes = tails ++ more ∧ Tails tails ∧ tails.length = n) ∨
        (Tails bytes ∧ bytes.length < n) ∨
        (∃ tails b more, bytes = tails ++ b :: more ∧ Tails tails ∧ tails.length < n ∧ Utf8.isTail b = false) := by
      intro n
      induction n with
      | zero => exact fun bytes => Or.inl ⟨[], bytes, rfl, nofun, rfl⟩
      | succ n ih =>
        intro bytes
        cases bytes with
        | nil => exact Or.inr (Or.inl ⟨nofun, Nat.succ_pos n⟩)
        | cons b bytes =>
          cases hTail : Utf8.isTail b with
          | false => exact Or.inr (Or.inr ⟨[], b, bytes, rfl, nofun, Nat.succ_pos n, hTail⟩)
          | true =>
            obtain ⟨tails, more, rfl, hTails, rfl⟩ | ⟨hTails, hShort⟩ | ⟨tails, c, more, rfl, hTails, hShort, hOther⟩ :=
              ih bytes
            · exact Or.inl ⟨b :: tails, more, rfl, tails_cons.mpr ⟨hTail, hTails⟩, rfl⟩
            · exact Or.inr (Or.inl ⟨tails_cons.mpr ⟨hTail, hTails⟩, Nat.succ_lt_succ hShort⟩)
            · exact Or.inr (Or.inr ⟨b :: tails, c, more, rfl, tails_cons.mpr ⟨hTail, hTails⟩, Nat.succ_lt_succ hShort,
                hOther⟩)
    obtain ⟨tails, more, rfl, hTails, hWhole⟩ | ⟨hTails, hShort⟩ | ⟨tails, c, more, rfl, hTails, hShort, hOther⟩ :=
      hSplit (wants a) rest
    · cases tails with
      | nil => exact absurd hWhole (Nat.ne_of_lt hWants)
      | cons b tails => exact ⟨_, .whole hLead hTails hWhole⟩
    · exact ⟨_, .short hLead hTails hShort⟩
    · exact ⟨_, .broken hLead hTails hShort hOther⟩
  · exact ⟨_, .stray (Nat.le_of_not_lt hAscii) hLead⟩

end Shapes

section Chunks

variable {buf more : Bytes}

def Decoded.length? : Decoded → Option Nat
  | .char len | .invalid len => some len
  | .incomplete => none

theorem Reads.append {decoded : Decoded} (hReads : Reads buf decoded) {len : Nat} (hLength : decoded.length? = some len)
    (more : Bytes) : Reads (buf ++ more) decoded ∧ 0 < len ∧ len ≤ buf.length := by
  cases hReads with
  | ascii hAscii =>
    cases hLength
    exact ⟨.ascii hAscii, Nat.one_pos, Nat.succ_le_succ (Nat.zero_le _)⟩
  | stray hHigh hStray =>
    cases hLength
    exact ⟨.stray hHigh hStray, Nat.one_pos, Nat.succ_le_succ (Nat.zero_le _)⟩
  | short => cases hLength
  | @broken a b tails rest hLead hTails hShort hOther =>
    cases hLength
    rw [List.cons_append, List.append_assoc, List.cons_append]
    refine ⟨.broken hLead hTails hShort hOther, Nat.succ_pos _, ?_⟩
    rw [List.length_cons, List.length_append]
    omega
  | @whole a b tails rest hLead hTails hWhole =>
    have hIs : len = (b :: tails).length + 1 := by
      split at hLength <;> exact (Option.some.inj hLength).symm
    rw [List.cons_append, List.append_assoc, hIs]
    refine ⟨.whole hLead hTails hWhole, Nat.succ_pos _, ?_⟩
    simp only [List.length_cons, List.length_append]
    omega

theorem drain_cons (n : Nat) (b : UInt8) (rest : Bytes) : drain (n + 1) (b :: rest) =
    match decodeUtf8Char (b :: rest) with
    | .char len => (fromUtf8 ((b :: rest).take len) ++ (drain n ((b :: rest).drop len)).1, (drain n ((b :: rest).drop len)).2)
    | .invalid len => (Utf8.replacement :: (drain n ((b :: rest).drop len)).1, (drain n ((b :: rest).drop len)).2)
    | .incomplete => ([], b :: rest) := by
  rw [drain]

def Decoded.text (bytes : Bytes) : Decoded → Text
  | .char len => fromUtf8 (bytes.take len)
  | .invalid _ => [Utf8.replacement]
  | .incomplete => []

theorem drain_step {n : Nat} {decoded : Decoded} (hReads : Reads buf decoded) {len : Nat} (hLength : decoded.length? = some len) :
    drain (n + 1) buf = (decoded.text buf ++ (drain n (buf.drop len)).1, (drain n (buf.drop len)).2) := by
  cases buf with
  | nil => cases hReads
  | cons b rest =>
    rw [drain_cons, decodeUtf8Char_reads hReads]
    cases decoded with
    | char len' | invalid len' =>
      cases hLength
      rfl
    | incomplete => cases hLength

theorem drain_waits {n : Nat} (hReads : Reads buf .incomplete) : drain (n + 1) buf = ([], buf) := by
  cases buf with
  | nil => cases hReads
  | cons b rest => rw [drain_cons, decodeUtf8Char_reads hReads]

theorem drain_enough : ∀ {n m : Nat} {buf : Bytes}, buf.length ≤ n → buf.length ≤ m → drain n buf = drain m buf := by
  intro n
  induction n with
  | zero =>
    intro m buf hLength _
    obtain rfl := List.length_eq_zero_iff.mp (Nat.le_zero.mp hLength)
    cases m <;> rfl
  | succ n ih =>
    intro m buf hLength hEnough
    cases buf with
    | nil => cases m <;> rfl
    | cons b rest =>
      cases m with
      | zero => cases hEnough
      | succ m =>
        obtain ⟨decoded, hReads⟩ := exists_reads b rest
        cases hLen : decoded.length? with
        | none =>
          obtain rfl : decoded = .incomplete := by
            cases decoded <;> first | rfl | cases hLen
          rw [drain_waits hReads, drain_waits hReads]
        | some len =>
          obtain ⟨-, hPos, -⟩ := hReads.append hLen []
          have hShort : ((b :: rest).drop len).length ≤ rest.length := by
            rw [List.length_drop, List.length_cons]
            omega
          rw [drain_step hReads hLen, drain_step hReads hLen,
            @ih m _ (Nat.le_trans hShort (Nat.le_of_succ_le_succ hLength))
              (Nat.le_trans hShort (Nat.le_of_succ_le_succ hEnough))]

theorem drain_append (more : Bytes) : ∀ buf : Bytes, drain (buf ++ more).length (buf ++ more) =
    ((drain buf.length buf).1 ++ (drain ((drain buf.length buf).2 ++ more).length ((drain buf.length buf).2 ++ more)).1,
      (drain ((drain buf.length buf).2 ++ more).length ((drain buf.length buf).2 ++ more)).2) := by
  intro buf
  induction hSize : buf.length using Nat.strongRecOn generalizing buf with
  | ind size ih =>
    subst hSize
    cases buf with
    | nil => rfl
    | cons b rest =>
      obtain ⟨decoded, hReads⟩ := exists_reads b rest
      cases hLen : decoded.length? with
      | none =>
        obtain rfl : decoded = .incomplete := by
          cases decoded <;> first | rfl | cases hLen
        rw [List.length_cons, drain_waits hReads]
        rfl
      | some len =>
        obtain ⟨hMore, hPos, hLe⟩ := hReads.append hLen more
        have hRest := ih ((b :: rest).drop len).length (by rw [List.length_drop]; omega) _ rfl
        have hDrop : (b :: rest ++ more).drop len = (b :: rest).drop len ++ more :=
          List.drop_append_of_le_length hLe
        have hText : decoded.text (b :: rest ++ more) = decoded.text (b :: rest) := by
          cases decoded with
          | char len' =>
            cases hLen
            rw [Decoded.text, Decoded.text, List.take_append_of_le_length hLe]
          | invalid len' => rfl
          | incomplete => rfl
        have hShort : ((b :: rest).drop len).length ≤ rest.length := by
          rw [List.length_drop, List.length_cons]
          omega
        have hShort' : ((b :: rest).drop len ++ more).length ≤ (rest ++ more).length := by
          rw [List.length_append, List.length_append]
          omega
        have hHere := @drain_step _ (rest ++ more).length _ hMore _ hLen
        change drain (b :: rest ++ more).length (b :: rest ++ more) = _ at hHere
        rw [hHere, hText, hDrop, drain_enough hShort' (Nat.le_refl _), hRest]
        have hThere := @drain_step _ rest.length _ hReads _ hLen
        change drain (b :: rest).length (b :: rest) = _ at hThere
        rw [hThere, drain_enough hShort (Nat.le_refl _), List.append_assoc]

theorem drain_waiting (buf : Bytes) :
    drain (drain buf.length buf).2.length (drain buf.length buf).2 = ([], (drain buf.length buf).2) := by
  have hSame := drain_append [] buf
  rw [List.append_nil, List.append_nil] at hSame
  have hText := congrArg Prod.fst hSame
  exact Prod.ext (List.self_eq_append_right.mp hText) (congrArg Prod.snd hSame).symm

def decodeWhole (bytes : Bytes) : Text :=
  let (text, decoder) := StreamingUtf8.empty.decodeChunk bytes
  text ++ decoder.flush

theorem flush_waiting (buf : Bytes) : StreamingUtf8.flush ⟨(drain buf.length buf).2⟩ =
    if (drain buf.length buf).2.isEmpty then [] else [Utf8.replacement] := by
  rw [StreamingUtf8.flush, drain_waiting]
  rfl

theorem decodeWhole_eq (bytes : Bytes) : decodeWhole bytes = (drain bytes.length bytes).1 ++
    if (drain bytes.length bytes).2.isEmpty then [] else [Utf8.replacement] := by
  rw [← flush_waiting]
  rfl

theorem decodeChunks_eq (chunks : List Bytes) : ∀ decoder : StreamingUtf8,
    decoder.decodeChunks chunks = decodeWhole (decoder.buffer ++ chunks.flatten) := by
  induction chunks with
  | nil =>
    intro decoder
    rw [List.flatten_nil, List.append_nil, decodeWhole_eq]
    change (if (drain decoder.buffer.length decoder.buffer).2.isEmpty then _ else _) = _
    split
    · rw [List.append_nil]
    · rfl
  | cons chunk chunks ih =>
    intro decoder
    have hRest := ih ⟨(drain (decoder.buffer ++ chunk).length (decoder.buffer ++ chunk)).2⟩
    rw [decodeWhole_eq] at hRest
    rw [List.flatten_cons, ← List.append_assoc, decodeWhole_eq, drain_append]
    dsimp only
    rw [List.append_assoc, ← hRest]
    rfl

theorem decodeWhole_step {decoded : Decoded} (hReads : Reads buf decoded) {len : Nat} (hLength : decoded.length? = some len) :
    decodeWhole buf = decoded.text buf ++ decodeWhole (buf.drop len) := by
  cases buf with
  | nil => cases hReads
  | cons b rest =>
    obtain ⟨-, hPos, -⟩ := hReads.append hLength []
    have hShort : ((b :: rest).drop len).length ≤ rest.length := by
      rw [List.length_drop, List.length_cons]
      omega
    rw [decodeWhole_eq, decodeWhole_eq, List.length_cons, drain_step hReads hLength, drain_enough hShort (Nat.le_refl _),
      List.append_assoc]

theorem decodeWhole_short (hReads : Reads buf .incomplete) : decodeWhole buf = [Utf8.replacement] := by
  cases buf with
  | nil => cases hReads
  | cons b rest =>
    rw [decodeWhole_eq, List.length_cons, drain_waits hReads]
    rfl

end Chunks

section Lossy

variable {bytes : Bytes} {tails : Bytes} {form : Bytes} {a b : UInt8}

def Misled : Bytes → Prop
  | a :: b :: rest => (IsLead a ∧ Utf8.isTail b = true ∧ ¬ Utf8.Opens a b) ∨ Misled (b :: rest)
  | _ => False

theorem misled_of_not_lead {a : UInt8} (hOther : ¬ IsLead a) (rest : Bytes) : Misled (a :: rest) ↔ Misled rest := by
  cases rest with
  | nil => exact Iff.rfl
  | cons b rest => exact or_iff_right fun h => hOther h.1

theorem tail_not_lead {b : UInt8} (hTail : Utf8.isTail b = true) : ¬ IsLead b := by
  rw [Utf8.isTail_iff] at hTail
  unfold IsLead
  omega

theorem misled_tails (hTails : Tails tails) (rest : Bytes) : Misled (tails ++ rest) ↔ Misled rest := by
  induction tails with
  | nil => exact Iff.rfl
  | cons b tails ih =>
    obtain ⟨hTail, hTails⟩ := tails_cons.mp hTails
    exact (misled_of_not_lead (tail_not_lead hTail) _).trans (ih hTails)

theorem reads_unique {first second : Decoded} (hFirst : Reads bytes first) (hSecond : Reads bytes second) :
    first = second :=
  (decodeUtf8Char_reads hFirst).symm.trans (decodeUtf8Char_reads hSecond)

theorem reads_form (hForm : Utf8.Form form) (rest : Bytes) : Reads (form ++ rest) (.char form.length) := by
  have hWhole {a b : UInt8} {tails : Bytes} (hOpens : Utf8.Opens a b) (hTails : Tails tails)
      (hLength : (b :: tails).length = wants a) : Reads (a :: (b :: tails) ++ rest) (.char (a :: b :: tails).length) := by
    have hReads := @Reads.whole a b tails rest ⟨Nat.le_trans (by decide) hOpens.2.1.1, Nat.lt_of_le_of_lt hOpens.2.1.2 (by decide)⟩
      (tails_cons.mpr ⟨hOpens.1, hTails⟩) hLength
    rwa [if_pos hOpens] at hReads
  cases hForm with
  | one hFirst => exact .ascii hFirst
  | @two a b hFirst hOpens =>
    refine hWhole hOpens nofun ?_
    rw [wants, if_pos hFirst]
    rfl
  | @three a b d hFirst hOpens hThird =>
    refine hWhole hOpens (tails_cons.mpr ⟨hThird, nofun⟩) ?_
    rw [wants, if_neg (by omega), if_pos hFirst.2]
    rfl
  | @four a b d e hFirst hOpens hThird hFourth =>
    refine hWhole hOpens (tails_cons.mpr ⟨hThird, tails_cons.mpr ⟨hFourth, nofun⟩⟩) ?_
    rw [wants, if_neg (by omega), if_neg (by omega)]
    rfl

theorem form_of_whole (hTails : Tails (b :: tails)) (hWhole : (b :: tails).length = wants a) (hOpens : Utf8.Opens a b) :
    Utf8.Form (a :: b :: tails) := by
  rw [wants] at hWhole
  split at hWhole
  · obtain rfl := List.length_eq_zero_iff.mp (Nat.succ.inj hWhole)
    exact .two (by assumption) hOpens
  · split at hWhole
    · obtain ⟨d, rfl⟩ := List.length_eq_one_iff.mp (Nat.succ.inj hWhole)
      exact .three ⟨by omega, by assumption⟩ hOpens (tails_cons.mp (tails_cons.mp hTails).2).1
    · obtain ⟨d, e, rfl⟩ := List.length_eq_two.mp (Nat.succ.inj hWhole)
      have hThird := tails_cons.mp (tails_cons.mp hTails).2
      exact .four (by omega) hOpens hThird.1 (tails_cons.mp hThird.2).1

theorem lossy_unread {a : UInt8} {rest : Bytes} {decoded : Decoded} (hReads : Reads (a :: rest) decoded)
    (hUnread : ∀ len, decoded ≠ .char len) : Utf8.lossy (a :: rest) =
      Utf8.replacement :: Utf8.lossy ((a :: rest).drop (Utf8.brokenLength (a :: rest))) := by
  refine Utf8.lossy_broken fun form more hForm hIs => ?_
  rw [hIs] at hReads
  exact hUnread _ (reads_unique hReads (reads_form hForm more))

theorem brokenLength_one {a : UInt8} {rest : Bytes} (hClosed : ∀ b more, rest = b :: more → ¬ Utf8.Opens a b) :
    Utf8.brokenLength (a :: rest) = 1 := by
  cases rest with
  | nil => rfl
  | cons b more =>
    refine if_neg ?_
    rintro ⟨hLow, hHigh, hSecond⟩
    exact hClosed b more rfl ((Utf8.isSecond_iff ⟨UInt8.le_iff_toNat_le.mp hLow, UInt8.le_iff_toNat_le.mp hHigh⟩).mp hSecond)

theorem brokenLength_opens {tails rest : Bytes} (hOpens : Utf8.Opens a b) (hTails : Tails tails)
    (hShort : (b :: tails).length < wants a) (hNext : ∀ c more, rest = c :: more → Utf8.isTail c = false) :
    Utf8.brokenLength (a :: (b :: tails ++ rest)) = (b :: tails).length + 1 := by
  have hRange := hOpens.2.1
  have hThree : 0xE0 ≤ a.toNat := by
    by_contra hTwo
    rw [wants, if_pos (by omega), List.length_cons] at hShort
    omega
  have hSecond := (Utf8.isSecond_iff ⟨hThree, hRange.2⟩).mpr hOpens
  refine Eq.trans (if_pos ⟨UInt8.le_iff_toNat_le.mpr hThree, UInt8.le_iff_toNat_le.mpr hRange.2, hSecond⟩) ?_
  rw [wants, if_neg (by omega)] at hShort
  cases tails with
  | nil =>
    cases rest with
    | nil => rfl
    | cons c more =>
      have hOther := hNext c more rfl
      refine if_neg fun h => ?_
      rw [hOther] at h
      cases h.2
  | cons d tails =>
    obtain ⟨hThird, -⟩ := tails_cons.mp hTails
    simp only [List.length_cons] at hShort ⊢
    split at hShort
    · omega
    · rename_i hFour
      obtain rfl := List.length_eq_zero_iff.mp (show tails.length = 0 by omega)
      exact if_pos ⟨UInt8.le_iff_toNat_le.mpr (Nat.le_of_not_lt hFour), hThird⟩

theorem lossy_tails (hTails : Tails tails) (rest : Bytes) :
    Utf8.lossy (tails ++ rest) = List.replicate tails.length Utf8.replacement ++ Utf8.lossy rest := by
  induction tails with
  | nil => rfl
  | cons b tails ih =>
    obtain ⟨hTail, hTails⟩ := tails_cons.mp hTails
    have hBounds := Utf8.isTail_iff.mp hTail
    have hStray : Reads (b :: (tails ++ rest)) (.invalid 1) := .stray hBounds.1 (tail_not_lead hTail)
    have hOne := @brokenLength_one b (tails ++ rest) fun c more _ hOpens =>
      Nat.not_le.mpr hBounds.2 (Nat.le_trans (by decide) hOpens.2.1.1)
    rw [List.cons_append, lossy_unread hStray nofun, hOne, List.drop_one, List.tail_cons, ih hTails, List.length_cons,
      List.replicate_succ, List.cons_append]

/-- The two readers agree at the front, or the lossy one replaces a lead byte and each of its further bytes. -/
inductive Front (bytes : Bytes) : Prop where
  | agree (x : Char) (rest : Bytes) (hShort : rest.length < bytes.length) (hWhole : decodeWhole bytes = x :: decodeWhole rest)
      (hLossy : Utf8.lossy bytes = x :: Utf8.lossy rest) (hMisled : Misled bytes ↔ Misled rest)
  | misled (n : Nat) (rest : Bytes) (hShort : rest.length < bytes.length)
      (hWhole : decodeWhole bytes = Utf8.replacement :: decodeWhole rest)
      (hLossy : Utf8.lossy bytes = List.replicate (n + 2) Utf8.replacement ++ Utf8.lossy rest) (hMisled : Misled bytes)

theorem fromUtf8_form (hForm : Utf8.Form form) (rest : Bytes) :
    ∃ c, fromUtf8 form = [c] ∧ Utf8.lossy (form ++ rest) = c :: Utf8.lossy rest := by
  obtain ⟨c, hDecode, hLossy⟩ := Utf8.lossy_form hForm rest
  exact ⟨c, by rw [fromUtf8, hDecode, Option.getD_some], hLossy⟩

theorem front_cut {a : UInt8} {tails rest : Bytes} (hLead : IsLead a) (hTails : Tails tails) (hShort : tails.length < wants a)
    (hNext : ∀ c more, rest = c :: more → Utf8.isTail c = false) {decoded : Decoded}
    (hReads : Reads (a :: (tails ++ rest)) decoded) (hUnread : ∀ len, decoded ≠ .char len)
    (hWhole : decodeWhole (a :: (tails ++ rest)) = Utf8.replacement :: decodeWhole rest) : Front (a :: (tails ++ rest)) := by
  have hLength : rest.length < (a :: (tails ++ rest)).length := by
    rw [List.length_cons, List.length_append]
    omega
  have hLossy := lossy_unread hReads hUnread
  cases tails with
  | nil =>
    have hOne := @brokenLength_one a rest fun c more hRest hOpens => by
      have hOther := hNext c more hRest
      rw [hOpens.1] at hOther
      cases hOther
    refine .agree _ rest hLength hWhole ?_ ?_
    · rw [List.nil_append] at hLossy ⊢
      rwa [hOne, List.drop_one, List.tail_cons] at hLossy
    · cases rest with
      | nil => exact Iff.rfl
      | cons c more =>
        refine or_iff_right fun h => ?_
        rw [hNext c more rfl] at h
        cases h.2.1
  | cons b tails =>
    obtain ⟨hTail, hTails'⟩ := tails_cons.mp hTails
    by_cases hOpens : Utf8.Opens a b
    · rw [brokenLength_opens hOpens hTails' hShort hNext, List.drop_succ_cons, List.drop_left] at hLossy
      refine .agree _ rest hLength hWhole hLossy ?_
      exact (or_iff_right fun h => h.2.2 hOpens).trans (misled_tails hTails rest)
    · have hOne := @brokenLength_one a (b :: tails ++ rest) fun c more hRest hSecond => by
        rw [List.cons_append, List.cons.injEq] at hRest
        exact hOpens (hRest.1 ▸ hSecond)
      rw [hOne, List.drop_one, List.tail_cons, lossy_tails hTails] at hLossy
      exact .misled tails.length rest hLength hWhole hLossy (Or.inl ⟨hLead, hTail, hOpens⟩)

theorem front (a : UInt8) (rest : Bytes) : Front (a :: rest) := by
  obtain ⟨decoded, hReads⟩ := exists_reads a rest
  have hReads' := hReads
  cases hReads with
  | ascii hAscii =>
    obtain ⟨c, hText, hLossy⟩ := fromUtf8_form (.one hAscii) rest
    refine .agree c rest (Nat.lt_succ_self _) ?_ hLossy (misled_of_not_lead (fun h => ?_) rest)
    · rw [decodeWhole_step hReads' rfl, Decoded.text, List.take_succ_cons, List.take_zero, hText]
      rfl
    · exact absurd h.1 (by omega)
  | stray hHigh hStray =>
    refine .agree _ rest (Nat.lt_succ_self _) (decodeWhole_step hReads' rfl) ?_ (misled_of_not_lead hStray rest)
    rw [lossy_unread hReads' nofun, brokenLength_one fun b more _ hOpens => hStray
      ⟨Nat.le_trans (by decide) hOpens.2.1.1, Nat.lt_of_le_of_lt hOpens.2.1.2 (by decide)⟩]
    rfl
  | short hLead hTails hShort =>
    have hCut := @front_cut a rest [] hLead hTails hShort nofun .incomplete
    rw [List.append_nil] at hCut
    exact hCut hReads' nofun (decodeWhole_short hReads')
  | @broken _ b tails rest hLead hTails hShort hOther =>
    refine front_cut hLead hTails hShort (fun c more hRest => ?_) hReads' nofun ?_
    · cases hRest
      exact hOther
    · rw [decodeWhole_step hReads' rfl, List.drop_succ_cons, List.drop_left]
      rfl
  | @whole _ b tails rest hLead hTails hWhole =>
    have hLength : rest.length < (a :: (b :: tails ++ rest)).length := by
      rw [List.length_cons, List.length_append]
      omega
    by_cases hOpens : Utf8.Opens a b
    · rw [if_pos hOpens] at hReads'
      obtain ⟨c, hText, hLossy⟩ := fromUtf8_form (form_of_whole hTails hWhole hOpens) rest
      refine .agree c rest hLength ?_ hLossy ?_
      · rw [decodeWhole_step hReads' rfl, List.drop_succ_cons, List.drop_left, Decoded.text, List.take_succ_cons,
          List.take_left, hText]
        rfl
      · exact (or_iff_right fun h => h.2.2 hOpens).trans (misled_tails hTails rest)
    · rw [if_neg hOpens] at hReads'
      have hLossy := lossy_unread hReads' nofun
      have hOne := @brokenLength_one a (b :: tails ++ rest) fun c more hRest hSecond => by
        rw [List.cons_append, List.cons.injEq] at hRest
        exact hOpens (hRest.1 ▸ hSecond)
      rw [hOne, List.drop_one, List.tail_cons, lossy_tails hTails] at hLossy
      refine .misled tails.length rest hLength ?_ hLossy (Or.inl ⟨hLead, (tails_cons.mp hTails).1, hOpens⟩)
      rw [decodeWhole_step hReads' rfl, List.drop_succ_cons, List.drop_left]
      rfl

theorem decodeWhole_compare (bytes : Bytes) : (¬ Misled bytes → decodeWhole bytes = Utf8.lossy bytes) ∧
    (Misled bytes → (decodeWhole bytes).length < (Utf8.lossy bytes).length) := by
  induction hSize : bytes.length using Nat.strongRecOn generalizing bytes with
  | ind size ih =>
    subst hSize
    cases bytes with
    | nil => exact ⟨fun _ => rfl, False.elim⟩
    | cons a rest =>
      cases front a rest with
      | agree x rest' hShort hWhole hLossy hMisled =>
        obtain ⟨hEqual, hLess⟩ := ih _ hShort rest' rfl
        rw [hWhole, hLossy, hMisled]
        exact ⟨fun h => congrArg (x :: ·) (hEqual h), fun h => Nat.succ_lt_succ (hLess h)⟩
      | misled n rest' hShort hWhole hLossy hMisled =>
        obtain ⟨hEqual, hLess⟩ := ih _ hShort rest' rfl
        refine ⟨fun h => absurd hMisled h, fun _ => ?_⟩
        have hLe : (decodeWhole rest').length ≤ (Utf8.lossy rest').length := by
          by_cases hRest : Misled rest'
          · exact Nat.le_of_lt (hLess hRest)
          · exact Nat.le_of_eq (congrArg List.length (hEqual hRest))
        rw [hWhole, hLossy, List.length_cons, List.length_append, List.length_replicate]
        omega

/-- However the bytes are cut, the text is that of the whole; it is the lossy reading exactly where no first byte stands
before a further byte that cannot be its second. -/
theorem decodeChunks_lossy (chunks : List Bytes) :
    StreamingUtf8.empty.decodeChunks chunks = decodeWhole chunks.flatten ∧
      (StreamingUtf8.empty.decodeChunks chunks = Utf8.lossy chunks.flatten ↔ ¬ Misled chunks.flatten) := by
  have hWhole : StreamingUtf8.empty.decodeChunks chunks = decodeWhole chunks.flatten :=
    decodeChunks_eq chunks StreamingUtf8.empty
  obtain ⟨hEqual, hLess⟩ := decodeWhole_compare chunks.flatten
  rw [hWhole]
  exact ⟨rfl, fun hSame hMisled => absurd (congrArg List.length hSame) (Nat.ne_of_lt (hLess hMisled)), hEqual⟩

theorem decodeChunks_overlong : StreamingUtf8.empty.decodeChunks [[0xC0, 0x80]] = [Utf8.replacement] ∧
    Utf8.lossy [0xC0, 0x80] = [Utf8.replacement, Utf8.replacement] := by
  decide +kernel

end Lossy

end PrimeAgent.Tools
