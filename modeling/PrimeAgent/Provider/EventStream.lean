import PrimeAgent.Framing.Codec
import Mathlib.Data.Option.Basic
import Mathlib.Logic.Relation

/-! # Event-stream frames

The decoder of the binary framing of one provider: a prelude with two lengths, headers, a payload, and two checksums. The
lengths are used as bounds of slices; a slice out of bounds stops the program.
-/
namespace PrimeAgent.EventStream

open Framing

/-! ## Checksums -/

def tableEntry (seed : UInt32) : UInt32 :=
  (List.range 8).foldl (fun value _ => if value &&& 1 ≠ 0 then (value >>> 1) ^^^ 0xEDB88320 else value >>> 1) seed

def crc32 (bytes : Bytes) : UInt32 :=
  ~~~ bytes.foldl (fun crc byte => tableEntry ((crc ^^^ byte.toUInt32) &&& 0xFF) ^^^ (crc >>> 8)) 0xFFFFFFFF

def readU32 (bytes : Bytes) : Nat :=
  fromBeBytes (bytes.take 4)

/-! ## Headers -/

/-- What one read of the header section comes to; `panic` is a slice out of range. -/
inductive Step (α : Type) where
  | stop
  | panic
  | read (result : α) (rest : Bytes)

def Step.map {α β : Type} (f : α → β) : Step α → Step β
  | .stop => .stop
  | .panic => .panic
  | .read result rest => .read (f result) rest

def readValue (valueType : UInt8) (bytes : Bytes) : Step (Option Text) :=
  match valueType.toNat with
  | 0 => .read (some "true".toList) bytes
  | 1 => .read (some "false".toList) bytes
  | 2 | 3 => .read none (bytes.drop 1)
  | 4 | 5 => .read none (bytes.drop 2)
  | 6 => match bytes with
    | high :: low :: rest => .read none (rest.drop (fromBeBytes [high, low]))
    | _ => .stop
  | 7 => match bytes with
    | high :: low :: rest =>
      let len := fromBeBytes [high, low]
      if rest.length < len then .panic else .read (some (Utf8.lossy (rest.take len))) (rest.drop len)
    | _ => .stop
  | 8 => .read none (bytes.drop 4)
  | 9 => .read none (bytes.drop 8)
  | 10 | 11 => .read none (bytes.drop 16)
  | _ => .stop

-- one round of the loop over the header section
def readHeader : Bytes → Step (Text × Option Text)
  | nameLen :: next :: rest =>
    if (next :: rest).length < nameLen.toNat then .stop
    else match (next :: rest).drop nameLen.toNat with
      | [] => .stop
      | valueType :: value =>
        (readValue valueType value).map (Prod.mk (Utf8.lossy ((next :: rest).take nameLen.toNat)))
  | _ => .stop

def parseHeadersLoop : Nat → Bytes → Option (List (Text × Option Text))
  | 0, _ => some []
  | rounds + 1, bytes => match readHeader bytes with
    | .stop => some []
    | .panic => none
    | .read header rest => (parseHeadersLoop rounds rest).map (header :: ·)

def parseHeaders (bytes : Bytes) : Option (List (Text × Option Text)) :=
  parseHeadersLoop bytes.length bytes

/-! ## Frames -/

structure EventStreamMessage where
  messageType : Option Text
  eventType : Option Text
  exceptionType : Option Text
  payload : Bytes
  deriving DecidableEq

def headerValue (headers : List (Text × Option Text)) (name : String) : Option Text :=
  (headers.find? fun header => header.1 == name.toList).bind Prod.snd

def EventStreamMessage.of (headers : List (Text × Option Text)) (payload : Bytes) : EventStreamMessage where
  messageType := headerValue headers ":message-type"
  eventType := headerValue headers ":event-type"
  exceptionType := headerValue headers ":exception-type"
  payload := payload

def headersLen (frame : Bytes) : Nat :=
  readU32 (frame.drop 4)

def headerSection (frame : Bytes) : Bytes :=
  (frame.drop 12).take (headersLen frame)

def payloadOf (frame : Bytes) : Bytes :=
  (frame.take (frame.length - 4)).drop (12 + headersLen frame)

def decodeMessage (frame : Bytes) : Option EventStreamMessage := do
  guard (12 + headersLen frame ≤ frame.length)
  let headers ← parseHeaders (headerSection frame)
  guard (12 + headersLen frame ≤ frame.length - 4)
  return .of headers (payloadOf frame)

inductive Next where
  | wait
  | corrupt
  | skip (rest : Bytes)
  | frame (bytes rest : Bytes)

def next (buffer : Bytes) : Next :=
  if buffer.length < 16 then .wait
  else
    let totalLen := readU32 buffer
    if totalLen < 16 then .corrupt
    else if buffer.length < totalLen then .wait
    else if (crc32 (buffer.take 8)).toNat ≠ readU32 (buffer.drop 8) then .corrupt
    else if (crc32 (buffer.take (totalLen - 4))).toNat ≠ readU32 (buffer.drop (totalLen - 4)) then
      .skip (buffer.drop totalLen)
    else .frame (buffer.take totalLen) (buffer.drop totalLen)

def pushLoop : Nat → Bytes → Option (List EventStreamMessage × Bytes)
  | 0, buffer => some ([], buffer)
  | rounds + 1, buffer => match next buffer with
    | .wait => some ([], buffer)
    | .corrupt => some ([], [])
    | .skip rest => pushLoop rounds rest
    | .frame frame rest => do
      let message ← decodeMessage frame
      let (messages, buffer) ← pushLoop rounds rest
      return (message :: messages, buffer)

def push (buffer chunk : Bytes) : Option (List EventStreamMessage × Bytes) :=
  pushLoop (buffer ++ chunk).length (buffer ++ chunk)

def pushAll : Bytes → List Bytes → Option (List EventStreamMessage)
  | _, [] => some []
  | buffer, chunk :: chunks => do
    let (messages, buffer) ← push buffer chunk
    return messages ++ (← pushAll buffer chunks)

/-! ## Header sections -/

def fixedWidth (valueType : UInt8) : Option Nat :=
  match valueType.toNat with
  | 0 | 1 => some 0
  | 2 | 3 => some 1
  | 4 | 5 => some 2
  | 8 => some 4
  | 9 => some 8
  | 10 | 11 => some 16
  | _ => none

inductive HeaderValue where
  | fixed (valueType : UInt8) (bytes : Bytes) (hWidth : fixedWidth valueType = some bytes.length)
  | binary (value : Bytes) (hFits : value.length < 2 ^ 16)
  | string (value : Bytes) (hFits : value.length < 2 ^ 16)

structure Header where
  name : Bytes
  hName : name.length < 2 ^ 8
  value : HeaderValue

def u16Bytes (n : Nat) : Bytes :=
  [.ofNat (n / 256), .ofNat n]

def HeaderValue.encode : HeaderValue → Bytes
  | .fixed valueType bytes _ => valueType :: bytes
  | .binary value _ => 6 :: u16Bytes value.length ++ value
  | .string value _ => 7 :: u16Bytes value.length ++ value

def HeaderValue.read : HeaderValue → Option Text
  | .fixed valueType _ _ =>
    if valueType = 0 then some "true".toList else if valueType = 1 then some "false".toList else none
  | .binary _ _ => none
  | .string value _ => some (Utf8.lossy value)

def Header.encode (header : Header) : Bytes :=
  .ofNat header.name.length :: header.name ++ header.value.encode

def Header.read (header : Header) : Text × Option Text :=
  (Utf8.lossy header.name, header.value.read)

def Overruns (bytes : Bytes) : Prop :=
  ∃ (headers : List Header) (name : Bytes) (len : Nat) (rest : Bytes), name.length < 2 ^ 8 ∧ rest.length < len ∧
    len < 2 ^ 16 ∧ bytes = headers.flatMap Header.encode ++ (.ofNat name.length :: name ++ 7 :: u16Bytes len ++ rest)

variable {bytes rest value buffer more stream : Bytes} {valueType : UInt8} {header : Text × Option Text}
  {result : Option Text}

theorem fromBeBytes_u16 {n : Nat} (hFits : n < 2 ^ 16) : fromBeBytes (u16Bytes n) = n := by
  simp only [fromBeBytes, u16Bytes, List.foldl_cons, List.foldl_nil, UInt8.toNat_ofNat']
  omega

theorem u16Bytes_fromBeBytes (high low : UInt8) : u16Bytes (fromBeBytes [high, low]) = [high, low] := by
  have hHigh := high.toNat_lt
  have hLow := low.toNat_lt
  simp only [fromBeBytes, u16Bytes, List.foldl_cons, List.foldl_nil, List.cons.injEq, and_true, ← UInt8.toNat_inj,
    UInt8.toNat_ofNat']
  omega

theorem fromBeBytes_pair_lt (high low : UInt8) : fromBeBytes [high, low] < 2 ^ 16 := by
  have hHigh := high.toNat_lt
  have hLow := low.toNat_lt
  simp only [fromBeBytes, List.foldl_cons, List.foldl_nil]
  omega

theorem readValue_fixed {width : Nat} (hWidth : fixedWidth valueType = some width) (bytes : Bytes) :
    readValue valueType bytes = .read
      (if valueType = 0 then some "true".toList else if valueType = 1 then some "false".toList else none)
      (bytes.drop width) := by
  simp only [← UInt8.toNat_inj]
  unfold fixedWidth at hWidth
  unfold readValue
  split at hWidth <;> cases hWidth <;> simp_all

theorem readValue_encode (value : HeaderValue) (rest : Bytes) :
    ∃ valueType bytes, value.encode ++ rest = valueType :: bytes ∧ readValue valueType bytes = .read value.read rest := by
  cases value with
  | fixed valueType bytes hWidth =>
    refine ⟨valueType, bytes ++ rest, rfl, ?_⟩
    rw [readValue_fixed hWidth, List.drop_left]
    rfl
  | binary value hFits =>
    refine ⟨6, u16Bytes value.length ++ value ++ rest, rfl, ?_⟩
    show Step.read none ((value ++ rest).drop (fromBeBytes (u16Bytes value.length))) = _
    rw [fromBeBytes_u16 hFits, List.drop_left]
    rfl
  | string value hFits =>
    refine ⟨7, u16Bytes value.length ++ value ++ rest, rfl, ?_⟩
    show (if (value ++ rest).length < fromBeBytes (u16Bytes value.length) then Step.panic else
      .read (some (Utf8.lossy ((value ++ rest).take (fromBeBytes (u16Bytes value.length)))))
        ((value ++ rest).drop (fromBeBytes (u16Bytes value.length)))) = _
    rw [fromBeBytes_u16 hFits, if_neg (by simp), List.take_left, List.drop_left]
    rfl

theorem readHeader_named {name : Bytes} (hName : name.length < 2 ^ 8) (valueType : UInt8) (value : Bytes) :
    readHeader (.ofNat name.length :: name ++ valueType :: value) =
      (readValue valueType value).map (Prod.mk (Utf8.lossy name)) := by
  have hLen : (UInt8.ofNat name.length).toNat = name.length := by
    rw [UInt8.toNat_ofNat']
    exact Nat.mod_eq_of_lt hName
  obtain ⟨first, others, hTail⟩ : ∃ first others, name ++ valueType :: value = first :: others :=
    List.exists_cons_of_ne_nil (by simp)
  rw [List.cons_append, hTail, readHeader, hLen, ← hTail, if_neg (by simp), List.drop_left]
  simp only [List.take_left]

theorem readHeader_encode (header : Header) (rest : Bytes) : readHeader (header.encode ++ rest) = .read header.read rest := by
  obtain ⟨valueType, bytes, hValue, hRead⟩ := readValue_encode header.value rest
  rw [Header.encode, List.append_assoc, hValue, readHeader_named header.hName, hRead]
  rfl

theorem value_of_unfixed (hWidth : fixedWidth valueType = none) (hStep : readValue valueType bytes ≠ .stop) :
    ∃ high low tail, bytes = high :: low :: tail ∧
      (valueType = 6 ∧ readValue 6 bytes = .read none (tail.drop (fromBeBytes [high, low])) ∨
        valueType = 7 ∧ readValue 7 bytes = if tail.length < fromBeBytes [high, low] then .panic else
          .read (some (Utf8.lossy (tail.take (fromBeBytes [high, low])))) (tail.drop (fromBeBytes [high, low]))) := by
  have hKind : valueType = 6 ∨ valueType = 7 := by
    simp only [← UInt8.toNat_inj]
    by_contra hNeither
    refine hStep ?_
    unfold fixedWidth at hWidth
    unfold readValue
    split at hWidth <;> cases hWidth
    split <;> simp_all
  obtain _ | ⟨high, _ | ⟨low, tail⟩⟩ := bytes
  · obtain rfl | rfl := hKind <;> exact absurd rfl hStep
  · obtain rfl | rfl := hKind <;> exact absurd rfl hStep
  · exact ⟨high, low, tail, rfl, hKind.imp (fun h => ⟨h, rfl⟩) fun h => ⟨h, rfl⟩⟩

theorem exists_value (hRead : readValue valueType bytes = .read result rest) :
    rest = [] ∨ ∃ value : HeaderValue, valueType :: bytes = value.encode ++ rest := by
  cases hWidth : fixedWidth valueType with
  | some width =>
    rw [readValue_fixed hWidth] at hRead
    obtain ⟨-, rfl⟩ := Step.read.inj hRead
    rcases Nat.lt_or_ge bytes.length width with hShort | hLong
    · exact Or.inl (List.drop_eq_nil_of_le hShort.le)
    · have hValue : fixedWidth valueType = some (bytes.take width).length := by
        rw [hWidth, List.length_take, Nat.min_eq_left hLong]
      exact Or.inr ⟨.fixed valueType (bytes.take width) hValue,
        congrArg (valueType :: ·) (List.take_append_drop width bytes).symm⟩
  | none =>
    have hStep : readValue valueType bytes ≠ .stop := by simp [hRead]
    obtain ⟨high, low, tail, rfl, hKind⟩ := value_of_unfixed hWidth hStep
    have hTake : ∀ {len}, len ≤ tail.length → (tail.take len).length = len := fun hFits => by
      rw [List.length_take, Nat.min_eq_left hFits]
    have hLen := fromBeBytes_pair_lt high low
    obtain ⟨rfl, hValue⟩ | ⟨rfl, hValue⟩ := hKind <;> rw [hRead] at hValue
    · obtain ⟨-, rfl⟩ := Step.read.inj hValue
      rcases Nat.lt_or_ge tail.length (fromBeBytes [high, low]) with hShort | hLong
      · exact Or.inl (List.drop_eq_nil_of_le hShort.le)
      · refine Or.inr ⟨.binary (tail.take (fromBeBytes [high, low])) (by rwa [hTake hLong]), ?_⟩
        rw [HeaderValue.encode, hTake hLong, u16Bytes_fromBeBytes]
        simp
    · split at hValue
      next => cases hValue
      next hLong =>
        rw [Nat.not_lt] at hLong
        obtain ⟨-, rfl⟩ := Step.read.inj hValue
        refine Or.inr ⟨.string (tail.take (fromBeBytes [high, low])) (by rwa [hTake hLong]), ?_⟩
        rw [HeaderValue.encode, hTake hLong, u16Bytes_fromBeBytes]
        simp

theorem value_of_panic (hPanic : readValue valueType bytes = .panic) :
    valueType = 7 ∧ ∃ len tail, bytes = u16Bytes len ++ tail ∧ tail.length < len ∧ len < 2 ^ 16 := by
  cases hWidth : fixedWidth valueType with
  | some width =>
    rw [readValue_fixed hWidth] at hPanic
    cases hPanic
  | none =>
    have hStep : readValue valueType bytes ≠ .stop := by simp [hPanic]
    obtain ⟨high, low, tail, rfl, hKind⟩ := value_of_unfixed hWidth hStep
    obtain ⟨rfl, hValue⟩ | ⟨rfl, hValue⟩ := hKind <;> rw [hPanic] at hValue
    · cases hValue
    · split at hValue
      next hShort =>
        refine ⟨rfl, fromBeBytes [high, low], tail, ?_, hShort, fromBeBytes_pair_lt high low⟩
        rw [u16Bytes_fromBeBytes]
        rfl
      next => cases hValue

theorem readHeader_shape (hStep : readHeader bytes ≠ .stop) : ∃ (name : Bytes) (valueType : UInt8) (value : Bytes),
    name.length < 2 ^ 8 ∧ bytes = .ofNat name.length :: name ++ valueType :: value := by
  unfold readHeader at hStep
  split at hStep
  next nameLen next rest =>
    split at hStep
    next => exact absurd rfl hStep
    next hLong =>
      split at hStep
      next => exact absurd rfl hStep
      next valueType value hDrop =>
        have hLength : ((next :: rest).take nameLen.toNat).length = nameLen.toNat := by
          rw [List.length_take, Nat.min_eq_left (Nat.not_lt.mp hLong)]
        refine ⟨(next :: rest).take nameLen.toNat, valueType, value, ?_, ?_⟩
        · rw [hLength]
          exact nameLen.toNat_lt
        · rw [hLength, UInt8.ofNat_toNat, ← hDrop, List.cons_append, List.take_append_drop]
  next => exact absurd rfl hStep

theorem exists_header (hRead : readHeader bytes = .read header rest) :
    rest = [] ∨ ∃ header : Header, bytes = header.encode ++ rest := by
  have hStep : readHeader bytes ≠ .stop := by simp [hRead]
  obtain ⟨name, valueType, value, hName, rfl⟩ := readHeader_shape hStep
  rw [readHeader_named hName] at hRead
  cases hValue : readValue valueType value with
  | stop | panic => rw [hValue] at hRead; cases hRead
  | read result left =>
    rw [hValue] at hRead
    obtain ⟨-, rfl⟩ := Step.read.inj hRead
    refine (exists_value hValue).imp_right ?_
    rintro ⟨value', hBytes⟩
    refine ⟨⟨name, hName, value'⟩, ?_⟩
    rw [hBytes, Header.encode, List.append_assoc]

theorem parseHeadersLoop_encode (header : Header) (rest : Bytes) (rounds : Nat) :
    parseHeadersLoop (rounds + 1) (header.encode ++ rest) = (parseHeadersLoop rounds rest).map (header.read :: ·) := by
  rw [parseHeadersLoop, readHeader_encode]

theorem parseHeadersLoop_nil (rounds : Nat) : parseHeadersLoop rounds [] = some [] := by
  cases rounds <;> rfl

theorem two_le_encode (header : Header) : 2 ≤ header.encode.length := by
  obtain ⟨valueType, value, hValue, -⟩ := readValue_encode header.value []
  rw [List.append_nil] at hValue
  rw [Header.encode, hValue]
  simp only [List.length_append, List.length_cons]
  omega

theorem length_le_flatMap_encode (headers : List Header) : headers.length ≤ (headers.flatMap Header.encode).length := by
  induction headers with
  | nil => exact Nat.zero_le _
  | cons header headers ih =>
    have hTwo := two_le_encode header
    rw [List.flatMap_cons, List.length_append, List.length_cons]
    omega

theorem parseHeadersLoop_none {rounds : Nat} (hNone : parseHeadersLoop rounds bytes = none) : Overruns bytes := by
  induction rounds generalizing bytes with
  | zero => cases hNone
  | succ rounds ih =>
    rw [parseHeadersLoop] at hNone
    cases hStep : readHeader bytes with
    | stop => rw [hStep] at hNone; cases hNone
    | panic =>
      have hSettled : readHeader bytes ≠ .stop := by simp [hStep]
      obtain ⟨name, valueType, value, hName, rfl⟩ := readHeader_shape hSettled
      rw [readHeader_named hName] at hStep
      cases hValue : readValue valueType value with
      | stop | read result rest => rw [hValue] at hStep; cases hStep
      | panic =>
        obtain ⟨rfl, len, tail, rfl, hShort, hLen⟩ := value_of_panic hValue
        exact ⟨[], name, len, tail, hName, hShort, hLen, by simp⟩
    | read header rest =>
      simp only [hStep, Option.map_eq_none_iff] at hNone
      obtain rfl | ⟨header', rfl⟩ := exists_header hStep
      · rw [parseHeadersLoop_nil] at hNone
        cases hNone
      · obtain ⟨headers, name, len, tail, hName, hShort, hLen, rfl⟩ := ih hNone
        exact ⟨header' :: headers, name, len, tail, hName, hShort, hLen, by simp⟩

theorem parseHeaders_overruns (hOverruns : Overruns bytes) : parseHeaders bytes = none := by
  obtain ⟨headers, name, len, rest, hName, hShort, hLen, rfl⟩ := hOverruns
  have hRounds : ∀ (headers : List Header) (rounds : Nat), headers.length < rounds → parseHeadersLoop rounds
      (headers.flatMap Header.encode ++ (.ofNat name.length :: name ++ 7 :: u16Bytes len ++ rest)) = none := by
    intro headers
    induction headers with
    | nil =>
      rintro (_ | rounds) hRounds
      · cases hRounds
      · have hValue : readValue 7 (u16Bytes len ++ rest) = .panic := by
          show (if rest.length < fromBeBytes (u16Bytes len) then Step.panic else _) = _
          rw [fromBeBytes_u16 hLen, if_pos hShort]
        have hBytes : (UInt8.ofNat name.length :: name ++ 7 :: u16Bytes len ++ rest : Bytes) =
            .ofNat name.length :: name ++ 7 :: (u16Bytes len ++ rest) := by simp
        rw [List.flatMap_nil, List.nil_append, hBytes, parseHeadersLoop, readHeader_named hName, hValue]
        rfl
    | cons header headers ih =>
      rintro (_ | rounds) hRounds
      · cases hRounds
      · rw [List.flatMap_cons, List.append_assoc, parseHeadersLoop_encode,
          ih rounds (Nat.lt_of_succ_lt_succ hRounds)]
        rfl
  refine hRounds headers _ ?_
  have hLength := length_le_flatMap_encode headers
  rw [List.length_append, List.length_append, List.length_append, List.length_cons]
  omega

theorem parseHeaders_none_iff : parseHeaders bytes = none ↔ Overruns bytes :=
  ⟨parseHeadersLoop_none, parseHeaders_overruns⟩

theorem parseHeaders_encode (headers : List Header) :
    parseHeaders (headers.flatMap Header.encode) = some (headers.map Header.read) := by
  have hRounds : ∀ (headers : List Header) (rounds : Nat), (headers.flatMap Header.encode).length ≤ rounds →
      parseHeadersLoop rounds (headers.flatMap Header.encode) = some (headers.map Header.read) := by
    intro headers
    induction headers with
    | nil => exact fun rounds _ => parseHeadersLoop_nil rounds
    | cons header headers ih =>
      intro rounds hLength
      have hTwo := two_le_encode header
      rw [List.flatMap_cons, List.length_append] at hLength
      obtain _ | rounds := rounds
      · omega
      · rw [List.flatMap_cons, parseHeadersLoop_encode, ih rounds (by omega)]
        rfl
  exact hRounds headers _ (Nat.le_refl _)

/-! ## Whole streams -/

theorem readU32_append (hLength : 4 ≤ buffer.length) (more : Bytes) : readU32 (buffer ++ more) = readU32 buffer := by
  rw [readU32, readU32, List.take_append_of_le_length hLength]

def Next.followedBy (more : Bytes) : Next → Next
  | .wait => .wait
  | .corrupt => .corrupt
  | .skip rest => .skip (rest ++ more)
  | .frame bytes rest => .frame bytes (rest ++ more)

theorem next_append (hSettled : next buffer ≠ .wait) (more : Bytes) :
    next (buffer ++ more) = (next buffer).followedBy more := by
  unfold next at hSettled ⊢
  split at hSettled
  next => exact absurd rfl hSettled
  next hPrelude =>
    rw [Nat.not_lt] at hPrelude
    have hLonger : buffer.length ≤ (buffer ++ more).length := by simp
    rw [if_neg (Nat.not_lt.mpr (hPrelude.trans hLonger)), if_neg (Nat.not_lt.mpr hPrelude),
      readU32_append (by omega), List.take_append_of_le_length (by omega),
      List.drop_append_of_le_length (by omega : 8 ≤ buffer.length), readU32_append (by rw [List.length_drop]; omega)]
    simp only at hSettled ⊢
    generalize readU32 buffer = totalLen at hSettled ⊢
    split at hSettled
    next hSmall => rw [if_pos hSmall, if_pos hSmall]; rfl
    next hEnough =>
      split at hSettled
      next => exact absurd rfl hSettled
      next hWhole =>
        rw [Nat.not_lt] at hWhole hEnough
        rw [if_neg (Nat.not_lt.mpr hEnough), if_neg (Nat.not_lt.mpr hEnough),
          if_neg (Nat.not_lt.mpr (hWhole.trans hLonger)), if_neg (Nat.not_lt.mpr hWhole),
          List.take_append_of_le_length (by omega : totalLen - 4 ≤ buffer.length),
          List.drop_append_of_le_length (by omega : totalLen - 4 ≤ buffer.length),
          readU32_append (by rw [List.length_drop]; omega), List.drop_append_of_le_length hWhole,
          List.take_append_of_le_length hWhole]
        split
        next => rfl
        next =>
          split
          next => rfl
          next => rfl

theorem next_shorter : (∀ rest, next buffer = .skip rest → rest.length < buffer.length) ∧
    ∀ bytes rest, next buffer = .frame bytes rest → rest.length < buffer.length := by
  unfold next
  split
  next => simp
  next hPrelude =>
    simp only
    split
    next => simp
    next hEnough =>
      split
      next => simp
      next hWhole =>
        have hShorter : (buffer.drop (readU32 buffer)).length < buffer.length := by
          rw [List.length_drop]
          omega
        split
        next => simp
        next =>
          split
          next => simp_all
          next => simp_all

def scan : Nat → Bytes → List Bytes × Option Bytes
  | 0, buffer => ([], some buffer)
  | rounds + 1, buffer => match next buffer with
    | .wait => ([], some buffer)
    | .corrupt => ([], none)
    | .skip rest => scan rounds rest
    | .frame frame rest => (frame :: (scan rounds rest).1, (scan rounds rest).2)

def framesOf (stream : Bytes) : List Bytes × Option Bytes :=
  scan stream.length stream

theorem pushLoop_eq_scan (rounds : Nat) (buffer : Bytes) : pushLoop rounds buffer =
    ((scan rounds buffer).1.mapM decodeMessage).map fun messages => (messages, (scan rounds buffer).2.getD []) := by
  induction rounds generalizing buffer with
  | zero => rfl
  | succ rounds ih =>
    rw [pushLoop, scan]
    cases next buffer with
    | wait => rfl
    | corrupt => rfl
    | skip rest => exact ih rest
    | frame frame rest =>
      simp only [ih, List.mapM_cons]
      cases decodeMessage frame with
      | none => rfl
      | some message => cases (scan rounds rest).1.mapM decodeMessage <;> rfl

theorem scan_rounds {rounds rounds' : Nat} (hRounds : buffer.length ≤ rounds) (hRounds' : buffer.length ≤ rounds') :
    scan rounds buffer = scan rounds' buffer := by
  induction rounds generalizing buffer rounds' with
  | zero =>
    obtain rfl := List.eq_nil_of_length_eq_zero (Nat.le_zero.mp hRounds)
    cases rounds' <;> rfl
  | succ rounds ih =>
    obtain _ | rounds' := rounds'
    · obtain rfl := List.eq_nil_of_length_eq_zero (Nat.le_zero.mp hRounds')
      rfl
    · rw [scan, scan]
      cases hNext : next buffer with
      | wait => rfl
      | corrupt => rfl
      | skip rest =>
        have hShorter := next_shorter.1 rest hNext
        exact ih (by omega) (by omega)
      | frame frame rest =>
        have hShorter := next_shorter.2 frame rest hNext
        simp only [@ih rest rounds' (by omega) (by omega)]

theorem framesOf_eq : framesOf buffer = match next buffer with
    | .wait => ([], some buffer)
    | .corrupt => ([], none)
    | .skip rest => framesOf rest
    | .frame frame rest => (frame :: (framesOf rest).1, (framesOf rest).2) := by
  rw [framesOf, @scan_rounds buffer buffer.length (buffer.length + 1) (by omega) (by omega), scan]
  cases hNext : next buffer with
  | wait => rfl
  | corrupt => rfl
  | skip rest => exact scan_rounds (next_shorter.1 rest hNext).le (Nat.le_refl _)
  | frame frame rest =>
    simp only [@scan_rounds rest buffer.length rest.length (next_shorter.2 frame rest hNext).le (Nat.le_refl _)]
    rfl

theorem framesOf_append (stream more : Bytes) :
    (∀ rest, (framesOf stream).2 = some rest → framesOf rest = ([], some rest) ∧ framesOf (stream ++ more) =
      ((framesOf stream).1 ++ (framesOf (rest ++ more)).1, (framesOf (rest ++ more)).2)) ∧
    ((framesOf stream).2 = none → framesOf (stream ++ more) = framesOf stream) := by
  induction hLength : stream.length using Nat.strongRecOn generalizing stream with
  | ind length ih =>
    subst hLength
    have hEq := @framesOf_eq stream
    have hMore : next stream ≠ .wait → framesOf (stream ++ more) = _ := fun hSettled => by
      rw [framesOf_eq, next_append hSettled]
    cases hNext : next stream with
    | wait =>
      rw [hNext] at hEq
      rw [hEq]
      refine ⟨fun rest hRest => ?_, fun hNone => (by cases hNone)⟩
      obtain rfl := Option.some.inj hRest
      exact ⟨hEq, rfl⟩
    | corrupt =>
      rw [hNext] at hEq hMore
      rw [hEq, hMore (by simp)]
      exact ⟨fun rest hRest => (by cases hRest), fun _ => rfl⟩
    | skip left =>
      rw [hNext] at hEq hMore
      rw [hEq, hMore (by simp)]
      exact ih left.length (next_shorter.1 left hNext) left rfl
    | frame frame left =>
      rw [hNext] at hEq hMore
      rw [hEq, hMore (by simp)]
      obtain ⟨hSome, hNone⟩ := ih left.length (next_shorter.2 frame left hNext) left rfl
      refine ⟨fun rest hRest => ?_, fun hLost => ?_⟩
      · obtain ⟨hPending, hFrames⟩ := hSome rest hRest
        refine ⟨hPending, ?_⟩
        simp only [Next.followedBy, hFrames, List.cons_append]
      · simp only [Next.followedBy, hNone hLost]

/-! ## Chunks -/

def delivered : Bytes → List Bytes → List Bytes
  | _, [] => []
  | buffer, chunk :: chunks =>
    (framesOf (buffer ++ chunk)).1 ++ delivered ((framesOf (buffer ++ chunk)).2.getD []) chunks

def Restarts (stream rest : Bytes) : Prop :=
  ∃ start, stream = start ++ rest ∧ (framesOf start).2 = none

def Consistent (frame : Bytes) : Prop :=
  headersLen frame + 16 ≤ frame.length ∧ ¬ Overruns (headerSection frame)

variable {chunks frames : List Bytes} {frame : Bytes} {messages : List EventStreamMessage}

theorem pushAll_eq (buffer : Bytes) (chunks : List Bytes) :
    pushAll buffer chunks = (delivered buffer chunks).mapM decodeMessage := by
  induction chunks generalizing buffer with
  | nil => rfl
  | cons chunk chunks ih =>
    rw [pushAll, push, pushLoop_eq_scan, delivered, List.mapM_append, ← framesOf, ← ih]
    cases (framesOf (buffer ++ chunk)).1.mapM decodeMessage <;> rfl

theorem framesOf_nil : framesOf [] = ([], some []) := rfl

theorem Restarts.append (hWait : (framesOf buffer).2 = some rest) (hRestarts : Restarts (rest ++ more) stream) :
    Restarts (buffer ++ more) stream := by
  obtain ⟨start, hStart, hLost⟩ := hRestarts
  obtain ⟨skipped, rfl, rfl⟩ | ⟨skipped, rfl, hMore⟩ := List.append_eq_append_iff.mp hStart
  · refine ⟨buffer ++ skipped, (List.append_assoc _ _ _).symm, ?_⟩
    rw [((framesOf_append buffer skipped).1 rest hWait).2]
    exact hLost
  · have hPending := ((framesOf_append buffer []).1 _ hWait).1
    obtain ⟨hSome, hNone⟩ := framesOf_append start skipped
    rw [hNone hLost] at hPending
    rw [hPending] at hLost
    cases hLost

theorem delivered_spec (hWait : framesOf buffer = ([], some buffer)) : ∃ later,
    delivered buffer chunks = (framesOf (buffer ++ chunks.flatten)).1 ++ later ∧
      ((framesOf (buffer ++ chunks.flatten)).2 ≠ none → later = []) ∧ ∀ frame ∈ later, ∃ rest,
        Relation.TransGen Restarts (buffer ++ chunks.flatten) rest ∧ frame ∈ (framesOf rest).1 := by
  induction chunks generalizing buffer with
  | nil => exact ⟨[], by simp [delivered, hWait], fun _ => rfl, by simp⟩
  | cons chunk chunks ih =>
    obtain ⟨hSome, hNone⟩ := framesOf_append (buffer ++ chunk) chunks.flatten
    rw [delivered, List.flatten_cons, ← List.append_assoc]
    cases hLeft : (framesOf (buffer ++ chunk)).2 with
    | some rest =>
      obtain ⟨hRest, hFrames⟩ := hSome rest hLeft
      obtain ⟨later, hDelivered, hAll, hLater⟩ := ih hRest
      refine ⟨later, ?_, ?_, fun frame hFrame => ?_⟩
      · rw [hFrames, Option.getD_some, hDelivered, List.append_assoc]
      · rw [hFrames]
        exact hAll
      · obtain ⟨stream, hRun, hMem⟩ := hLater frame hFrame
        refine ⟨stream, ?_, hMem⟩
        obtain ⟨first, hFirst, hOthers⟩ := Relation.TransGen.head'_iff.mp hRun
        exact Relation.TransGen.head'_iff.mpr ⟨first, hFirst.append hLeft, hOthers⟩
    | none =>
      obtain ⟨later, hDelivered, -, hLater⟩ := ih framesOf_nil
      have hRestarts : Restarts (buffer ++ chunk ++ chunks.flatten) chunks.flatten := ⟨_, rfl, hLeft⟩
      rw [List.nil_append] at hDelivered hLater
      refine ⟨(framesOf chunks.flatten).1 ++ later, ?_, ?_, fun frame hFrame => ?_⟩
      · rw [hNone hLeft, Option.getD_none, hDelivered]
      · rw [hNone hLeft, hLeft]
        exact fun hKept => absurd rfl hKept
      · obtain hHere | hThere := List.mem_append.mp hFrame
        · exact ⟨_, .single hRestarts, hHere⟩
        · obtain ⟨stream, hRun, hMem⟩ := hLater frame hThere
          exact ⟨stream, .head hRestarts hRun, hMem⟩

theorem exists_chunks (hReached : Relation.ReflTransGen Restarts stream rest) :
    ∃ chunks : List Bytes, chunks.flatten = stream ∧ (framesOf rest).1 ⊆ delivered [] chunks := by
  induction hReached using Relation.ReflTransGen.head_induction_on with
  | refl => exact ⟨[rest], by simp, by simp [delivered]⟩
  | head hFirst _ ih =>
    obtain ⟨start, rfl, hLost⟩ := hFirst
    obtain ⟨chunks, rfl, hMem⟩ := ih
    refine ⟨start :: chunks, rfl, ?_⟩
    rw [delivered, List.nil_append, hLost]
    exact List.subset_append_of_subset_right _ hMem

theorem mapM_some_iff : (∃ messages, frames.mapM decodeMessage = some messages) ↔
    ∀ frame ∈ frames, ∃ message, decodeMessage frame = some message := by
  induction frames with
  | nil => simp
  | cons frame frames ih =>
    rw [List.forall_mem_cons, ← ih]
    simp [List.mapM_cons, Option.bind_eq_some_iff]

theorem mapM_length (hAll : frames.mapM decodeMessage = some messages) : messages.length = frames.length := by
  induction frames generalizing messages with
  | nil => simp_all
  | cons frame frames ih =>
    simp only [List.mapM_cons, bind, pure, Option.bind_eq_some_iff] at hAll
    obtain ⟨message, -, others, hOthers, hMessages⟩ := hAll
    rw [← Option.some.inj hMessages, List.length_cons, List.length_cons, ih hOthers]

theorem decodeMessage_of_fit (hLength : headersLen frame + 16 ≤ frame.length) : decodeMessage frame =
    (parseHeaders (headerSection frame)).map fun headers => .of headers (payloadOf frame) := by
  have hPayload : 12 + headersLen frame ≤ frame.length - 4 := by omega
  have hSection : 12 + headersLen frame ≤ frame.length := by omega
  unfold decodeMessage
  cases parseHeaders (headerSection frame) <;> simp [hPayload, hSection]

theorem decodeMessage_some_iff : (∃ message, decodeMessage frame = some message) ↔ Consistent frame := by
  unfold Consistent
  rw [← parseHeaders_none_iff]
  rcases Nat.lt_or_ge frame.length (headersLen frame + 16) with hShort | hLength
  · have hGuard : ¬ 12 + headersLen frame ≤ frame.length - 4 := by omega
    refine iff_of_false ?_ fun hFits => absurd hFits.1 (Nat.not_le.mpr hShort)
    rintro ⟨message, hMessage⟩
    unfold decodeMessage at hMessage
    simp [hGuard, failure] at hMessage
  · rw [decodeMessage_of_fit hLength]
    cases parseHeaders (headerSection frame) <;> simp [hLength]

/-- Every frame with right checksums is delivered once and in order, up to the loss of the framing at least. -/
def Delivers (stream : Bytes) (messages : List EventStreamMessage) : Prop :=
  ∃ first, (framesOf stream).1.mapM decodeMessage = some first ∧ first <+: messages ∧
    ((framesOf stream).2 ≠ none → messages = first)

theorem delivered_whole (hChunks : chunks.flatten = stream) : ∃ later, delivered [] chunks = (framesOf stream).1 ++ later ∧
    ((framesOf stream).2 ≠ none → later = []) ∧
      ∀ frame ∈ later, ∃ rest, Relation.TransGen Restarts stream rest ∧ frame ∈ (framesOf rest).1 := by
  subst hChunks
  exact @delivered_spec [] chunks framesOf_nil

theorem delivers_of_safe (hChunks : chunks.flatten = stream)
    (hSafe : ∀ rest, Relation.ReflTransGen Restarts stream rest → ∀ frame ∈ (framesOf rest).1, Consistent frame) :
    ∃ messages, pushAll [] chunks = some messages ∧ Delivers stream messages := by
  obtain ⟨later, hDelivered, hAll, hLater⟩ := delivered_whole hChunks
  have hEach : ∀ frame ∈ delivered [] chunks, ∃ message, decodeMessage frame = some message := fun frame hFrame => by
    rw [hDelivered] at hFrame
    obtain hHere | hThere := List.mem_append.mp hFrame
    · exact decodeMessage_some_iff.mpr (hSafe stream .refl frame hHere)
    · obtain ⟨rest, hReached, hMem⟩ := hLater frame hThere
      exact decodeMessage_some_iff.mpr (hSafe rest hReached.to_reflTransGen frame hMem)
  rw [hDelivered] at hEach
  obtain ⟨first, hFirst⟩ := mapM_some_iff.mpr fun frame hFrame => hEach frame (List.mem_append_left _ hFrame)
  obtain ⟨others, hOthers⟩ := mapM_some_iff.mpr fun frame hFrame => hEach frame (List.mem_append_right _ hFrame)
  refine ⟨first ++ others, ?_, first, hFirst, List.prefix_append first others, fun hKept => ?_⟩
  · rw [pushAll_eq, hDelivered, List.mapM_append, hFirst, hOthers]
    rfl
  · rw [hAll hKept, List.mapM_nil] at hOthers
    obtain rfl := Option.some.inj hOthers
    exact List.append_nil first

theorem quiet_of_same (hRuns : ∀ chunks : List Bytes, chunks.flatten = stream → ∃ messages,
    pushAll [] chunks = some messages ∧ (framesOf stream).1.mapM decodeMessage = some messages)
    (hReached : Relation.TransGen Restarts stream rest) : (framesOf rest).1 = [] := by
  obtain ⟨second, ⟨start, rfl, hLost⟩, hRun⟩ := Relation.TransGen.head'_iff.mp hReached
  obtain ⟨chunks, rfl, hMem⟩ := exists_chunks hRun
  obtain ⟨messages, hMessages, hFirst⟩ := hRuns (start :: chunks) rfl
  rw [pushAll_eq, delivered, List.nil_append, hLost] at hMessages
  rw [(framesOf_append start chunks.flatten).2 hLost] at hFirst
  have hLength := (mapM_length hMessages).symm.trans (mapM_length hFirst)
  rw [List.length_append, Nat.add_eq_left, Option.getD_none] at hLength
  rw [List.eq_nil_of_length_eq_zero hLength] at hMem
  exact List.subset_nil.mp hMem

theorem event_stream_decoder_iff (stream : Bytes) :
    ((∀ chunks : List Bytes, chunks.flatten = stream → ∃ messages, pushAll [] chunks = some messages ∧
        Delivers stream messages) ↔
      ∀ rest, Relation.ReflTransGen Restarts stream rest → ∀ frame ∈ (framesOf rest).1, Consistent frame) ∧
    ((∀ chunks : List Bytes, chunks.flatten = stream → ∃ messages, pushAll [] chunks = some messages ∧
        (framesOf stream).1.mapM decodeMessage = some messages) ↔
      (∀ frame ∈ (framesOf stream).1, Consistent frame) ∧
        ∀ rest, Relation.TransGen Restarts stream rest → (framesOf rest).1 = []) ∧
    ∀ (frame : Bytes) (headers : List Header), headersLen frame + 16 ≤ frame.length →
      headerSection frame = headers.flatMap Header.encode →
      decodeMessage frame = some (.of (headers.map Header.read) (payloadOf frame)) := by
  refine ⟨⟨fun hRuns rest hReached frame hFrame => ?_, fun hSafe chunks hChunks => delivers_of_safe hChunks hSafe⟩,
    ⟨fun hRuns => ⟨fun frame hFrame => ?_, fun rest => quiet_of_same hRuns⟩, fun ⟨hSafe, hQuiet⟩ chunks hChunks => ?_⟩,
    fun frame headers hLength hHeaders => ?_⟩
  · obtain ⟨chunks, hChunks, hMem⟩ := exists_chunks hReached
    obtain ⟨messages, hMessages, -⟩ := hRuns chunks hChunks
    rw [pushAll_eq] at hMessages
    exact decodeMessage_some_iff.mp (mapM_some_iff.mp ⟨messages, hMessages⟩ frame (hMem hFrame))
  · obtain ⟨messages, -, hMessages⟩ := hRuns [stream] (by simp)
    exact decodeMessage_some_iff.mp (mapM_some_iff.mp ⟨messages, hMessages⟩ frame hFrame)
  · obtain ⟨later, hDelivered, -, hLater⟩ := delivered_whole hChunks
    have hNone : later = [] := List.eq_nil_iff_forall_not_mem.mpr fun frame hFrame => by
      obtain ⟨rest, hReached, hMem⟩ := hLater frame hFrame
      rw [hQuiet rest hReached] at hMem
      cases hMem
    obtain ⟨messages, hMessages⟩ := mapM_some_iff.mpr fun frame hFrame =>
      decodeMessage_some_iff.mpr (hSafe frame hFrame)
    refine ⟨messages, ?_, hMessages⟩
    rw [pushAll_eq, hDelivered, hNone, List.append_nil, hMessages]
  · rw [decodeMessage_of_fit hLength, hHeaders, parseHeaders_encode]
    rfl

theorem claimed_header_panics :
    pushAll [] [[0, 0, 0, 16, 0, 0, 0, 1, 114, 197, 120, 125, 117, 117, 111, 109]] = none := by
  decide +kernel

end PrimeAgent.EventStream
