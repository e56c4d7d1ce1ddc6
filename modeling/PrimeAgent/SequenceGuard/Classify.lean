import PrimeAgent.Lib.Utf8
import Mathlib.Algebra.Group.Nat.Defs

/-! # Terminal events

What the terminal reader hands on: keys, mouse events and the rest, and the reports mouse events become.
-/
namespace PrimeAgent.SequenceGuard

structure KeyModifiers where
  shift : Bool
  control : Bool
  alt : Bool
  superKey : Bool
  hyper : Bool
  metaKey : Bool
deriving DecidableEq

namespace KeyModifiers

def NONE : KeyModifiers := ⟨false, false, false, false, false, false⟩
def SHIFT : KeyModifiers := { NONE with shift := true }
def CONTROL : KeyModifiers := { NONE with control := true }

end KeyModifiers

inductive KeyCode where
  | char (c : Char)
  | enter | tab | backTab | backspace | esc
  | left | right | up | down | home | endKey | pageUp | pageDown | insert | delete
  | f (number : Nat)
  | other (name : String)
deriving DecidableEq

inductive KeyEventKind where
  | press | repeated | release
deriving DecidableEq

structure KeyEventState where
  keypad : Bool
  capsLock : Bool
  numLock : Bool
deriving DecidableEq

def KeyEventState.empty : KeyEventState := ⟨false, false, false⟩

structure KeyEvent where
  code : KeyCode
  modifiers : KeyModifiers
  kind : KeyEventKind
  state : KeyEventState
deriving DecidableEq

namespace KeyEvent

def new (code : KeyCode) (modifiers : KeyModifiers) : KeyEvent :=
  ⟨code, modifiers, .press, .empty⟩

def newWithKind (code : KeyCode) (modifiers : KeyModifiers) (kind : KeyEventKind) : KeyEvent :=
  ⟨code, modifiers, kind, .empty⟩

end KeyEvent

inductive MouseButton where
  | left | middle | right
deriving DecidableEq

inductive MouseEventKind where
  | down (button : MouseButton)
  | up (button : MouseButton)
  | drag (button : MouseButton)
  | moved | scrollDown | scrollUp | scrollLeft | scrollRight
deriving DecidableEq

structure MouseEvent where
  kind : MouseEventKind
  column : Nat
  row : Nat
  modifiers : KeyModifiers
deriving DecidableEq

inductive Event where
  | key (event : KeyEvent)
  | mouse (event : MouseEvent)
  | focusGained
  | focusLost
  | paste (text : String)
  | resize (columns rows : Nat)
deriving DecidableEq

structure Report where
  button : Nat
  x : Nat
  y : Nat
  press : Bool
  motion : Bool
  shift : Bool
  alt : Bool
  ctrl : Bool
deriving DecidableEq

def WHEEL_UP : Nat := 64
def WHEEL_DOWN : Nat := 65
def BUTTON_LEFT : Nat := 0
def BUTTON_NONE : Nat := 3

def fromCrossterm (event : MouseEvent) : Option Report :=
  let classified := match event.kind with
    | .scrollUp => some (WHEEL_UP, true, false)
    | .scrollDown => some (WHEEL_DOWN, true, false)
    | .down .left => some (BUTTON_LEFT, true, false)
    | .up .left => some (BUTTON_LEFT, false, false)
    | .drag .left => some (BUTTON_LEFT, true, true)
    | .moved => some (BUTTON_NONE, true, true)
    | _ => none
  classified.map fun (button, press, motion) =>
    { button, x := event.column + 1, y := event.row + 1, press, motion
      shift := event.modifiers.shift, alt := event.modifiers.alt, ctrl := event.modifiers.control }

inductive GuardOutput where
  | event (event : Event)
  | mouse (report : Report)
deriving DecidableEq

end PrimeAgent.SequenceGuard

/-! ## Reassembled sequences

Which bytes an event stands for, when the bytes behind an escape make a whole sequence, and what a whole
sequence is: a mouse report, a key, or nothing. A result of `none` is the panic of an index or a slice.
-/
namespace PrimeAgent.SequenceGuard

def ESC : UInt8 := 0x1b

/-- `&bytes[start..stop]`. -/
def slice (bytes : List UInt8) (start stop : Nat) : Option (List UInt8) :=
  if start ≤ stop ∧ stop ≤ bytes.length then some ((bytes.take stop).drop start) else none

def isBareEscPress (key : KeyEvent) : Bool :=
  key.code == .esc && key.kind == .press && key.modifiers == .NONE

/-- The control byte a character with `CONTROL` was read from. -/
def controlByte (c : Char) : Option UInt8 :=
  if 'a' ≤ c ∧ c ≤ 'z' then some (UInt8.ofNat (c.toNat - 'a'.toNat + 1))
  else if c = ' ' then some 0
  else if '4' ≤ c ∧ c ≤ '7' then some (UInt8.ofNat (c.toNat - '4'.toNat + 0x1c))
  else none

def continuationBytes (isUppercase : Char → Bool) : Event → Option (List UInt8)
  | .key key =>
    if key.kind ≠ .press then none
    else match key.code with
      | .char c =>
        if key.modifiers = .NONE ∨ (key.modifiers = .SHIFT ∧ isUppercase c) then some (Utf8.encode [c])
        else if key.modifiers = .CONTROL then (controlByte c).map fun byte => [byte]
        else none
      | .enter => if key.modifiers = .NONE then some [0x0d] else none
      | .tab => if key.modifiers = .NONE then some [0x09] else none
      | .backspace => if key.modifiers = .NONE then some [0x7f] else none
      | .esc => if key.modifiers = .NONE then some [ESC] else none
      | _ => none
  | _ => none

/-! ### Whole sequences -/

def isFinal (byte : UInt8) : Bool :=
  0x40 ≤ byte && byte ≤ 0x7e

def isDigit (byte : UInt8) : Bool :=
  0x30 ≤ byte && byte ≤ 0x39

/-- `std::str::from_utf8`. -/
def fromUtf8 (bytes : List UInt8) : Option (List UInt8) :=
  if (Utf8.decode bytes).isSome then some bytes else none

def fieldsOf (text : List UInt8) : List (List UInt8) :=
  text.splitOn 0x3b

def isSgrMousePayload (payload : List UInt8) : Option Bool :=
  match payload.getLast? with
  | none => none
  | some last =>
    if last ≠ 0x4d ∧ last ≠ 0x6d then some false
    else (slice payload 1 (payload.length - 1)).map fun body =>
      match fromUtf8 body with
      | none => false
      | some text =>
        (fieldsOf text).length == 3 && (fieldsOf text).all fun field => !field.isEmpty && field.all isDigit

/-- A final byte completes a sequence; behind `<` only an exact mouse report is complete. -/
def isCompleteCsi (data : List UInt8) : Option Bool :=
  if data.length < 3 then some false
  else
    let payload := data.drop 2
    match payload.getLast?, payload.head? with
    | some last, some head =>
      if !isFinal last then some false
      else if head ≠ 0x3c then some true
      else isSgrMousePayload payload
    | _, _ => none

/-- String sequences end with `ESC \`, an OSC also with BEL. -/
def endsWithTerminator (afterEsc : List UInt8) (bel : Bool) : Bool :=
  [ESC, 0x5c].isSuffixOf afterEsc || (bel && [0x07].isSuffixOf afterEsc)

def isCompleteSequence : List UInt8 → Option Bool
  | first :: second :: rest =>
    if first ≠ ESC then some true
    else if second = 0x5b then
      if rest.head? = some 0x4d then some (decide (4 ≤ rest.length)) else isCompleteCsi (first :: second :: rest)
    else if second = 0x5d then some (endsWithTerminator (second :: rest) true)
    else if second = 0x50 ∨ second = 0x5f then some (endsWithTerminator (second :: rest) false)
    else if second = 0x4f then some (!rest.isEmpty)
    else some true
  | [first] => some (first ≠ ESC)
  | [] => some true

/-! ### Numbers -/

def valueOf (digits : List UInt8) : Nat :=
  digits.foldl (fun value digit => 10 * value + (digit.toNat - 0x30)) 0

/-- `str::parse` for an unsigned integer below `limit`. -/
def parseUnsigned (limit : Nat) (text : List UInt8) : Option Nat :=
  let digits := match text with
    | 0x2b :: digit :: rest => digit :: rest
    | _ => text
  if digits ≠ [] ∧ digits.all isDigit ∧ valueOf digits < limit then some (valueOf digits) else none

def parseU8 (text : List UInt8) : Option Nat :=
  parseUnsigned (2 ^ 8) text

def parseU16 (text : List UInt8) : Option Nat :=
  parseUnsigned (2 ^ 16) text

def parseU32 (text : List UInt8) : Option Nat :=
  parseUnsigned (2 ^ 32) text

def charFromU32 (n : Nat) : Option Char :=
  if n.isValidChar then some (Char.ofNat n) else none

/-! ### Mouse reports -/

def reportModifiers (cb : UInt8) : KeyModifiers :=
  { KeyModifiers.NONE with shift := (cb &&& 4) != 0, alt := (cb &&& 8) != 0, control := (cb &&& 16) != 0 }

def reportKind (cb : UInt8) (press : Bool) : Option MouseEventKind :=
  let button := (cb &&& (3 : UInt8)) ||| ((cb &&& (0xc0 : UInt8)) >>> (4 : UInt8))
  let dragging := (cb &&& (0x20 : UInt8)) != 0
  let kind : Option MouseEventKind :=
    if dragging then
      if button = 0 then some (.drag .left)
      else if button = 1 then some (.drag .middle)
      else if button = 2 then some (.drag .right)
      else if button ≤ 5 then some .moved
      else none
    else
      if button = 0 then some (.down .left)
      else if button = 1 then some (.down .middle)
      else if button = 2 then some (.down .right)
      else if button = 3 then some (.up .left)
      else if button = 4 then some .scrollUp
      else if button = 5 then some .scrollDown
      else if button = 6 then some .scrollLeft
      else if button = 7 then some .scrollRight
      else none
  kind.map fun
    | .down button => if press then .down button else .up button
    | kind => kind

def reportOf (cb : UInt8) (column row : Nat) (press : Bool) : List GuardOutput :=
  match reportKind cb press with
  | none => []
  | some kind => ((fromCrossterm ⟨kind, column, row, reportModifiers cb⟩).map GuardOutput.mouse).toList

def rxvtReport (fields : List (List UInt8)) : List GuardOutput :=
  let cb := ((fields[0]?.bind parseU8).filter (32 ≤ ·)).map (· - 32)
  match cb, fields[1]?.bind parseU16, fields[2]?.bind parseU16 with
  | some cb, some x, some y => reportOf (UInt8.ofNat cb) (x - 1) (y - 1) true
  | _, _, _ => []

def decodeRxvtReport (bytes : List UInt8) : Option (List GuardOutput) :=
  (slice bytes 2 (bytes.length - 1)).map fun body =>
    match fromUtf8 body with
    | none => []
    | some text => rxvtReport (fieldsOf text)

def sgrReport (cb x y : List UInt8) (press : Bool) : List GuardOutput :=
  match parseU8 cb, parseU16 x, parseU16 y with
  | some cb, some x, some y => reportOf (UInt8.ofNat cb) (x - 1) (y - 1) press
  | _, _, _ => []

def decodeSgrReport (bytes : List UInt8) : Option (List GuardOutput) :=
  (slice bytes 3 (bytes.length - 1)).bind fun body =>
    match fromUtf8 body with
    | none => some []
    | some text =>
      match fieldsOf text with
      | cb :: x :: y :: _ => some (sgrReport cb x y (bytes.getLast? == some 0x4d))
      | _ => none

def x10Report (cb x y : UInt8) : List GuardOutput :=
  reportOf (cb - 32) (x.toNat - 32 - 1) (y.toNat - 32 - 1) true

def decodeX10Report (bytes : List UInt8) : Option (List GuardOutput) :=
  match bytes[3]?, bytes[4]?, bytes[5]? with
  | some cb, some x, some y => some (x10Report cb x y)
  | _, _, _ => none

/-! ### Keys -/

def parseModifiers (mask : Nat) : KeyModifiers :=
  let bits := mask - 1
  { shift := bits.testBit 0, alt := bits.testBit 1, control := bits.testBit 2, superKey := bits.testBit 3
    hyper := bits.testBit 4, metaKey := bits.testBit 5 }

def parseKind (kind : Nat) : KeyEventKind :=
  if kind = 2 then .repeated else if kind = 3 then .release else .press

def lockState (mask : Nat) : KeyEventState :=
  { KeyEventState.empty with capsLock := (mask - 1).testBit 6, numLock := (mask - 1).testBit 7 }

/-- The parts of `mods:kind`. -/
def partsOf (field : List UInt8) : List (List UInt8) :=
  field.splitOn 0x3a

def kindOf (parts : List (List UInt8)) : KeyEventKind :=
  ((parts[1]?.bind parseU8).map parseKind).getD .press

def modifierParams (body : List UInt8) : KeyModifiers × KeyEventKind :=
  match fromUtf8 body with
  | none => (.NONE, .press)
  | some text =>
    match (fieldsOf text)[1]? with
    | none =>
      let mask := ((((fieldsOf text).headD []).getLast?.filter isDigit).map fun digit => digit.toNat - 0x30).getD 1
      (parseModifiers mask, .press)
    | some mods =>
      match parseU8 ((partsOf mods).headD []) with
      | none => (.NONE, .press)
      | some mask => (parseModifiers mask, kindOf (partsOf mods))

def looseParams (mods : List UInt8) : Nat × KeyEventKind :=
  ((parseU8 ((partsOf mods).headD [])).getD 1, kindOf (partsOf mods))

def ss3Key (fin : UInt8) : Option Event :=
  let code : Option KeyCode :=
    if fin = 0x41 then some .up else if fin = 0x42 then some .down
    else if fin = 0x43 then some .right else if fin = 0x44 then some .left
    else if fin = 0x48 then some .home else if fin = 0x46 then some .endKey
    else if fin = 0x50 then some (.f 1) else if fin = 0x51 then some (.f 2)
    else if fin = 0x52 then some (.f 3) else if fin = 0x53 then some (.f 4)
    else none
  code.map fun code => .key (.new code .NONE)

def csiCode (final : UInt8) : Option KeyCode :=
  if final = 0x41 then some .up else if final = 0x42 then some .down
  else if final = 0x43 then some .right else if final = 0x44 then some .left
  else if final = 0x48 then some .home else if final = 0x46 then some .endKey
  else if final = 0x50 then some (.f 1) else if final = 0x51 then some (.f 2)
  else if final = 0x53 then some (.f 4)
  else none

def tildeCode (number : Nat) : Option KeyCode :=
  if number = 1 ∨ number = 7 then some .home
  else if number = 2 then some .insert
  else if number = 3 then some .delete
  else if number = 4 ∨ number = 8 then some .endKey
  else if number = 5 then some .pageUp
  else if number = 6 then some .pageDown
  else if 11 ≤ number ∧ number ≤ 15 then some (.f (number - 10))
  else if 17 ≤ number ∧ number ≤ 21 then some (.f (number - 11))
  else if 23 ≤ number ∧ number ≤ 26 then some (.f (number - 12))
  else if 28 ≤ number ∧ number ≤ 29 then some (.f (number - 15))
  else if 31 ≤ number ∧ number ≤ 34 then some (.f (number - 17))
  else none

def tildeKey (body : List UInt8) : Option Event := do
  let text ← fromUtf8 body
  let first ← parseU8 ((fieldsOf text).headD [])
  let params := ((fieldsOf text)[1]?).map looseParams
  let code ← tildeCode first
  return .key (.newWithKind code ((params.map fun params => parseModifiers params.1).getD .NONE)
    ((params.map Prod.snd).getD .press))

def KEYPAD_CODES : List KeyCode :=
  [.char '.', .char '/', .char '*', .char '-', .char '+', .enter, .char '=', .char ',', .left, .right, .up,
    .down, .pageUp, .pageDown, .home, .endKey, .insert, .delete]

def csiUCode (codepoint : Nat) (modifiers : KeyModifiers) : Option (KeyCode × Bool) :=
  if 57399 ≤ codepoint ∧ codepoint ≤ 57408 then some (.char (Char.ofNat (codepoint - 57399 + '0'.toNat)), true)
  else if 57409 ≤ codepoint ∧ codepoint ≤ 57426 then (KEYPAD_CODES[codepoint - 57409]?).map fun code => (code, true)
  else if codepoint = 0x1b then some (.esc, false)
  else if codepoint = 0x0d then some (.enter, false)
  else if codepoint = 0x0a then some (.char '\n', false)
  else if codepoint = 0x09 then some (if modifiers.shift then .backTab else .tab, false)
  else if codepoint = 0x7f then some (.backspace, false)
  else if 57344 ≤ codepoint ∧ codepoint ≤ 63743 then none
  else (charFromU32 codepoint).map fun c => (.char c, false)

def csiUKey (body : List UInt8) : Option Event := do
  let text ← fromUtf8 body
  let codepoints := partsOf ((fieldsOf text).headD [])
  let codepoint ← parseU32 (codepoints.headD [])
  let params := ((fieldsOf text)[1]?).map looseParams
  let modifiers := (params.map fun params => parseModifiers params.1).getD .NONE
  let kind := (params.map Prod.snd).getD .press
  let locks := (params.map fun params => lockState params.1).getD .empty
  let (code, keypad) ← csiUCode codepoint modifiers
  let shifted := if modifiers.shift then (codepoints[1]?.bind parseU32).bind charFromU32 else none
  let state := { locks with keypad }
  return .key (match shifted with
    | some c => ⟨.char c, { modifiers with shift := false }, kind, state⟩
    | none => ⟨code, modifiers, kind, state⟩)

def csiKey (payload : List UInt8) : Option Event :=
  match payload.getLast? with
  | none => none
  | some final =>
    let body := payload.dropLast
    match csiCode final with
    | some code => some (.key (.newWithKind code (modifierParams body).1 (modifierParams body).2))
    | none =>
      if final = 0x5a then some (.key (.newWithKind .backTab .SHIFT .press))
      else if final = 0x7e then tildeKey body
      else if final = 0x75 then if body.head? = some 0x3f then none else csiUKey body
      else if final = 0x49 then some .focusGained
      else if final = 0x4f then some .focusLost
      else none

def isOpener (byte : UInt8) : Bool :=
  byte == 0x5b || byte == 0x5d || byte == 0x50 || byte == 0x5f || byte == 0x4f || byte == ESC

/-- The key that carried the byte behind the escape, with `ALT`. -/
def withAlt : Option Event → Option Event
  | some (.key key) => some (.key { key with modifiers := { key.modifiers with alt := true } })
  | _ => none

def classifyKey (first : Option Event) : List UInt8 → Option Event
  | esc :: byte :: rest =>
    if esc ≠ ESC then none
    else if byte = ESC ∧ rest = [] then some (.key (.new .esc .NONE))
    else if !isOpener byte then withAlt first
    else if byte = 0x5b then csiKey rest
    else match byte, rest with
      | 0x4f, [fin] => ss3Key fin
      | _, _ => none
  | _ => none

def classify (bytes : List UInt8) (first : Option Event) : Option (List GuardOutput) :=
  if [ESC, 0x5b, 0x3c].isPrefixOf bytes then decodeSgrReport bytes
  else if [ESC, 0x5b, 0x4d].isPrefixOf bytes ∧ bytes.length = 6 then decodeX10Report bytes
  else if [ESC, 0x5b].isPrefixOf bytes ∧ [0x4d].isSuffixOf bytes then decodeRxvtReport bytes
  else some ((classifyKey first bytes).map GuardOutput.event).toList

end PrimeAgent.SequenceGuard
