import PrimeAgent.Lib.Utf8
import PrimeAgent.Types.Session
import Mathlib.Data.List.DropRight

/-! # Text and timestamps

A `str` is its list of characters, a file its list of bytes. Entry timestamps are ISO-8601 strings;
message timestamps are Unix milliseconds.
-/
namespace PrimeAgent

abbrev Bytes := List UInt8

abbrev Text := List Char

abbrev utf8 (text : Text) : Bytes :=
  Utf8.encode text

/-- `char::is_whitespace`, the Unicode `White_Space` property. -/
def isWhitespace (c : Char) : Bool :=
  let n := c.toNat
  (9 ≤ n && n ≤ 13) || n == 0x20 || n == 0x85 || n == 0xA0 || n == 0x1680 || (0x2000 ≤ n && n ≤ 0x200A)
    || n == 0x2028 || n == 0x2029 || n == 0x202F || n == 0x205F || n == 0x3000

def trimStart (text : Text) : Text :=
  text.dropWhile isWhitespace

def trimEnd (text : Text) : Text :=
  text.rdropWhile isWhitespace

def trim (text : Text) : Text :=
  trimEnd (trimStart text)

/-- `as i64` on the results of arithmetic. -/
def i64 (n : Int) : Int :=
  n.bmod (2 ^ 64)

def digit? (c : Char) : Option Int :=
  if '0' ≤ c ∧ c ≤ '9' then some (c.toNat - '0'.toNat : Nat) else none

/-- `str::parse::<i64>`: a sign is allowed, the empty string is not. -/
def parseI64 (text : Text) : Option Int :=
  let (sign, digits) : Int × Text := match text with
    | '-' :: rest => (-1, rest)
    | '+' :: rest => (1, rest)
    | _ => (1, text)
  let value := digits.foldl (fun n? c => n?.bind fun n => (digit? c).map fun d => 10 * n + d) (some (0 : Int))
  if digits.isEmpty then none
  else (value.map (sign * ·)).filter fun n => decide (-(2 ^ 63) ≤ n ∧ n < 2 ^ 63)

/-- `&text[n..]` for a byte offset; nothing inside a character. -/
def sliceFrom : Nat → Text → Option Text
  | 0, text => some text
  | _ + 1, [] => none
  | n + 1, c :: text => if c.utf8Size ≤ n + 1 then sliceFrom (n + 1 - c.utf8Size) text else none
termination_by structural _ text => text

/-- `bytes[from..to]` read back as a number. -/
def numAt (bytes : Bytes) (start stop : Nat) : Option Int :=
  let field := (bytes.drop start).take (stop - start)
  if field.all (· < 128) then parseI64 (field.map fun b => Char.ofNat b.toNat) else none

def civilDays (year month day : Int) : Option Int :=
  if ¬ (1 ≤ month ∧ month ≤ 12) ∨ ¬ (1 ≤ day ∧ day ≤ 31) then none
  else
    let y := if month ≤ 2 then year - 1 else year
    let era := (if 0 ≤ y then y else y - 399).tdiv 400
    let yoe := y - era * 400
    let mp := if 2 < month then month - 3 else month + 9
    let doy := (153 * mp + 2).tdiv 5 + day - 1
    let doe := yoe * 365 + yoe.tdiv 4 - yoe.tdiv 100 + doy
    some (era * 146097 + doe - 719468)

def parseOffset (offset : Text) : Option (Int × Int) :=
  let offset := trim (offset.rdropWhile (· == 'Z'))
  if offset.isEmpty then some (0, 0)
  else
    let (h, m) := match offset.span (· ≠ ':') with
      | (h, _ :: m) => (h, m)
      | (_, []) => (offset, ['0'])
    (parseI64 h).bind fun h => (parseI64 m).map fun m => (h, m)

def timeparse (timestamp : Text) : Option Nat := do
  let bytes := utf8 timestamp
  if bytes.length < 19 then none
  let year ← numAt bytes 0 4
  let month ← numAt bytes 5 7
  let day ← numAt bytes 8 10
  let hour ← numAt bytes 11 13
  let minute ← numAt bytes 14 16
  let second ← numAt bytes 17 19
  let days ← civilDays year month day
  let millis := (days * 86400 + hour * 3600 + minute * 60 + second) * 1000
  -- the source slices at byte 19, and would panic inside a character
  let rest ← sliceFrom 19 timestamp
  let (millis, rest) := match rest with
    | '.' :: rest =>
      let fraction := rest.takeWhile fun c => (digit? c).isSome
      (millis + (parseI64 (fraction.take 3)).getD 0, rest.dropWhile fun c => (digit? c).isSome)
    | _ => (millis, rest)
  let millis ← match rest with
    | '+' :: offset => (parseOffset offset).map fun (h, m) => i64 (millis - (h * 3600000 + m * 60000))
    | '-' :: offset => (parseOffset offset).map fun (h, m) => i64 (millis + (h * 3600000 + m * 60000))
    | _ => some millis
  some millis.toNat

def timestampToMillis (timestamp : String) : Nat :=
  (timeparse timestamp.toList).getD 0

example : timestampToMillis "2024-01-01T00:00:01.250Z" = 1704067201250 := by decide +kernel

end PrimeAgent
