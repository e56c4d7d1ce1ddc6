import PrimeAgent.Cron.Schedule
import PrimeAgent.Lib.Calendar
import Mathlib.Data.List.TakeDrop

/-! # Timestamps as text

Dates and times in the grammar of the timestamps, and their fields read back from the text.
-/
namespace PrimeAgent

section Digits

variable {ds text : Text} {width n : Nat}

def IsDigits (text : Text) : Prop :=
  ∀ c ∈ text, c.isDigit = true

theorem digit?_eq {c : Char} (hDigit : c.isDigit = true) : digit? c = some ((c.toNat - '0'.toNat : Nat) : Int) := by
  rw [Char.isDigit, Bool.and_eq_true, decide_eq_true_eq, decide_eq_true_eq] at hDigit
  rw [digit?]
  exact if_pos hDigit

theorem digit?_none {c : Char} (hOther : c.isDigit = false) : digit? c = none := by
  rw [digit?, if_neg]
  rintro ⟨hLow, hHigh⟩
  have hDigit : c.isDigit = true := by
    rw [Char.isDigit, Bool.and_eq_true, decide_eq_true_eq, decide_eq_true_eq]
    exact ⟨hLow, hHigh⟩
  rw [hDigit] at hOther
  cases hOther

section

variable (hDigits : IsDigits ds)

include hDigits

theorem foldl_digits : ∀ n : Nat,
    ds.foldl (fun n? c => n?.bind fun n => (digit? c).map fun d => 10 * n + d) (some (n : Int))
      = some ((Nat.ofDigitChars 10 ds n : Nat) : Int) := by
  induction ds with
  | nil => exact fun _ => rfl
  | cons c ds ih =>
    intro n
    rw [List.foldl_cons, digit?_eq (hDigits c List.mem_cons_self), Option.bind_some, Option.map_some]
    rw [Nat.ofDigitChars_cons, ← ih fun d hMem => hDigits d (List.mem_cons_of_mem _ hMem)]
    rw [Int.natCast_add, Int.natCast_mul]
    rfl

theorem foldl_digits_nat : ∀ n : Nat,
    ds.foldl (fun n? c => n?.bind fun n => (digit? c).map fun d => 10 * n + d.toNat) (some n)
      = some (Nat.ofDigitChars 10 ds n) := by
  induction ds with
  | nil => exact fun _ => rfl
  | cons c ds ih =>
    intro n
    rw [List.foldl_cons, digit?_eq (hDigits c List.mem_cons_self), Option.bind_some, Option.map_some, Int.toNat_natCast,
      Nat.ofDigitChars_cons, ← ih fun d hMem => hDigits d (List.mem_cons_of_mem _ hMem)]

theorem IsDigits.no_sign (hSome : ds ≠ []) :
    ∃ c rest, ds = c :: rest ∧ c ≠ '-' ∧ c ≠ '+' := by
  cases ds with
  | nil => exact absurd rfl hSome
  | cons c rest =>
    have hDigit := hDigits c List.mem_cons_self
    refine ⟨c, rest, rfl, ?_, ?_⟩ <;> rintro rfl <;> exact absurd hDigit (by decide)

theorem parseI64_digits (hSome : ds ≠ []) (hBound : Nat.ofDigitChars 10 ds 0 < 2 ^ 63) :
    parseI64 ds = some ((Nat.ofDigitChars 10 ds 0 : Nat) : Int) := by
  obtain ⟨c, rest, rfl, hMinus, hPlus⟩ := hDigits.no_sign hSome
  have hFold := foldl_digits hDigits 0
  rw [parseI64]
  · rw [List.isEmpty_cons, if_neg Bool.false_ne_true, show (some 0 : Option Int) = some ((0 : Nat) : Int) from rfl,
      hFold, Option.map_some,
      Int.one_mul, Option.filter_some, if_pos (decide_eq_true ⟨by omega, by omega⟩)]
  · rintro _ hEq
    exact hMinus (List.cons.inj hEq).1
  · rintro _ hEq
    exact hPlus (List.cons.inj hEq).1

theorem parseUnsigned_digits {bits : Nat} (hSome : ds ≠ []) (hBound : Nat.ofDigitChars 10 ds 0 < 2 ^ bits) :
    parseUnsigned bits ds = some (Nat.ofDigitChars 10 ds 0) := by
  obtain ⟨c, rest, rfl, hMinus, hPlus⟩ := hDigits.no_sign hSome
  have hFold := foldl_digits_nat hDigits 0
  rw [parseUnsigned]
  · rw [List.isEmpty_cons, if_neg Bool.false_ne_true, hFold, Option.filter_some, if_pos (decide_eq_true hBound)]
  · rintro _ hEq
    exact hPlus (List.cons.inj hEq).1

end

theorem padded_eq (width n : Nat) : padded width n = (Nat.toDigits 10 n).leftpad width '0' := by
  rw [padded, if_neg (by omega), Int.natAbs_natCast, Nat.toList_repr]

theorem padded_digits (width n : Nat) : IsDigits (padded width n) := by
  intro c hMem
  rw [padded_eq, List.leftpad, List.mem_append] at hMem
  obtain hZero | hDigit := hMem
  · rw [List.eq_of_mem_replicate hZero]
    rfl
  · exact Nat.isDigit_of_mem_toDigits (by decide) (by decide) hDigit

theorem length_padded (hPos : 0 < width) (hBound : n < 10 ^ width) : (padded width n).length = width := by
  rw [padded_eq, List.leftpad, List.length_append, List.length_replicate]
  have hLe := (Nat.length_toDigits_le_iff (by decide) hPos).mpr hBound
  omega

theorem ofDigitChars_padded (width n : Nat) : Nat.ofDigitChars 10 (padded width n) 0 = n := by
  rw [padded_eq, List.leftpad, Nat.ofDigitChars_append, Nat.ofDigitChars_replicate_zero, Nat.mul_zero,
    Nat.ofDigitChars_ten_toDigits]

theorem parseI64_padded (hPos : 0 < width) (hBound : n < 10 ^ width) (hSmall : n < 2 ^ 63) :
    parseI64 (padded width n) = some (n : Int) := by
  have hSome : padded width n ≠ [] := List.ne_nil_of_length_pos (by rwa [length_padded hPos hBound])
  rw [parseI64_digits (padded_digits width n) hSome (by rwa [ofDigitChars_padded]), ofDigitChars_padded]

theorem parseUnsigned_padded {bits : Nat} (hPos : 0 < width) (hBound : n < 10 ^ width) (hSmall : n < 2 ^ bits) :
    parseUnsigned bits (padded width n) = some n := by
  have hSome : padded width n ≠ [] := List.ne_nil_of_length_pos (by rwa [length_padded hPos hBound])
  rw [parseUnsigned_digits (padded_digits width n) hSome (by rwa [ofDigitChars_padded]), ofDigitChars_padded]

end Digits

/-! ### Dates and times in the grammar of the timestamps -/

inductive Zone where
  | absent
  | utc
  | offset (behind colon : Bool) (hours minutes : Nat)

/-- `YYYY-MM-DDTHH:MM:SS(.fff)?(Z|±HH:MM|±HHMM)?`. -/
structure CivilText where
  year : Nat
  month : Nat
  day : Nat
  hour : Nat
  minute : Nat
  second : Nat
  fraction : Option Nat
  zone : Zone

def Zone.text : Zone → Text
  | .absent => []
  | .utc => ['Z']
  | .offset behind colon hours minutes =>
    (if behind then '-' else '+') :: padded 2 hours ++ (if colon then [':'] else []) ++ padded 2 minutes

def Zone.millis : Zone → Int
  | .absent => 0
  | .utc => 0
  | .offset behind colon hours minutes =>
    (if behind then -1 else 1)
      * (if colon then hours * 3600000 + minutes * 60000 else (100 * hours + minutes) * 3600000)

namespace CivilText

def dateText (t : CivilText) : Text :=
  padded 4 t.year ++ '-' :: padded 2 t.month ++ '-' :: padded 2 t.day

def clockText (t : CivilText) : Text :=
  padded 2 t.hour ++ ':' :: padded 2 t.minute ++ ':' :: padded 2 t.second

def fractionText (t : CivilText) : Text :=
  match t.fraction with
  | some fraction => '.' :: padded 3 fraction
  | none => []

def text (t : CivilText) : Text :=
  t.dateText ++ 'T' :: t.clockText ++ t.fractionText ++ t.zone.text

def date (t : CivilText) : Calendar.Date :=
  ⟨t.year, t.month, t.day⟩

def instant (t : CivilText) : Int :=
  t.date.number * 86400000 + (t.hour * 3600000 + t.minute * 60000 + t.second * 1000 + t.fraction.getD 0) - t.zone.millis

structure Valid (t : CivilText) : Prop where
  year_lt : t.year < 10000
  date : t.date.Valid
  hour_lt : t.hour < 24
  minute_lt : t.minute < 60
  second_lt : t.second < 60
  fraction_lt : ∀ fraction ∈ t.fraction, fraction < 1000
  offset_lt : ∀ behind colon hours minutes, t.zone = .offset behind colon hours minutes →
    hours < 100 ∧ minutes < 100

end CivilText

section Bytes

def IsAscii (text : Text) : Prop :=
  ∀ c ∈ text, c.toNat < 128

variable {text : Text}

theorem utf8_ascii (hAscii : IsAscii text) : utf8 text = text.map fun c => UInt8.ofNat c.toNat := by
  induction text with
  | nil => rfl
  | cons c text ih =>
    rw [utf8, Utf8.encode_cons, Utf8.encodeChar_ascii (hAscii c List.mem_cons_self), List.map_cons,
      ← ih fun d hMem => hAscii d (List.mem_cons_of_mem _ hMem)]
    rfl

theorem length_utf8_ascii (hAscii : IsAscii text) : (utf8 text).length = text.length := by
  rw [utf8_ascii hAscii, List.length_map]

theorem numAt_field {before field behind : Text} {start stop : Nat} (hBefore : IsAscii before) (hField : IsAscii field)
    (hStart : start = before.length) (hStop : stop = start + field.length) :
    numAt (utf8 (before ++ (field ++ behind))) start stop = parseI64 field := by
  have hBytes : ((utf8 (before ++ (field ++ behind))).drop start).take (stop - start) = utf8 field := by
    rw [utf8, Utf8.encode_append, Utf8.encode_append, hStop, hStart, Nat.add_sub_cancel_left,
      ← length_utf8_ascii hBefore, List.drop_left, ← length_utf8_ascii hField, List.take_left]
  have hByte {c : Char} (hMem : c ∈ field) : (UInt8.ofNat c.toNat).toNat = c.toNat := by
    have hLt := hField c hMem
    rw [UInt8.toNat_ofNat', Nat.mod_eq_of_lt (by omega)]
  have hAll : (field.map fun c => UInt8.ofNat c.toNat).all (· < 128) = true := by
    rw [List.all_map, List.all_eq_true]
    intro c hMem
    refine decide_eq_true ?_
    rw [UInt8.lt_iff_toNat_lt, hByte hMem]
    exact hField c hMem
  rw [numAt, hBytes, utf8_ascii hField, if_pos hAll, List.map_map]
  congr 1
  refine (List.map_congr_left fun c hMem => ?_).trans (List.map_id field)
  rw [Function.comp_apply, hByte hMem, Char.ofNat_toNat]
  rfl

theorem sliceFrom_ascii {before : Text} (hBefore : IsAscii before) (rest : Text) :
    sliceFrom before.length (before ++ rest) = some rest := by
  induction before with
  | nil =>
    cases rest <;> rfl
  | cons c before ih =>
    have hSize : c.utf8Size = 1 := by
      have hLt : c.val.toNat < 128 := hBefore c List.mem_cons_self
      refine Char.utf8Size_eq_one_iff.mpr ?_
      rw [UInt32.le_iff_toNat_le]
      exact Nat.le_of_lt_succ hLt
    rw [List.length_cons, List.cons_append, sliceFrom, if_pos (by omega), hSize, Nat.add_sub_cancel]
    exact ih fun d hMem => hBefore d (List.mem_cons_of_mem _ hMem)

end Bytes

section Separators

variable {c : Char} {before behind : Text}

theorem span_at (hFree : c ∉ before) : (before ++ c :: behind).span (· ≠ c) = (before, c :: behind) := by
  have hAll : ∀ d ∈ before, decide (d ≠ c) = true := fun d hMem => decide_eq_true fun hEq => hFree (hEq ▸ hMem)
  rw [List.span_eq_takeWhile_dropWhile, List.takeWhile_append_of_pos hAll, List.dropWhile_append_of_pos hAll,
    List.takeWhile_cons_of_neg (by simp), List.dropWhile_cons_of_neg (by simp), List.append_nil]

theorem span_free (hFree : c ∉ before) : before.span (· ≠ c) = (before, []) := by
  have hAll : ∀ d ∈ before, decide (d ≠ c) = true := fun d hMem => decide_eq_true fun hEq => hFree (hEq ▸ hMem)
  rw [List.span_eq_takeWhile_dropWhile, List.takeWhile_eq_self_iff.mpr hAll, List.dropWhile_eq_nil_iff.mpr hAll]

theorem splitOnce_append (hFree : c ∉ before) : splitOnce c (before ++ c :: behind) = some (before, behind) := by
  rw [splitOnce, span_at hFree]

theorem splitOnce_none (hFree : c ∉ before) : splitOnce c before = none := by
  rw [splitOnce, span_free hFree]

theorem splitOnce_eq_some {text : Text} (hSplit : splitOnce c text = some (before, behind)) :
    text = before ++ c :: behind ∧ c ∉ before := by
  by_cases hMem : c ∈ text
  · obtain ⟨before', behind', rfl, hFree⟩ := List.eq_append_cons_of_mem hMem
    rw [splitOnce_append hFree] at hSplit
    cases hSplit
    exact ⟨rfl, hFree⟩
  · rw [splitOnce_none hMem] at hSplit
    cases hSplit

theorem splitLast_append (hFree : c ∉ behind) : splitLast c (before ++ c :: behind) = some (before, c :: behind) := by
  rw [splitLast, List.reverse_append, List.reverse_cons, List.append_assoc, List.singleton_append,
    span_at (List.mem_reverse.not.mpr hFree)]
  dsimp only
  rw [List.reverse_reverse, List.reverse_reverse]

theorem splitLast_none (hFree : c ∉ before) : splitLast c before = none := by
  rw [splitLast, span_free (List.mem_reverse.not.mpr hFree)]

theorem trim_of_free (hFree : ∀ c ∈ before, isWhitespace c = false) : trim before = before := by
  have hStart : before.dropWhile isWhitespace = before := by
    cases before with
    | nil => rfl
    | cons c rest => exact List.dropWhile_cons_of_neg (by simp [hFree c List.mem_cons_self])
  rw [trim, trimStart, hStart, trimEnd, List.rdropWhile_eq_self_iff]
  intro hSome
  rw [hFree _ (List.getLast_mem hSome)]
  exact Bool.false_ne_true

theorem digits_free (hDigits : IsDigits before) (hOther : c.isDigit = false) : c ∉ before := by
  intro hMem
  rw [hDigits c hMem] at hOther
  cases hOther

theorem digit_shown (hDigit : c.isDigit = true) : isWhitespace c = false := by
  rw [Char.isDigit, Bool.and_eq_true, decide_eq_true_eq, decide_eq_true_eq] at hDigit
  have hLow : 48 ≤ c.toNat := hDigit.1
  have hHigh : c.toNat ≤ 57 := hDigit.2
  unfold isWhitespace
  grind

theorem digits_ascii (hDigits : IsDigits before) : IsAscii before := by
  intro c hMem
  have hDigit := hDigits c hMem
  rw [Char.isDigit, Bool.and_eq_true, decide_eq_true_eq, decide_eq_true_eq] at hDigit
  have hHigh : c.toNat ≤ 57 := hDigit.2
  omega

end Separators

section Fields

variable {t : CivilText} {text text' : Text}

theorem isAscii_append (hText : IsAscii text) (hText' : IsAscii text') : IsAscii (text ++ text') := by
  intro c hMem
  obtain hLeft | hRight := List.mem_append.mp hMem
  · exact hText c hLeft
  · exact hText' c hRight

theorem isAscii_cons {c : Char} (hChar : c.toNat < 128) (hText : IsAscii text) : IsAscii (c :: text) := by
  intro d hMem
  obtain rfl | hTail := List.mem_cons.mp hMem
  · exact hChar
  · exact hText d hTail

theorem isAscii_one {c : Char} (hChar : c.toNat < 128) : IsAscii [c] := by
  intro d hMem
  rwa [List.mem_singleton.mp hMem]

theorem numAt_padded {before behind : Text} {start stop width n : Nat} (hBefore : IsAscii before)
    (hStart : start = before.length)
    (hStop : stop = start + width) (hPos : 0 < width) (hBound : n < 10 ^ width) (hSmall : n < 2 ^ 63) :
    numAt (utf8 (before ++ (padded width n ++ behind))) start stop = some (n : Int) := by
  rw [numAt_field hBefore (digits_ascii (padded_digits width n)) hStart (by rw [length_padded hPos hBound, hStop]),
    parseI64_padded hPos hBound hSmall]

namespace CivilText

theorem Valid.month_lt (hValid : t.Valid) : t.month < 100 := by
  have hLe : t.month ≤ 12 := hValid.date.month_le
  omega

theorem Valid.day_le (hValid : t.Valid) : t.day ≤ 31 := by
  have hLe : t.day ≤ Calendar.daysInMonth t.year t.month := hValid.date.day_le
  have hMonth := Calendar.daysInMonth_le t.year t.month
  omega

theorem Valid.length_dateText (hValid : t.Valid) : t.dateText.length = 10 := by
  have hDay := hValid.day_le
  rw [dateText, List.length_append, List.length_append, List.length_cons, List.length_cons,
    length_padded (by decide) hValid.year_lt, length_padded (by decide) hValid.month_lt,
    length_padded (by decide) (by omega : t.day < 10 ^ 2)]

theorem Valid.length_clockText (hValid : t.Valid) : t.clockText.length = 8 := by
  have hHour := hValid.hour_lt
  have hMinute := hValid.minute_lt
  have hSecond := hValid.second_lt
  rw [clockText, List.length_append, List.length_append, List.length_cons, List.length_cons,
    length_padded (by decide) (by omega : t.hour < 10 ^ 2), length_padded (by decide) (by omega : t.minute < 10 ^ 2),
    length_padded (by decide) (by omega : t.second < 10 ^ 2)]

theorem dateText_ascii (t : CivilText) : IsAscii t.dateText := by
  have hField (width n : Nat) : IsAscii (padded width n) := digits_ascii (padded_digits width n)
  exact isAscii_append (isAscii_append (hField 4 _) (isAscii_cons (by decide) (hField 2 _)))
    (isAscii_cons (by decide) (hField 2 _))

theorem clockText_ascii (t : CivilText) : IsAscii t.clockText := by
  have hField (width n : Nat) : IsAscii (padded width n) := digits_ascii (padded_digits width n)
  exact isAscii_append (isAscii_append (hField 2 _) (isAscii_cons (by decide) (hField 2 _)))
    (isAscii_cons (by decide) (hField 2 _))

theorem sliceFrom_text (hValid : t.Valid) : sliceFrom 19 t.text = some (t.fractionText ++ t.zone.text) := by
  have hHead : IsAscii (t.dateText ++ 'T' :: t.clockText) :=
    isAscii_append t.dateText_ascii (isAscii_cons (by decide) t.clockText_ascii)
  have hLength : (t.dateText ++ 'T' :: t.clockText).length = 19 := by
    rw [List.length_append, List.length_cons, hValid.length_dateText, hValid.length_clockText]
  have hSlice := sliceFrom_ascii hHead (t.fractionText ++ t.zone.text)
  rw [hLength] at hSlice
  rw [text, List.append_assoc]
  exact hSlice

theorem le_length_utf8_text (hValid : t.Valid) : 19 ≤ (utf8 t.text).length := by
  rw [text, List.append_assoc, utf8, Utf8.encode_append, List.length_append]
  change 19 ≤ (utf8 (t.dateText ++ 'T' :: t.clockText)).length + _
  have hHead : IsAscii (t.dateText ++ 'T' :: t.clockText) :=
    isAscii_append t.dateText_ascii (isAscii_cons (by decide) t.clockText_ascii)
  have hLength : (utf8 (t.dateText ++ 'T' :: t.clockText)).length = 19 := by
    rw [length_utf8_ascii hHead, List.length_append, List.length_cons, hValid.length_dateText, hValid.length_clockText]
  rw [hLength]
  exact Nat.le_add_right 19 _

theorem numAt_date (hValid : t.Valid) : numAt (utf8 t.text) 0 4 = some (t.year : Int) ∧
    numAt (utf8 t.text) 5 7 = some (t.month : Int) ∧ numAt (utf8 t.text) 8 10 = some (t.day : Int) := by
  have hYear := hValid.year_lt
  have hMonth := hValid.month_lt
  have hDay := hValid.day_le
  have hYearAscii := digits_ascii (padded_digits 4 t.year)
  have hMonthAscii := digits_ascii (padded_digits 2 t.month)
  have hYearLength := length_padded (by decide) (show t.year < 10 ^ 4 by omega)
  have hMonthLength := length_padded (by decide) (show t.month < 10 ^ 2 by omega)
  rw [text, dateText]
  simp only [List.append_assoc, List.cons_append]
  refine ⟨?_, ?_, ?_⟩
  · exact @numAt_padded [] _ 0 4 4 t.year nofun rfl rfl (by decide) hYear (by omega)
  · have hField := @numAt_padded (padded 4 t.year ++ ['-'])
      ('-' :: (padded 2 t.day ++ 'T' :: (t.clockText ++ (t.fractionText ++ t.zone.text)))) 5 7 2 t.month
      (isAscii_append hYearAscii (isAscii_one (by decide))) (by rw [List.length_append, hYearLength]; rfl) rfl
      (by decide) hMonth (by omega)
    simpa only [List.append_assoc, List.cons_append, List.nil_append] using hField
  · have hField := @numAt_padded (padded 4 t.year ++ '-' :: padded 2 t.month ++ ['-'])
      ('T' :: (t.clockText ++ (t.fractionText ++ t.zone.text))) 8 10 2 t.day
      (isAscii_append (isAscii_append hYearAscii (isAscii_cons (by decide) hMonthAscii)) (isAscii_one (by decide)))
      (by rw [List.length_append, List.length_append, List.length_cons, hYearLength, hMonthLength]; rfl) rfl
      (by decide) (by omega) (by omega)
    simpa only [List.append_assoc, List.cons_append, List.nil_append] using hField

theorem numAt_clock (hValid : t.Valid) : numAt (utf8 t.text) 11 13 = some (t.hour : Int) ∧
    numAt (utf8 t.text) 14 16 = some (t.minute : Int) ∧ numAt (utf8 t.text) 17 19 = some (t.second : Int) := by
  have hHour := hValid.hour_lt
  have hMinute := hValid.minute_lt
  have hSecond := hValid.second_lt
  have hHourAscii := digits_ascii (padded_digits 2 t.hour)
  have hMinuteAscii := digits_ascii (padded_digits 2 t.minute)
  have hHourLength := length_padded (by decide) (show t.hour < 10 ^ 2 by omega)
  have hMinuteLength := length_padded (by decide) (show t.minute < 10 ^ 2 by omega)
  have hDateLength := hValid.length_dateText
  rw [text, clockText]
  simp only [List.append_assoc, List.cons_append]
  refine ⟨?_, ?_, ?_⟩
  · have hField := @numAt_padded (t.dateText ++ ['T'])
      (':' :: (padded 2 t.minute ++ ':' :: (padded 2 t.second ++ (t.fractionText ++ t.zone.text)))) 11 13 2 t.hour
      (isAscii_append t.dateText_ascii (isAscii_one (by decide))) (by rw [List.length_append, hDateLength]; rfl) rfl
      (by decide) (by omega) (by omega)
    simpa only [List.append_assoc, List.cons_append, List.nil_append] using hField
  · have hField := @numAt_padded (t.dateText ++ 'T' :: padded 2 t.hour ++ [':'])
      (':' :: (padded 2 t.second ++ (t.fractionText ++ t.zone.text))) 14 16 2 t.minute
      (isAscii_append (isAscii_append t.dateText_ascii (isAscii_cons (by decide) hHourAscii)) (isAscii_one (by decide)))
      (by rw [List.length_append, List.length_append, List.length_cons, hDateLength, hHourLength]; rfl) rfl
      (by decide) (by omega) (by omega)
    simpa only [List.append_assoc, List.cons_append, List.nil_append] using hField
  · have hField := @numAt_padded (t.dateText ++ 'T' :: padded 2 t.hour ++ ':' :: padded 2 t.minute ++ [':'])
      (t.fractionText ++ t.zone.text) 17 19 2 t.second
      (isAscii_append (isAscii_append (isAscii_append t.dateText_ascii (isAscii_cons (by decide) hHourAscii))
        (isAscii_cons (by decide) hMinuteAscii))
        (isAscii_one (by decide)))
      (by rw [List.length_append, List.length_append, List.length_append, List.length_cons, List.length_cons,
        hDateLength, hHourLength, hMinuteLength]; rfl) rfl (by decide) (by omega) (by omega)
    simpa only [List.append_assoc, List.cons_append, List.nil_append] using hField

end CivilText

end Fields

end PrimeAgent
