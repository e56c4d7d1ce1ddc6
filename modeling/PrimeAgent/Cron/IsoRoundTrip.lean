import PrimeAgent.Cron.IsoText

/-! # Timestamps read back

Both parsers read what the formatter writes. Every other date and time of the grammar they read alike where it is not
before 1970.
-/
namespace PrimeAgent

/-! ### The parser of the session files -/

section Session

variable {t : CivilText} {hours minutes : Nat}

theorem i64_of_bound {n : Int} (hLow : -(2 ^ 63) ≤ n) (hHigh : n < 2 ^ 63) : i64 n = n := by
  rw [i64, Int.bmod_eq_of_le] <;> omega

theorem eraDiv (y : Int) : (if 0 ≤ y then y else y - 399).tdiv 400 = y / 400 := by
  rw [Int.tdiv_eq_ediv]
  obtain hNeg | hPos := lt_or_ge y 0
  · rw [if_neg (by omega)]
    split
    · rename_i hExact
      obtain hFalse | ⟨k, hExact⟩ := hExact
      · omega
      · omega
    · rw [show Int.sign 400 = 1 from rfl]
      omega
  · rw [if_pos hPos, if_pos (Or.inl hPos), Int.add_zero]

theorem civilDays_eq {year month day : Int} (hMonth : 1 ≤ month ∧ month ≤ 12) (hDay : 1 ≤ day ∧ day ≤ 31) :
    civilDays year month day = some (Calendar.civilNumber year month day) := by
  rw [civilDays, if_neg (by omega)]
  dsimp only
  rw [eraDiv]
  generalize hY : (if month ≤ 2 then year - 1 else year) = y
  generalize hMp : (if 2 < month then month - 3 else month + 9) = mp
  have hMpPos : 0 ≤ mp := by
    split at hMp <;> omega
  have hYoe : y - y / 400 * 400 = y % 400 := by omega
  have hYoePos := Int.emod_nonneg y (show (400 : Int) ≠ 0 by decide)
  rw [hYoe, Int.tdiv_eq_ediv_of_nonneg hYoePos, Int.tdiv_eq_ediv_of_nonneg hYoePos,
    Int.tdiv_eq_ediv_of_nonneg (by omega : 0 ≤ 153 * mp + 2), Calendar.civilNumber]
  rw [hY, hMp]

namespace CivilText

theorem Valid.civilNumber_eq (hValid : t.Valid) : Calendar.civilNumber t.year t.month t.day = t.date.number :=
  Calendar.civilNumber_eq hValid.date.month_pos hValid.date.month_le

theorem Valid.civilDays_eq (hValid : t.Valid) : civilDays t.year t.month t.day = some t.date.number := by
  have hMonthPos : 1 ≤ t.month := hValid.date.month_pos
  have hMonthLe : t.month ≤ 12 := hValid.date.month_le
  have hDayPos : 1 ≤ t.day := hValid.date.day_pos
  have hDayLe := hValid.day_le
  rw [PrimeAgent.civilDays_eq (by omega) (by omega), hValid.civilNumber_eq]

theorem Valid.number_bound (hValid : t.Valid) : -719528 ≤ t.date.number ∧ t.date.number < 3652425 := by
  have hMonthPos : 1 ≤ t.month := hValid.date.month_pos
  have hMonthLe : t.month ≤ 12 := hValid.date.month_le
  have hDayPos : 1 ≤ t.day := hValid.date.day_pos
  have hDayLe := hValid.day_le
  have hYear := hValid.year_lt
  rw [← hValid.civilNumber_eq, Calendar.civilNumber]
  split <;> split <;> omega

theorem Valid.zone_bound (hValid : t.Valid) : -(10 ^ 11) ≤ t.zone.millis ∧ t.zone.millis ≤ 10 ^ 11 := by
  cases hZone : t.zone with
  | absent => decide
  | utc => decide
  | offset behind colon hours minutes =>
    obtain ⟨hHours, hMinutes⟩ := hValid.offset_lt behind colon hours minutes hZone
    rw [Zone.millis]
    cases behind <;> cases colon <;> simp only [if_true, if_false, Bool.false_eq_true] <;> omega

theorem Valid.fraction_bound (hValid : t.Valid) : t.fraction.getD 0 < 1000 := by
  cases hSome : t.fraction with
  | none => decide
  | some fraction => exact hValid.fraction_lt fraction hSome

theorem Valid.instant_bound (hValid : t.Valid) : -(2 ^ 62) ≤ t.instant ∧ t.instant < 2 ^ 62 := by
  obtain ⟨hLow, hHigh⟩ := hValid.number_bound
  have hHour := hValid.hour_lt
  have hMinute := hValid.minute_lt
  have hSecond := hValid.second_lt
  have hFraction := hValid.fraction_bound
  have hZone := hValid.zone_bound
  rw [instant]
  omega

theorem zone_head (zone : Zone) :
    zone.text = [] ∨ ∃ c rest, zone.text = c :: rest ∧ digit? c = none ∧ c ≠ '.' := by
  cases zone with
  | absent => exact Or.inl rfl
  | utc => exact Or.inr ⟨'Z', [], rfl, by decide, by decide⟩
  | offset behind colon hours minutes =>
    refine Or.inr ⟨_, _, rfl, ?_, ?_⟩ <;> cases behind <;> decide

def takeFraction (millis : Int) (rest : Text) : Int × Text :=
  match rest with
  | '.' :: rest =>
    let fraction := rest.takeWhile fun c => (digit? c).isSome
    (millis + (parseI64 (fraction.take 3)).getD 0, rest.dropWhile fun c => (digit? c).isSome)
  | _ => (millis, rest)

theorem takeFraction_text (hValid : t.Valid) (millis : Int) :
    takeFraction millis (t.fractionText ++ t.zone.text) = (millis + t.fraction.getD 0, t.zone.text) := by
  cases hFraction : t.fraction with
  | none =>
    rw [fractionText, hFraction]
    dsimp only [List.nil_append]
    obtain hNil | ⟨c, rest, hCons, -, hDot⟩ := zone_head t.zone
    · rw [hNil]
      exact congrArg (·, _) (Int.add_zero millis).symm
    · rw [hCons, takeFraction]
      · exact congrArg (·, _) (Int.add_zero millis).symm
      · exact fun _ hEq => hDot (List.cons.inj hEq).1
  | some fraction =>
    have hLt := hValid.fraction_lt fraction hFraction
    have hDigits := padded_digits 3 fraction
    have hSome : ∀ c ∈ padded 3 fraction, (digit? c).isSome = true := fun c hMem => by
      rw [digit?_eq (hDigits c hMem)]
      rfl
    have hTake : (padded 3 fraction ++ t.zone.text).takeWhile (fun c => (digit? c).isSome) = padded 3 fraction := by
      rw [List.takeWhile_append_of_pos hSome]
      obtain hNil | ⟨c, rest, hCons, hOther, -⟩ := zone_head t.zone
      · rw [hNil, List.takeWhile_nil, List.append_nil]
      · rw [hCons, List.takeWhile_cons_of_neg (by rw [hOther]; exact Bool.false_ne_true), List.append_nil]
    have hDrop : (padded 3 fraction ++ t.zone.text).dropWhile (fun c => (digit? c).isSome) = t.zone.text := by
      rw [List.dropWhile_append_of_pos hSome]
      obtain hNil | ⟨c, rest, hCons, hOther, -⟩ := zone_head t.zone
      · rw [hNil, List.dropWhile_nil]
      · rw [hCons, List.dropWhile_cons_of_neg (by rw [hOther]; exact Bool.false_ne_true)]
    have hLength := length_padded (by decide) (show fraction < 10 ^ 3 by omega)
    rw [fractionText, hFraction]
    change (millis + (parseI64 (((padded 3 fraction ++ t.zone.text).takeWhile
      fun c => (digit? c).isSome).take 3)).getD 0,
      (padded 3 fraction ++ t.zone.text).dropWhile fun c => (digit? c).isSome) = _
    rw [hTake, hDrop, List.take_of_length_le (by omega), parseI64_padded (by decide) (by omega) (by omega)]
    rfl

end CivilText

def offsetText (colon : Bool) (hours minutes : Nat) : Text :=
  padded 2 hours ++ (if colon then [':'] else []) ++ padded 2 minutes

def offsetHours (colon : Bool) (hours minutes : Nat) : Nat :=
  if colon then hours else 100 * hours + minutes

def offsetMinutes (colon : Bool) (minutes : Nat) : Nat :=
  if colon then minutes else 0

theorem offsetText_shown (colon : Bool) (hours minutes : Nat) {c : Char} (hMem : c ∈ offsetText colon hours minutes) :
    c.isDigit = true ∨ c = ':' := by
  rw [offsetText, List.mem_append, List.mem_append] at hMem
  obtain (hHour | hColon) | hMinute := hMem
  · exact Or.inl (padded_digits 2 hours c hHour)
  · cases colon with
    | true => exact Or.inr (List.mem_singleton.mp hColon)
    | false => cases hColon
  · exact Or.inl (padded_digits 2 minutes c hMinute)

theorem parseI64_joined (hHours : hours < 100) (hMinutes : minutes < 100) :
    parseI64 (padded 2 hours ++ padded 2 minutes) = some ((100 * hours + minutes : Nat) : Int) := by
  have hLength := length_padded (by decide) (show minutes < 10 ^ 2 by omega)
  have hDigits : IsDigits (padded 2 hours ++ padded 2 minutes) := fun c hMem =>
    (List.mem_append.mp hMem).elim (padded_digits 2 hours c) (padded_digits 2 minutes c)
  have hSome : padded 2 hours ++ padded 2 minutes ≠ [] :=
    List.ne_nil_of_length_pos (by rw [List.length_append]; omega)
  have hValue : Nat.ofDigitChars 10 (padded 2 hours ++ padded 2 minutes) 0 = 100 * hours + minutes := by
    rw [Nat.ofDigitChars_append, Nat.ofDigitChars_eq_ofDigitChars_zero, ofDigitChars_padded, ofDigitChars_padded,
      hLength]
  rw [parseI64_digits hDigits hSome (by rw [hValue]; omega), hValue]

theorem parseOffset_text (hHours : hours < 100) (hMinutes : minutes < 100) (colon : Bool) :
    parseOffset (offsetText colon hours minutes)
      = some ((offsetHours colon hours minutes : Int), (offsetMinutes colon minutes : Int)) := by
  have hHourLength := length_padded (by decide) (show hours < 10 ^ 2 by omega)
  have hZone : (offsetText colon hours minutes).rdropWhile (· == 'Z') = offsetText colon hours minutes := by
    rw [List.rdropWhile_eq_self_iff]
    intro hSome hLast
    obtain hDigit | hColon := offsetText_shown colon hours minutes (List.getLast_mem hSome)
    · rw [beq_iff_eq.mp hLast] at hDigit
      cases hDigit
    · rw [beq_iff_eq.mp hLast] at hColon
      cases hColon
  have hTrim : trim (offsetText colon hours minutes) = offsetText colon hours minutes := by
    refine trim_of_free fun c hMem => ?_
    obtain hDigit | rfl := offsetText_shown colon hours minutes hMem
    · exact digit_shown hDigit
    · decide
  have hSome : (offsetText colon hours minutes).isEmpty = false := by
    rw [List.isEmpty_eq_false_iff]
    exact List.ne_nil_of_length_pos (by rw [offsetText, List.length_append, List.length_append]; omega)
  rw [parseOffset, hZone, hTrim, hSome, if_neg Bool.false_ne_true]
  cases colon with
  | true =>
    rw [offsetText, if_pos rfl, List.append_assoc, List.singleton_append,
      span_at (digits_free (padded_digits 2 hours) rfl)]
    dsimp only
    rw [parseI64_padded (by decide) (by omega) (by omega), parseI64_padded (by decide) (by omega) (by omega)]
    rfl
  | false =>
    rw [offsetText, if_neg Bool.false_ne_true, List.append_nil,
      span_free (digits_free (fun c hMem =>
        (List.mem_append.mp hMem).elim (padded_digits 2 hours c) (padded_digits 2 minutes c)) rfl)]
    dsimp only
    rw [parseI64_joined hHours hMinutes]
    rfl

theorem Zone.text_offset (behind colon : Bool) (hours minutes : Nat) : (Zone.offset behind colon hours minutes).text
    = (if behind then '-' else '+') :: offsetText colon hours minutes := by
  rw [Zone.text, offsetText, List.cons_append, List.cons_append]

theorem Zone.millis_offset (behind colon : Bool) (hours minutes : Nat) : (Zone.offset behind colon hours minutes).millis
    = (if behind then -1 else 1)
      * ((offsetHours colon hours minutes : Int) * 3600000 + offsetMinutes colon minutes * 60000) := by
  rw [Zone.millis, offsetHours, offsetMinutes]
  cases colon
  · simp only [if_false, Bool.false_eq_true]
    push_cast
    rw [Int.add_zero]
  · rfl

namespace CivilText

def takeZone (millis : Int) (rest : Text) : Option Nat :=
  match rest with
  | '+' :: offset =>
    ((parseOffset offset).map fun (h, m) => i64 (millis - (h * 3600000 + m * 60000))).bind fun millis =>
      some millis.toNat
  | '-' :: offset =>
    ((parseOffset offset).map fun (h, m) => i64 (millis + (h * 3600000 + m * 60000))).bind fun millis =>
      some millis.toNat
  | _ => (some millis).bind fun millis => some millis.toNat

theorem takeZone_text (hValid : t.Valid) {millis : Int} (hBound : -(2 ^ 61) ≤ millis ∧ millis ≤ 2 ^ 61) :
    takeZone millis t.zone.text = some (millis - t.zone.millis).toNat := by
  have hZoneBound := hValid.zone_bound
  cases hZone : t.zone with
  | absent | utc => exact congrArg (some ·.toNat) (Int.sub_zero millis).symm
  | offset behind colon hours minutes =>
    obtain ⟨hHours, hMinutes⟩ := hValid.offset_lt behind colon hours minutes hZone
    have hRead := parseOffset_text hHours hMinutes colon
    rw [hZone, Zone.millis_offset] at hZoneBound
    rw [Zone.millis_offset, Zone.text_offset]
    generalize offsetText colon hours minutes = text at hRead ⊢
    cases behind with
    | true =>
      rw [if_pos rfl] at hZoneBound
      rw [if_pos rfl, if_pos rfl]
      change ((parseOffset text).map fun (h, m) => i64 (millis + (h * 3600000 + m * 60000))).bind (fun millis =>
        some millis.toNat) = _
      rw [hRead, Option.map_some, Option.bind_some]
      dsimp only
      rw [i64_of_bound (by omega) (by omega)]
      congr 2
      omega
    | false =>
      rw [if_neg Bool.false_ne_true] at hZoneBound
      rw [if_neg Bool.false_ne_true, if_neg Bool.false_ne_true]
      change ((parseOffset text).map fun (h, m) => i64 (millis - (h * 3600000 + m * 60000))).bind (fun millis =>
        some millis.toNat) = _
      rw [hRead, Option.map_some, Option.bind_some]
      dsimp only
      rw [i64_of_bound (by omega) (by omega), Int.one_mul]

theorem timeparse_text (hValid : t.Valid) : timeparse t.text = some t.instant.toNat := by
  obtain ⟨hYear, hMonth, hDay⟩ := numAt_date hValid
  obtain ⟨hHour, hMinute, hSecond⟩ := numAt_clock hValid
  have hLength := le_length_utf8_text hValid
  have hBound := hValid.number_bound
  have hHourLt := hValid.hour_lt
  have hMinuteLt := hValid.minute_lt
  have hSecondLt := hValid.second_lt
  have hFraction := hValid.fraction_bound
  rw [timeparse]
  dsimp only
  rw [if_neg (by omega), hYear, hMonth, hDay, hHour, hMinute, hSecond]
  simp only [Option.bind_eq_bind, Option.bind_some]
  rw [hValid.civilDays_eq, Option.bind_some, sliceFrom_text hValid, Option.bind_some]
  have hInstant : t.instant = (t.date.number * 86400 + t.hour * 3600 + t.minute * 60 + t.second) * 1000
      + (t.fraction.getD 0 : Int) - t.zone.millis := by
    rw [instant]
    omega
  have hRead := takeFraction_text hValid ((t.date.number * 86400 + t.hour * 3600 + t.minute * 60 + t.second) * 1000)
  refine (congrArg (fun read => takeZone read.1 read.2) hRead).trans ?_
  rw [hInstant]
  exact takeZone_text hValid (by dsimp only; omega)

end CivilText

end Session

/-! ### The parser of the scheduler -/

section Scheduler

variable {t : CivilText}

def takeClock (offset : Int) (time : Text) : Option (Int × Int) := do
  let parts := time.splitOn ':'
  if 3 < parts.length then none
  let hours ← parts.head?.bind parseI64
  let minutes ← (parts[1]?.map parseI64).getD (some 0)
  let secondsPart := parts[2]?.getD ['0']
  let (seconds, millis) ← match splitOnce '.' secondsPart with
    | some (seconds, fraction) => do
      let seconds ← parseI64 seconds
      let millis ← fractionPad fraction
      pure (seconds, millis)
    | none => (parseI64 secondsPart).map fun seconds => (seconds, 0)
  if 23 < hours ∨ 59 < minutes ∨ 59 < seconds then none
  return (hours * 3600000 + minutes * 60000 + seconds * 1000 + millis, offset)

theorem parseTimeWithOffset_eq (time : Text) : parseTimeWithOffset time =
    ((if time.getLast? = some 'Z' then some (time.dropLast, 0)
      else match splitLast '+' time with
        | some (before, zone) => (parseZoneOffset zone).map fun offset => (before, offset)
        | none => match time with
          | [] => none
          | first :: rest => match splitLast '-' rest with
            | some (before, zone) => (parseZoneOffset zone).map fun offset => (first :: before, offset)
            | none => some (time, 0)).bind fun read => takeClock read.2 read.1) := by
  unfold parseTimeWithOffset
  by_cases hUtc : time.getLast? = some 'Z'
  · rw [if_pos hUtc, if_pos hUtc]
    rfl
  · rw [if_neg hUtc, if_neg hUtc]
    rcases splitLast '+' time with _ | ⟨before, zone⟩
    · cases time with
      | nil => rfl
      | cons first rest =>
        dsimp only
        rcases splitLast '-' rest with _ | ⟨before, zone⟩
        · rfl
        · cases parseZoneOffset zone <;> rfl
    · cases parseZoneOffset zone <;> rfl

namespace CivilText

def clock (t : CivilText) : Text :=
  t.clockText ++ t.fractionText

variable {c : Char}

theorem fraction_shown (t : CivilText) (hMem : c ∈ t.fractionText) : c.isDigit = true ∨ c = '.' := by
  cases hFraction : t.fraction with
  | none =>
    rw [fractionText, hFraction] at hMem
    cases hMem
  | some fraction =>
    rw [fractionText, hFraction] at hMem
    obtain rfl | hDigit := List.mem_cons.mp hMem
    · exact Or.inr rfl
    · exact Or.inl (padded_digits 3 fraction c hDigit)

theorem clock_shown (t : CivilText) (hMem : c ∈ t.clock) : c.isDigit = true ∨ c = ':' ∨ c = '.' := by
  rw [clock, clockText, List.mem_append, List.mem_append, List.mem_append, List.mem_cons, List.mem_cons] at hMem
  obtain ((hHour | rfl | hMinute) | rfl | hSecond) | hFraction := hMem
  · exact Or.inl (padded_digits 2 _ c hHour)
  · exact Or.inr (Or.inl rfl)
  · exact Or.inl (padded_digits 2 _ c hMinute)
  · exact Or.inr (Or.inl rfl)
  · exact Or.inl (padded_digits 2 _ c hSecond)
  · exact (t.fraction_shown hFraction).imp_right Or.inr

theorem fractionPad_text {fraction : Nat} (hLt : fraction < 1000) :
    fractionPad (padded 3 fraction) = some (fraction : Int) := by
  have hDigits := padded_digits 3 fraction
  have hLength := length_padded (by decide) (show fraction < 10 ^ 3 by omega)
  have hAny : (padded 3 fraction).any (fun c => (digit? c).isNone) = false := by
    rw [List.any_eq_false]
    intro c hMem
    rw [digit?_eq (hDigits c hMem)]
    exact Bool.false_ne_true
  have hSome : (padded 3 fraction).isEmpty = false :=
    List.isEmpty_eq_false_iff.mpr (List.ne_nil_of_length_pos (by omega))
  rw [fractionPad, hAny, hSome, if_neg (by decide), List.rightpad, hLength, Nat.sub_self, List.replicate_zero,
    List.append_nil, List.take_of_length_le (by omega), parseI64_padded (by decide) (by omega) (by omega)]

theorem takeClock_text (hValid : t.Valid) (offset : Int) : takeClock offset t.clock
    = some ((t.hour * 3600000 + t.minute * 60000 + t.second * 1000 + t.fraction.getD 0 : Int), offset) := by
  have hHour := hValid.hour_lt
  have hMinute := hValid.minute_lt
  have hSecond := hValid.second_lt
  have hFree : ':' ∉ padded 2 t.second ++ t.fractionText := fun hMem => by
    obtain hDigit | hFraction := List.mem_append.mp hMem
    · exact digits_free (padded_digits 2 t.second) rfl hDigit
    · obtain hDigit | hDot := t.fraction_shown hFraction
      · cases hDigit
      · cases hDot
  have hParts : t.clock.splitOn ':' = [padded 2 t.hour, padded 2 t.minute, padded 2 t.second ++ t.fractionText] := by
    rw [clock, clockText, List.append_assoc, List.append_assoc, List.cons_append,
      List.splitOn_append_cons_self_of_not_mem (digits_free (padded_digits 2 t.hour) rfl), List.cons_append,
      List.splitOn_append_cons_self_of_not_mem (digits_free (padded_digits 2 t.minute) rfl),
      List.splitOn_eq_singleton hFree]
  rw [takeClock, hParts]
  dsimp only [List.length_cons, List.length_nil, List.head?_cons, List.getElem?_cons_succ, List.getElem?_cons_zero,
    Option.map_some, Option.getD_some]
  rw [if_neg (by decide), Option.bind_some, parseI64_padded (by decide) (show t.hour < 10 ^ 2 by omega) (by omega),
    parseI64_padded (by decide) (show t.minute < 10 ^ 2 by omega) (by omega)]
  simp only [Option.bind_eq_bind, Option.bind_some]
  have hSecondText := parseI64_padded (by decide) (show t.second < 10 ^ 2 by omega) (by omega)
  cases hFraction : t.fraction with
  | none =>
    rw [fractionText, hFraction]
    dsimp only
    rw [List.append_nil, splitOnce_none (digits_free (padded_digits 2 t.second) rfl)]
    dsimp only
    rw [hSecondText, Option.map_some, Option.bind_some, if_neg (by omega)]
    rfl
  | some fraction =>
    rw [fractionText, hFraction]
    dsimp only
    rw [splitOnce_append (digits_free (padded_digits 2 t.second) rfl)]
    dsimp only
    rw [hSecondText, fractionPad_text (hValid.fraction_lt fraction hFraction), Option.bind_some, Option.bind_some]
    dsimp only [Option.pure_def, Option.bind_some]
    rw [if_neg (by omega)]
    rfl

theorem splitOn_offsetText (hours minutes : Nat) :
    (offsetText true hours minutes).splitOn ':' = [padded 2 hours, padded 2 minutes] ∧
      (offsetText false hours minutes).splitOn ':' = [padded 2 hours ++ padded 2 minutes] := by
  constructor
  · rw [offsetText, if_pos rfl, List.append_assoc, List.singleton_append,
      List.splitOn_append_cons_self_of_not_mem (digits_free (padded_digits 2 hours) rfl),
      List.splitOn_eq_singleton (digits_free (padded_digits 2 minutes) rfl)]
  · rw [offsetText, if_neg Bool.false_ne_true, List.append_nil]
    refine List.splitOn_eq_singleton (digits_free (fun c hMem => ?_) rfl)
    exact (List.mem_append.mp hMem).elim (padded_digits 2 hours c) (padded_digits 2 minutes c)

theorem parseZoneOffset_text {behind : Bool} {hours minutes : Nat} (hHours : hours < 100) (hMinutes : minutes < 100)
    (colon : Bool) : parseZoneOffset ((if behind then '-' else '+') :: offsetText colon hours minutes)
      = some (Zone.offset behind colon hours minutes).millis := by
  obtain ⟨hColon, hJoined⟩ := splitOn_offsetText hours minutes
  have hHourText := parseI64_padded (by decide) (show hours < 10 ^ 2 by omega) (by omega)
  have hMinuteText := parseI64_padded (by decide) (show minutes < 10 ^ 2 by omega) (by omega)
  have hJoinedText := parseI64_joined hHours hMinutes
  cases colon with
  | true =>
    generalize offsetText true hours minutes = text at hColon ⊢
    cases behind <;>
    · simp only [parseZoneOffset, hColon, if_true, if_false, Bool.false_eq_true, List.head?_cons, Option.bind_some,
        List.getElem?_cons_succ, List.getElem?_cons_zero, Option.map_some, Option.getD_some, hHourText, hMinuteText,
        Option.bind_eq_bind, Option.pure_def, Zone.millis]
      refine congrArg some ?_
      omega
  | false =>
    generalize offsetText false hours minutes = text at hJoined ⊢
    cases behind <;>
    · simp only [parseZoneOffset, hJoined, if_true, if_false, Bool.false_eq_true, List.head?_cons, Option.bind_some,
        List.getElem?_cons_succ, List.getElem?_nil, Option.map_none, Option.getD_none, hJoinedText,
        Option.bind_eq_bind, Option.pure_def, Zone.millis]
      refine congrArg some ?_
      omega

theorem zone_marks (t : CivilText) : 'Z' ∉ t.clock ∧ '+' ∉ t.clock ∧ '-' ∉ t.clock := by
  refine ⟨?_, ?_, ?_⟩ <;>
  · intro hMem
    obtain hDigit | hColon | hDot := t.clock_shown hMem
    · cases hDigit
    · cases hColon
    · cases hDot

theorem offsetText_marks (colon : Bool) (hours minutes : Nat) : 'Z' ∉ offsetText colon hours minutes ∧
    '+' ∉ offsetText colon hours minutes ∧ '-' ∉ offsetText colon hours minutes := by
  refine ⟨?_, ?_, ?_⟩ <;>
  · intro hMem
    obtain hDigit | hColon := offsetText_shown colon hours minutes hMem
    · cases hDigit
    · cases hColon

theorem parseTimeWithOffset_text (hValid : t.Valid) : parseTimeWithOffset (t.clock ++ t.zone.text)
    = some ((t.hour * 3600000 + t.minute * 60000 + t.second * 1000 + t.fraction.getD 0 : Int), t.zone.millis) := by
  obtain ⟨hUtc, hAhead, hBehind⟩ := t.zone_marks
  have hRead := takeClock_text hValid
  obtain ⟨first, rest, hCons⟩ : ∃ first rest, t.clock = first :: rest :=
    List.exists_cons_of_ne_nil (List.ne_nil_of_length_pos (by
      rw [clock, List.length_append, hValid.length_clockText]
      omega))
  have hLast {text : Text} (hNone : 'Z' ∉ text) : text.getLast? ≠ some 'Z' := fun hEq =>
    hNone (List.mem_of_getLast? hEq)
  rw [parseTimeWithOffset_eq]
  cases hZone : t.zone with
  | absent =>
    rw [Zone.text, List.append_nil, if_neg (hLast hUtc), splitLast_none hAhead]
    rw [hCons] at hBehind hRead ⊢
    dsimp only
    rw [splitLast_none fun hMem => hBehind (List.mem_cons_of_mem _ hMem)]
    rw [Option.bind_some, hRead, Zone.millis]
  | utc =>
    rw [Zone.text, List.getLast?_concat, if_pos rfl, List.dropLast_concat]
    rw [Option.bind_some, hRead, Zone.millis]
  | offset behind colon hours minutes =>
    obtain ⟨hHours, hMinutes⟩ := hValid.offset_lt behind colon hours minutes hZone
    obtain ⟨hUtc', hAhead', hBehind'⟩ := offsetText_marks colon hours minutes
    have hOffset := @parseZoneOffset_text behind hours minutes hHours hMinutes colon
    rw [Zone.text_offset]
    cases behind with
    | true =>
      rw [if_pos rfl] at hOffset ⊢
      rw [if_neg (hLast (by simp [hUtc, hUtc'])), splitLast_none (by simp [hAhead, hAhead'])]
      rw [hCons] at hBehind hRead ⊢
      dsimp only [List.cons_append]
      rw [splitLast_append hBehind']
      dsimp only
      rw [hOffset, Option.map_some, Option.bind_some, hRead]
    | false =>
      rw [if_neg Bool.false_ne_true] at hOffset ⊢
      rw [if_neg (hLast (by simp [hUtc, hUtc'])), splitLast_append hAhead']
      dsimp only
      rw [hOffset, Option.map_some, Option.bind_some, hRead]

theorem dateText_free (t : CivilText) : 'T' ∉ t.dateText := by
  intro hMem
  rw [dateText, List.mem_append, List.mem_append, List.mem_cons, List.mem_cons] at hMem
  obtain (hYear | hDash | hMonth) | hDash | hDay := hMem
  · cases padded_digits 4 _ _ hYear
  · cases hDash
  · cases padded_digits 2 _ _ hMonth
  · cases hDash
  · cases padded_digits 2 _ _ hDay

theorem text_shown (t : CivilText) (hMem : c ∈ t.text) : isWhitespace c = false := by
  rw [text, dateText, List.append_assoc, List.append_assoc, List.mem_append, List.mem_append, List.mem_append,
    List.mem_cons, List.mem_cons, List.cons_append, List.mem_cons, ← List.append_assoc, List.mem_append] at hMem
  obtain ((hYear | rfl | hMonth) | rfl | hDay) | rfl | hClock | hZone := hMem
  · exact digit_shown (padded_digits 4 _ _ hYear)
  · decide
  · exact digit_shown (padded_digits 2 _ _ hMonth)
  · decide
  · exact digit_shown (padded_digits 2 _ _ hDay)
  · decide
  · obtain hDigit | rfl | rfl := t.clock_shown hClock
    · exact digit_shown hDigit
    · decide
    · decide
  · cases hKind : t.zone with
    | absent =>
      rw [hKind] at hZone
      cases hZone
    | utc =>
      rw [hKind] at hZone
      rw [List.mem_singleton.mp hZone]
      decide
    | offset behind colon hours minutes =>
      rw [hKind, Zone.text_offset] at hZone
      obtain rfl | hOffset := List.mem_cons.mp hZone
      · cases behind <;> decide
      · obtain hDigit | rfl := offsetText_shown colon hours minutes hOffset
        · exact digit_shown hDigit
        · decide

theorem parseIsoMillis_text (hValid : t.Valid) :
    parseIsoMillis (String.ofList t.text) = some (t.instant % 2 ^ 64).toNat := by
  have hMonthPos : 1 ≤ t.month := hValid.date.month_pos
  have hMonthLe : t.month ≤ 12 := hValid.date.month_le
  have hDayPos : 1 ≤ t.day := hValid.date.day_pos
  have hDayLe := hValid.day_le
  have hYear := hValid.year_lt
  have hTrim : trim t.text = t.text := trim_of_free fun c hMem => t.text_shown hMem
  have hSplit : splitOnce 'T' t.text = some (t.dateText, t.clock ++ t.zone.text) := by
    rw [text, clock, List.append_assoc, List.append_assoc, List.cons_append]
    rw [splitOnce_append t.dateText_free, List.append_assoc]
  have hDate : t.dateText.splitOn '-' = [padded 4 t.year, padded 2 t.month, padded 2 t.day] := by
    rw [dateText, List.append_assoc, List.cons_append,
      List.splitOn_append_cons_self_of_not_mem (digits_free (padded_digits 4 t.year) rfl),
      List.splitOn_append_cons_self_of_not_mem (digits_free (padded_digits 2 t.month) rfl),
      List.splitOn_eq_singleton (digits_free (padded_digits 2 t.day) rfl)]
  rw [parseIsoMillis, String.toList_ofList, hTrim, hSplit]
  dsimp only [Option.bind_eq_bind, Option.bind_some]
  rw [hDate]
  dsimp only
  rw [parseI64_padded (by decide) hYear (by omega),
    parseUnsigned_padded (by decide) (show t.month < 10 ^ 2 by omega) (by omega),
    parseUnsigned_padded (by decide) (show t.day < 10 ^ 2 by omega) (by omega), Option.bind_some, Option.bind_some,
    Option.bind_some,
    if_neg (by omega), parseTimeWithOffset_text hValid]
  have hYearIs : (if t.month ≤ 2 then i64 ((t.year : Int) - 1) else t.year)
      = if (t.month : Int) ≤ 2 then (t.year : Int) - 1 else t.year := by
    rw [i64_of_bound (by omega) (by omega)]
    split <;> split <;> omega
  have hMonthIs : ((if 2 < t.month then t.month - 3 else t.month + 9 : Nat) : Int)
      = if 2 < (t.month : Int) then (t.month : Int) - 3 else t.month + 9 := by
    split <;> split <;> omega
  have hNumber := hValid.civilNumber_eq
  rw [Calendar.civilNumber, ← hYearIs, ← hMonthIs] at hNumber
  rw [instant, ← hNumber, Option.bind_some, Option.pure_def]
  dsimp only
  generalize (if t.month ≤ 2 then i64 ((t.year : Int) - 1) else t.year) = y
  generalize (if 2 < t.month then t.month - 3 else t.month + 9 : Nat) = mp
  refine congrArg (fun n : Int => some (n % 2 ^ 64).toNat) ?_
  omega

end CivilText

end Scheduler

/-! ### The formatter -/

section Formatter

def civilOf (ms : Nat) : CivilText :=
  let date := Calendar.dateOf (ms / 86400000 : Nat)
  ⟨date.year.toNat, date.month, date.day, ms % 86400000 / 3600000, ms % 86400000 / 60000 % 60,
    ms % 86400000 / 1000 % 60,
    some (ms % 1000), .utc⟩

variable {ms : Nat}

section

variable (hLast : ms < 253402300800000)

include hLast

theorem dateOf_year : 0 ≤ (Calendar.dateOf (ms / 86400000 : Nat)).year ∧
    (Calendar.dateOf (ms / 86400000 : Nat)).year < 10000 := by
  obtain ⟨hNumber, hValid⟩ := Calendar.number_dateOf (ms / 86400000 : Nat)
  generalize Calendar.dateOf (ms / 86400000 : Nat) = date at *
  have hMonthPos : 1 ≤ date.month := hValid.month_pos
  have hMonthLe : date.month ≤ 12 := hValid.month_le
  have hDayPos : 1 ≤ date.day := hValid.day_pos
  have hDayLe := hValid.day_le
  have hLength := Calendar.daysInMonth_le date.year date.month
  rw [← Calendar.civilNumber_eq hMonthPos hMonthLe, Calendar.civilNumber] at hNumber
  split at hNumber <;> split at hNumber <;> omega

theorem civilOf_date : (civilOf ms).date = Calendar.dateOf (ms / 86400000 : Nat) := by
  have hYear := (dateOf_year hLast).1
  rw [CivilText.date, civilOf]
  dsimp only
  rw [Int.toNat_of_nonneg hYear]

theorem civilOf_valid : (civilOf ms).Valid := by
  have hYear := (dateOf_year hLast).2
  constructor
  · rw [civilOf]
    dsimp only
    omega
  · rw [civilOf_date hLast]
    exact (Calendar.number_dateOf _).2
  · rw [civilOf]
    dsimp only
    omega
  · exact Nat.mod_lt _ (by decide)
  · exact Nat.mod_lt _ (by decide)
  · intro fraction hFraction
    obtain rfl : ms % 1000 = fraction := Option.some.inj hFraction
    exact Nat.mod_lt _ (by decide)
  · intro behind colon hours minutes hZone
    cases hZone

theorem civilOf_instant : (civilOf ms).instant = ms := by
  have hNumber := (Calendar.number_dateOf (ms / 86400000 : Nat)).1
  rw [CivilText.instant, civilOf_date hLast, hNumber, civilOf, Zone.millis]
  dsimp only [Option.getD_some]
  omega

theorem formatIso_eq : formatIso ms = String.ofList (civilOf ms).text := by
  have hDays : (ms : Int) / 86400000 = (ms / 86400000 : Nat) := by omega
  have hYear := (dateOf_year hLast).1
  have hZ : (0 : Int) ≤ (ms / 86400000 : Nat) + 719468 := by omega
  have hDoe := Int.emod_nonneg ((ms / 86400000 : Nat) + 719468 : Int) (show (146097 : Int) ≠ 0 by decide)
  have hDoeLt := Int.emod_lt_of_pos ((ms / 86400000 : Nat) + 719468 : Int) (show (0 : Int) < 146097 by decide)
  have hMod : ((ms / 86400000 : Nat) + 719468 : Int) - ((ms / 86400000 : Nat) + 719468 : Int) / 146097 * 146097
      = ((ms / 86400000 : Nat) + 719468 : Int) % 146097 := by omega
  rw [Calendar.dateOf] at hYear
  rw [formatIso, hDays, civilOf, Calendar.dateOf]
  dsimp only at hYear ⊢
  rw [if_pos hZ, Int.tdiv_eq_ediv_of_nonneg hZ, hMod]
  generalize ((ms / 86400000 : Nat) + 719468 : Int) / 146097 = era at *
  generalize ((ms / 86400000 : Nat) + 719468 : Int) % 146097 = doe at *
  rw [Int.tdiv_eq_ediv_of_nonneg hDoe, Int.tdiv_eq_ediv_of_nonneg hDoe, Int.tdiv_eq_ediv_of_nonneg hDoe]
  obtain ⟨doe, rfl⟩ := Int.eq_ofNat_of_zero_le hDoe
  obtain ⟨-, hFrom, hTo⟩ := Calendar.yearOfEra_spec (show doe < 146097 by omega)
  have hNum : 0 ≤ (doe : Int) - doe / 1460 + doe / 36524 - doe / 146096 := by omega
  have hYear' : ((doe : Int) - doe / 1460 + doe / 36524 - doe / 146096) / 365 = (Calendar.yearOfEra doe : Int) := by
    rw [Calendar.yearOfEra]
    omega
  rw [Int.tdiv_eq_ediv_of_nonneg hNum]
  rw [hYear'] at hYear ⊢
  generalize Calendar.yearOfEra doe = yoe at *
  have hYoe : (0 : Int) ≤ yoe := Int.natCast_nonneg yoe
  rw [Int.tdiv_eq_ediv_of_nonneg hYoe, Int.tdiv_eq_ediv_of_nonneg hYoe]
  have hDoy : 0 ≤ (doe : Int) - (365 * yoe + (yoe : Int) / 4 - (yoe : Int) / 100) := by
    unfold Calendar.yearStart at hFrom
    omega
  generalize (doe : Int) - (365 * yoe + (yoe : Int) / 4 - (yoe : Int) / 100) = doy at *
  rw [Int.tdiv_eq_ediv_of_nonneg (by omega : 0 ≤ 5 * doy + 2)]
  have hDay : 0 ≤ doy - (153 * ((5 * doy + 2) / 153) + 2) / 5 + 1 := by omega
  have hMp : 0 ≤ (5 * doy + 2) / 153 := by omega
  generalize (5 * doy + 2) / 153 = mp at *
  have hMonth : 0 ≤ if mp < 10 then mp + 3 else mp - 9 := by
    split <;> omega
  rw [Int.tdiv_eq_ediv_of_nonneg (by omega : 0 ≤ 153 * mp + 2), CivilText.text, CivilText.dateText,
    CivilText.clockText, CivilText.fractionText, Zone.text]
  dsimp only
  rw [Int.toNat_of_nonneg hYear, Int.toNat_of_nonneg hMonth, Int.toNat_of_nonneg hDay,
    show (ms : Int) % 86400000 % 1000 = (ms % 1000 : Nat) by omega]
  simp only [List.append_assoc, List.cons_append]
  rfl

end

end Formatter

theorem parsers_agree_iff {ms : Nat} (hLast : ms < 253402300800000) {t : CivilText} (hValid : t.Valid) :
    (timestampToMillis (formatIso ms) = ms ∧ parseIsoMillis (formatIso ms) = some ms) ∧
    (parseIsoMillis (String.ofList t.text) = some (timestampToMillis (String.ofList t.text)) ↔ 0 ≤ t.instant) := by
  constructor
  · have hCivil := civilOf_valid hLast
    have hInstant := civilOf_instant hLast
    rw [formatIso_eq hLast, CivilText.parseIsoMillis_text hCivil, timestampToMillis, String.toList_ofList,
      CivilText.timeparse_text hCivil, hInstant, Option.getD_some]
    refine ⟨rfl, congrArg some ?_⟩
    omega
  · obtain ⟨hLow, hHigh⟩ := hValid.instant_bound
    rw [CivilText.parseIsoMillis_text hValid, timestampToMillis, String.toList_ofList, CivilText.timeparse_text hValid,
      Option.getD_some, Option.some_inj]
    omega

theorem parsers_agree_leap : timestampToMillis (formatIso (1709251199250 : Nat)) = 1709251199250 ∧
    (parseIsoMillis "2024-02-29T23:59:59.250+05:30" = some (timestampToMillis "2024-02-29T23:59:59.250+05:30")) := by
  have hValid : CivilText.Valid ⟨2024, 2, 29, 23, 59, 59, some 250, .offset false true 5 30⟩ := by
    refine ⟨by decide, ⟨by decide, by decide, by decide, by decide⟩, by decide, by decide, by decide, ?_, ?_⟩
    · rintro _ ⟨⟩
      decide
    · rintro _ _ _ _ ⟨⟩
      decide
  obtain ⟨⟨hBack, -⟩, hAgree⟩ := @parsers_agree_iff 1709251199250 (by decide) _ hValid
  exact ⟨hBack, hAgree.mpr (by decide)⟩

theorem parsers_differ : ∃ t : CivilText, t.Valid ∧ String.ofList t.text = "1969-12-31T23:59:59Z" ∧
    timestampToMillis (String.ofList t.text) = 0 ∧
    parseIsoMillis (String.ofList t.text) = some 18446744073709550616 := by
  refine ⟨⟨1969, 12, 31, 23, 59, 59, none, .utc⟩, ?_, by decide +kernel, by decide +kernel, by decide +kernel⟩
  refine ⟨by decide, ⟨by decide, by decide, by decide, by decide⟩, by decide, by decide, by decide, ?_, ?_⟩
  · rintro _ ⟨⟩
  · rintro _ _ _ _ ⟨⟩

end PrimeAgent
