import PrimeAgent.Cron.IsoRoundTrip
import PrimeAgent.Cron.NextRun

/-! # What a schedule's text denotes

The parser gives the first run that the text denotes wherever its sums stay in their types, its slices in the text,
  and a
date is neither before 1970 nor misread.
-/
namespace PrimeAgent

section Sums

/-- Sums and products that stay inside `i64`. -/
def Fits64 (sums : List Int) : Prop :=
  ∀ n ∈ sums, -(2 ^ 63) ≤ n ∧ n < 2 ^ 63

instance (sums : List Int) : Decidable (Fits64 sums) :=
  inferInstanceAs (Decidable (∀ n ∈ sums, _ ∧ _))

theorem fits64_nil : Fits64 [] :=
  nofun

variable {sums : List Int}

theorem fits64_cons {n : Int} :
    Fits64 (n :: sums) ↔ (-(2 ^ 63) ≤ n ∧ n < 2 ^ 63) ∧ Fits64 sums :=
  List.forall_mem_cons

theorem checkI64_bind {β : Type} (n : Int) {f : Int → Option β} {b : β}
    (hRest : f n = if Fits64 sums then some b else none) :
    (checkI64 n).bind f = if Fits64 (n :: sums) then some b else none := by
  rw [checkI64]
  by_cases hFits : -(2 ^ 63) ≤ n ∧ n < 2 ^ 63
  · rw [if_pos hFits, Option.bind_some, hRest]
    by_cases hSums : Fits64 sums
    · rw [if_pos hSums, if_pos (fits64_cons.mpr ⟨hFits, hSums⟩)]
    · rw [if_neg hSums, if_neg fun h => hSums (fits64_cons.mp h).2]
  · rw [if_neg hFits, if_neg fun h => hFits (fits64_cons.mp h).1]
    rfl

theorem checkI64_last (n : Int) : checkI64 n = if Fits64 [n] then some n else none := by
  rw [checkI64]
  by_cases hFits : -(2 ^ 63) ≤ n ∧ n < 2 ^ 63
  · rw [if_pos hFits, if_pos (fits64_cons.mpr ⟨hFits, fits64_nil⟩)]
  · rw [if_neg hFits, if_neg fun h => hFits (fits64_cons.mp h).1]

def marchYear (year : Int) (month : Nat) : Int :=
  if month ≤ 2 then year - 1 else year

def daySums (year : Int) (month day : Nat) : List Int :=
  [marchYear year month, marchYear year month / 400 * 146097,
    Calendar.civilNumber year month day + 719468, Calendar.civilNumber year month day]

def zoneSums (sign hours minutes : Int) : List Int :=
  [hours * 60, hours * 60 + minutes, sign * (hours * 60 + minutes), sign * (hours * 60 + minutes) * 60000]

def clockSums (hours minutes seconds millis : Int) : List Int :=
  [hours * 3600000, minutes * 60000, hours * 3600000 + minutes * 60000, seconds * 1000,
    hours * 3600000 + minutes * 60000 + seconds * 1000, hours * 3600000 + minutes * 60000 + seconds * 1000 + millis]

def instantSums (days clock offset : Int) : List Int :=
  [days * 24, days * 24 * 60, days * 24 * 60 * 60, days * 24 * 60 * 60 * 1000, days * 24 * 60 * 60 * 1000 + clock,
    days * 24 * 60 * 60 * 1000 + clock - offset]

theorem zoneChecked_eq (sign hours minutes : Int) : zoneChecked sign hours minutes =
    if Fits64 (zoneSums sign hours minutes) then some (sign * (hours * 60 + minutes) * 60000) else none :=
  checkI64_bind _ (checkI64_bind _ (checkI64_bind _ (checkI64_last _)))

theorem clockChecked_eq (hours minutes seconds millis : Int) : clockChecked hours minutes seconds millis =
    if Fits64 (clockSums hours minutes seconds millis) then
      some (hours * 3600000 + minutes * 60000 + seconds * 1000 + millis) else none :=
  checkI64_bind _ (checkI64_bind _ (checkI64_bind _ (checkI64_bind _ (checkI64_bind _ (checkI64_last _)))))

theorem instantChecked_eq (days clock offset : Int) : instantChecked days clock offset =
    if Fits64 (instantSums days clock offset) then some (days * 24 * 60 * 60 * 1000 + clock - offset) else none :=
  checkI64_bind _ (checkI64_bind _ (checkI64_bind _ (checkI64_bind _ (checkI64_bind _ (checkI64_last _)))))

theorem civilNumber_march (year : Int) (month day : Nat) (hMonth : 1 ≤ month) (hDay : 1 ≤ day) :
    Calendar.civilNumber year month day + 719468 = marchYear year month / 400 * 146097
      + (marchYear year month % 400 * 365 + marchYear year month % 400 / 4 - marchYear year month % 400 / 100
        + ((153 * (if 2 < month then month - 3 else month + 9) + 2) / 5 + day - 1 : Nat)) := by
  have hYearIs : (if (month : Int) ≤ 2 then year - 1 else year) = marchYear year month := by
    rw [marchYear]
    split <;> split <;> omega
  have hMonthIs : (if 2 < (month : Int) then (month : Int) - 3 else month + 9)
      = ((if 2 < month then month - 3 else month + 9 : Nat) : Int) := by
    split <;> split <;> omega
  rw [Calendar.civilNumber, hYearIs, hMonthIs]
  generalize marchYear year month = y
  generalize (if 2 < month then month - 3 else month + 9 : Nat) = mp
  omega

theorem daysChecked_eq {year : Int} {month day : Nat} (hYear : -(2 ^ 63) ≤ year ∧ year < 2 ^ 63)
    (hMonth : 1 ≤ month ∧ month ≤ 12) (hDay : 1 ≤ day) : daysChecked year month day =
    if Fits64 (daySums year month day) then some (Calendar.civilNumber year month day) else none := by
  have hMarch (f : Int → Option Int) : (if month ≤ 2 then (checkI64 (year - 1)).bind f else (some year).bind f)
      = (checkI64 (marchYear year month)).bind f := by
    rw [marchYear]
    split
    · rfl
    · rw [checkI64, if_pos hYear]
  have hNumber := civilNumber_march year month day hMonth.1 hDay
  rw [daysChecked]
  refine (hMarch _).trans (checkI64_bind _ (checkI64_bind _ ?_))
  rw [← hNumber]
  refine checkI64_bind _ ?_
  rw [Int.add_sub_cancel]
  exact checkI64_last _

end Sums

section Dates

def zoneOffset : Option Text → Option Int
  | none => some 0
  | some zone => (readZone zone).map fun (sign, hours, minutes) => sign * (hours * 60 + minutes) * 60000

def writtenOffset : Option Text → Option Int
  | none => some 0
  | some zone => (readZone zone).map fun (sign, hours, minutes) =>
    if (zone.drop 1).all Char.isDigit ∧ (zone.drop 1).length = 4 then sign * (hours / 100 * 60 + hours % 100) * 60000
    else sign * (hours * 60 + minutes) * 60000

def offsetSums : Option Text → List Int
  | none => []
  | some zone => match readZone zone with
    | none => []
    | some (sign, hours, minutes) => zoneSums sign hours minutes

def clockMillis : Int × Int × Int × Int → Int
  | (hours, minutes, seconds, millis) => hours * 3600000 + minutes * 60000 + seconds * 1000 + millis

def clockFieldSums : Int × Int × Int × Int → List Int
  | (hours, minutes, seconds, millis) => clockSums hours minutes seconds millis

def IsDay (year : Int) (month day : Nat) : Prop :=
  day ≤ Calendar.daysInMonth year month

def IsClock : Int × Int × Int × Int → Prop
  | (hours, minutes, seconds, _) => 0 ≤ hours ∧ 0 ≤ minutes ∧ 0 ≤ seconds

inductive DatesAt (text : Text) : Int → Prop where
  | intro {year : Int} {month day : Nat} {time before : Text} {zone : Option Text} {clock : Int × Int × Int × Int}
      {offset : Int} (date : readDay (trim text) = some (year, month, day, time)) (isDay : IsDay year month day)
      (split : splitZone time = some (before, zone)) (written : writtenOffset zone = some offset)
      (read : readClock before = some clock) (isClock : IsClock clock) :
      DatesAt text ((⟨year, month, day⟩ : Calendar.Date).number * 86400000 + clockMillis clock - offset)

/-- What the parser takes of a date: its sums fit, the time begins with one byte or shows its offset, the instant is not
before 1970, and a date in the future is one that the calendar has, with an offset that is read as it is written. -/
def DateSound (text : Text) (now : Nat) : Prop :=
  ∀ year month day time, readDay (trim text) = some (year, month, day, time) →
    Fits64 (daySums year month day) ∧ ∃ before zone, splitZone time = some (before, zone) ∧ Fits64 (offsetSums zone) ∧
      ∀ offset clock, zoneOffset zone = some offset → readClock before = some clock →
        Fits64 (clockFieldSums clock) ∧
        Fits64 (instantSums (Calendar.civilNumber year month day) (clockMillis clock) offset) ∧
        0 ≤ Calendar.civilNumber year month day * 86400000 + clockMillis clock - offset ∧
        (now < Calendar.civilNumber year month day * 86400000 + clockMillis clock - offset →
          IsDay year month day ∧ IsClock clock ∧ writtenOffset zone = some offset)

variable {text : Text} {year : Int} {month day : Nat} {time : Text} {sign hours minutes : Int} {zone : Option Text}
  {before : Text} {clock : Int × Int × Int × Int} {instant : Int}

theorem parseI64_bound {n : Int} (hParse : parseI64 text = some n) : -(2 ^ 63) ≤ n ∧ n < 2 ^ 63 := by
  have hFilter {empty : Bool} {value : Option Int} (hValue : (if empty = true then none
      else value.filter fun n => decide (-(2 ^ 63) ≤ n ∧ n < 2 ^ 63)) = some n) : -(2 ^ 63) ≤ n ∧ n < 2 ^ 63 := by
    split at hValue
    · cases hValue
    · exact of_decide_eq_true (Option.filter_eq_some_iff.mp hValue).2
  rw [parseI64.eq_def] at hParse
  dsimp only at hParse
  split at hParse
  · exact hFilter hParse
  · exact hFilter hParse
  · exact hFilter hParse

theorem readDay_bounds (hDay : readDay text = some (year, month, day, time)) :
    (-(2 ^ 63) ≤ year ∧ year < 2 ^ 63) ∧ (1 ≤ month ∧ month ≤ 12) ∧ 1 ≤ day := by
  obtain ⟨⟨date, time'⟩, hSplit, hDay⟩ := Option.bind_eq_some_iff.mp hDay
  dsimp only at hDay
  split at hDay
  · obtain ⟨year', hYear, hDay⟩ := Option.bind_eq_some_iff.mp hDay
    obtain ⟨month', hMonth, hDay⟩ := Option.bind_eq_some_iff.mp hDay
    obtain ⟨day', hDayNumber, hDay⟩ := Option.bind_eq_some_iff.mp hDay
    split at hDay
    · cases hDay
    · rename_i hRange
      cases hDay
      exact ⟨parseI64_bound hYear, by omega, by omega⟩
  · cases hDay

theorem clockChecked_shown (offset : Int) (before : Text) : (match some offset, readClock before with
    | some offset, some (hours, minutes, seconds, millis) =>
      (clockChecked hours minutes seconds millis).map fun clock => some (clock, offset)
    | _, _ => some none) = match some offset, readClock before with
    | some offset, some clock => if Fits64 (clockFieldSums clock) then some (some (clockMillis clock,
      offset)) else none
    | _, _ => some none := by
  rcases readClock before with _ | ⟨hours, minutes, seconds, millis⟩
  · rfl
  · dsimp only
    rw [clockChecked_eq, clockFieldSums, clockMillis]
    split <;> rfl

theorem parseTimeChecked_eq (time : Text) : parseTimeChecked time =
    match splitZone time with
    | none => none
    | some (before, zone) => if Fits64 (offsetSums zone) then
        match zoneOffset zone, readClock before with
        | some offset, some clock => if Fits64 (clockFieldSums clock) then some (some (clockMillis clock,
          offset)) else none
        | _, _ => some none
      else none := by
  rw [parseTimeChecked]
  rcases splitZone time with _ | ⟨before, zone⟩
  · rfl
  · rcases zone with _ | zone
    · unfold offsetSums zoneOffset
      dsimp only
      rw [if_pos fits64_nil]
      exact clockChecked_shown 0 before
    · unfold offsetSums zoneOffset
      rcases hZone : readZone zone with _ | ⟨sign, hours, minutes⟩
      · simp only [Option.bind_eq_bind, Option.bind_some, hZone, Option.map_none]
        rw [if_pos fits64_nil]
      · simp only [Option.bind_eq_bind, Option.bind_some, hZone, Option.map_some]
        rw [zoneChecked_eq]
        by_cases hFits : Fits64 (zoneSums sign hours minutes)
        · rw [if_pos hFits, if_pos hFits]
          exact clockChecked_shown _ before
        · rw [if_neg hFits, if_neg hFits]
          rfl

theorem parseIsoChecked_eq (text : Text) : parseIsoChecked text =
    match readDay (trim text) with
    | none => some none
    | some (year, month, day, time) => if Fits64 (daySums year month day) then
        match parseTimeChecked time with
        | none => none
        | some none => some none
        | some (some (clock, offset)) =>
          if Fits64 (instantSums (Calendar.civilNumber year month day) clock offset) then
            some (some ((Calendar.civilNumber year month day * 86400000 + clock - offset) % 2 ^ 64).toNat)
          else none
      else none := by
  rw [parseIsoChecked]
  rcases hDay : readDay (trim text) with _ | ⟨year, month, day, time⟩
  · rfl
  · obtain ⟨hYear, hMonth, hDayPos⟩ := readDay_bounds hDay
    dsimp only
    rw [daysChecked_eq hYear hMonth hDayPos]
    split
    · rcases parseTimeChecked time with _ | _ | ⟨clock, offset⟩
      · rfl
      · rfl
      · change (instantChecked (Calendar.civilNumber year month day) clock offset).bind _ = _
        rw [instantChecked_eq]
        dsimp only
        split
        · rw [Option.bind_some]
          rw [show Calendar.civilNumber year month day * 24 * 60 * 60 * 1000 = Calendar.civilNumber year month day *
            86400000 by omega]
          rfl
        · rfl
    · rfl

theorem ofDigitChars_lt {ds : Text} (hDigits : IsDigits ds) : Nat.ofDigitChars 10 ds 0 < 10 ^ ds.length := by
  induction ds with
  | nil => decide
  | cons c ds ih =>
    have hDigit := hDigits c List.mem_cons_self
    rw [Char.isDigit, Bool.and_eq_true, decide_eq_true_eq, decide_eq_true_eq] at hDigit
    have hHigh : c.toNat ≤ 57 := hDigit.2
    have hRest := ih fun d hMem => hDigits d (List.mem_cons_of_mem c hMem)
    rw [Nat.ofDigitChars_cons, Nat.ofDigitChars_eq_ofDigitChars_zero, List.length_cons, Nat.pow_succ]
    have hValue : 10 * 0 + (c.toNat - '0'.toNat) ≤ 9 := by
      change 10 * 0 + (c.toNat - 48) ≤ 9
      omega
    have hFirst := Nat.mul_le_mul_left (10 ^ ds.length) hValue
    omega

theorem readZone_sign {zone : Text} (hZone : readZone zone = some (sign, hours, minutes)) :
    (sign = 1 ∨ sign = -1) ∧ (((zone.drop 1).splitOn ':').head?.bind parseI64) = some hours ∧
      ((((zone.drop 1).splitOn ':')[1]?.map parseI64).getD (some 0)) = some minutes := by
  rw [readZone.eq_def] at hZone
  dsimp only at hZone
  split at hZone
  · obtain ⟨hours', hHours, hZone⟩ := Option.bind_eq_some_iff.mp hZone
    obtain ⟨minutes', hMinutes, hZone⟩ := Option.bind_eq_some_iff.mp hZone
    cases hZone
    exact ⟨Or.inl rfl, hHours, hMinutes⟩
  · obtain ⟨hours', hHours, hZone⟩ := Option.bind_eq_some_iff.mp hZone
    obtain ⟨minutes', hMinutes, hZone⟩ := Option.bind_eq_some_iff.mp hZone
    cases hZone
    exact ⟨Or.inr rfl, hHours, hMinutes⟩
  · cases hZone

theorem readZone_digits {zone : Text} (hZone : readZone zone = some (sign, hours, minutes))
    (hDigits : IsDigits (zone.drop 1)) (hLength : (zone.drop 1).length = 4) :
    (sign = 1 ∨ sign = -1) ∧ 0 ≤ hours ∧ hours < 10000 ∧ minutes = 0 := by
  obtain ⟨hSign, hHours, hMinutes⟩ := readZone_sign hZone
  have hSome : zone.drop 1 ≠ [] := List.ne_nil_of_length_eq_add_one hLength
  have hBound := ofDigitChars_lt hDigits
  rw [hLength] at hBound
  rw [List.splitOn_eq_singleton (digits_free hDigits rfl)] at hHours hMinutes
  rw [List.head?_cons, Option.bind_some, parseI64_digits hDigits hSome (Nat.lt_trans hBound (by decide)),
    Option.some.injEq] at hHours
  exact ⟨hSign, by omega, by omega, (Option.some.inj hMinutes).symm⟩

theorem le_writtenOffset {offset read : Int} (hWritten : writtenOffset zone = some offset)
    (hRead : zoneOffset zone = some read) : read - 2 ^ 62 < offset := by
  rcases zone with _ | zone
  · cases hWritten
    cases hRead
    decide
  · obtain ⟨⟨sign, hours, minutes⟩, hZone, hRead⟩ := Option.map_eq_some_iff.mp hRead
    rw [writtenOffset, hZone, Option.map_some, Option.some.injEq] at hWritten
    dsimp only at hWritten hRead
    split at hWritten
    · rename_i hFour
      obtain ⟨rfl | rfl, hLow, hHigh, rfl⟩ := readZone_digits hZone (List.all_eq_true.mp hFour.1) hFour.2
      · omega
      · omega
    · rw [← hWritten, ← hRead]
      exact Int.sub_lt_self _ (by decide)

theorem datesAt_iff (hDay : readDay (trim text) = some (year, month, day, time))
    (hSplit : splitZone time = some (before, zone)) (hClock : readClock before = some clock) : DatesAt text instant ↔
      IsDay year month day ∧ IsClock clock ∧ ∃ offset, writtenOffset zone = some offset ∧
        instant = Calendar.civilNumber year month day * 86400000 + clockMillis clock - offset := by
  obtain ⟨-, hMonth, -⟩ := readDay_bounds hDay
  have hNumber := @Calendar.civilNumber_eq ⟨year, month, day⟩ hMonth.1 hMonth.2
  dsimp only at hNumber
  rw [hNumber]
  constructor
  · rintro ⟨hDay', hIsDay, hSplit', hWritten, hClock', hIsClock⟩
    rw [hDay] at hDay'
    cases hDay'
    rw [hSplit] at hSplit'
    cases hSplit'
    rw [hClock] at hClock'
    cases hClock'
    exact ⟨hIsDay, hIsClock, _, hWritten, rfl⟩
  · rintro ⟨hIsDay, hIsClock, offset, hWritten, rfl⟩
    exact ⟨hDay, hIsDay, hSplit, hWritten, hClock, hIsClock⟩

theorem instant_iff (hDay : readDay (trim text) = some (year, month, day, time))
    (hSplit : splitZone time = some (before, zone)) (hClock : readClock before = some clock) {offset : Int}
    (hOffset : zoneOffset zone = some offset) {now : Nat} (hNow : now < 2 ^ 53)
    (hInstant : instant = Calendar.civilNumber year month day * 86400000 + clockMillis clock - offset)
    (hFits : -(2 ^ 63) ≤ instant ∧ instant < 2 ^ 63) :
    (now < (instant % 2 ^ 64).toNat → DatesAt text ((instant % 2 ^ 64).toNat : Nat)) ↔
      0 ≤ instant ∧ (now < instant → IsDay year month day ∧ IsClock clock ∧ writtenOffset zone = some offset) := by
  rw [datesAt_iff hDay hSplit hClock]
  obtain hPast | hNext := lt_or_ge instant 0
  · constructor
    · intro hDates
      obtain ⟨-, -, offset', hWritten, hIs⟩ := hDates (by omega)
      have hLow := le_writtenOffset hWritten hOffset
      omega
    · rintro ⟨hPos, -⟩
      omega
  · have hCast : ((instant % 2 ^ 64).toNat : Int) = instant := by omega
    rw [hCast]
    constructor
    · intro hDates
      refine ⟨hNext, fun hAfter => ?_⟩
      obtain ⟨hIsDay, hIsClock, offset', hWritten, hIs⟩ := hDates (by omega)
      obtain rfl : offset' = offset := by omega
      exact ⟨hIsDay, hIsClock, hWritten⟩
    · rintro ⟨-, hDates⟩ hAfter
      obtain ⟨hIsDay, hIsClock, hWritten⟩ := hDates (by omega)
      exact ⟨hIsDay, hIsClock, offset, hWritten, hInstant⟩

theorem dateSound_iff (text : Text) {now : Nat} (hNow : now < 2 ^ 53) :
    (∃ date, parseIsoChecked text = some date ∧ ∀ next, date = some next → now < next → DatesAt text next) ↔
      DateSound text now := by
  rw [parseIsoChecked_eq]
  unfold DateSound
  rcases hDay : readDay (trim text) with _ | ⟨year, month, day, time⟩
  · exact iff_of_true ⟨none, rfl, nofun⟩ nofun
  have hOnly (p : Int → Nat → Nat → Text → Prop) : (∀ year' month' day' time',
      some (year, month, day, time) = some (year', month', day', time') → p year' month' day' time') ↔
        p year month day time := by
    constructor
    · exact fun hAll => hAll _ _ _ _ rfl
    · rintro hHere _ _ _ _ ⟨⟩
      exact hHere
  rw [hOnly]
  dsimp only
  rw [parseTimeChecked_eq]
  by_cases hDaySums : Fits64 (daySums year month day)
  · rw [if_pos hDaySums, and_iff_right hDaySums]
    rcases hSplit : splitZone time with _ | ⟨before, zone⟩
    · exact iff_of_false (fun ⟨_, hNone, _⟩ => nomatch hNone) (fun ⟨_, _, hNone, _⟩ => nomatch hNone)
    have hSame (p : Text → Option Text → Prop) : (∃ before' zone', some (before, zone) = some (before', zone') ∧
        p before' zone') ↔ p before zone := by
      constructor
      · rintro ⟨_, _, ⟨⟩, hHere⟩
        exact hHere
      · exact fun hHere => ⟨_, _, rfl, hHere⟩
    rw [hSame]
    dsimp only
    by_cases hZoneSums : Fits64 (offsetSums zone)
    · rw [if_pos hZoneSums, and_iff_right hZoneSums]
      rcases hOffset : zoneOffset zone with _ | offset
      · exact iff_of_true ⟨none, rfl, nofun⟩ nofun
      rcases hClock : readClock before with _ | clock
      · exact iff_of_true ⟨none, rfl, nofun⟩ nofun
      have hRead (p : Int → Int × Int × Int × Int → Prop) : (∀ offset' clock', some offset = some offset' →
          some clock = some clock' → p offset' clock') ↔ p offset clock := by
        constructor
        · exact fun hAll => hAll _ _ rfl rfl
        · rintro hHere _ _ ⟨⟩ ⟨⟩
          exact hHere
      rw [hRead]
      dsimp only
      by_cases hClockSums : Fits64 (clockFieldSums clock)
      · rw [if_pos hClockSums, and_iff_right hClockSums]
        dsimp only
        by_cases hInstantSums : Fits64 (instantSums (Calendar.civilNumber year month day) (clockMillis clock) offset)
        · rw [if_pos hInstantSums, and_iff_right hInstantSums]
          have hFits := hInstantSums (Calendar.civilNumber year month day * 24 * 60 * 60 * 1000 + clockMillis clock -
            offset)
            (by simp only [instantSums, List.mem_cons, true_or, or_true])
          rw [← instant_iff hDay hSplit hClock hOffset hNow rfl (by omega)]
          constructor
          · rintro ⟨date, hDate, hMeets⟩
            cases hDate
            exact hMeets _ rfl
          · intro hMeets
            refine ⟨_, rfl, fun next hNext => ?_⟩
            cases hNext
            exact hMeets
        · rw [if_neg hInstantSums]
          exact iff_of_false (fun ⟨_, hNone, _⟩ => nomatch hNone) (fun ⟨hFits, _⟩ => hInstantSums hFits)
      · rw [if_neg hClockSums]
        exact iff_of_false (fun ⟨_, hNone, _⟩ => nomatch hNone) (fun ⟨hFits, _⟩ => hClockSums hFits)
    · rw [if_neg hZoneSums]
      exact iff_of_false (fun ⟨_, hNone, _⟩ => nomatch hNone) (fun ⟨hFits, _⟩ => hZoneSums hFits)
  · rw [if_neg hDaySums]
    exact iff_of_false (fun ⟨_, hNone, _⟩ => nomatch hNone) (fun ⟨hFits, _⟩ => hDaySums hFits)

end Dates

section Forms

def readDelay (rest : Text) (allowSeconds : Bool) : Option Nat := do
  let (amount, unit) ← splitAmountUnit rest
  let multiplier ← unitMultiplier unit allowSeconds
  return amount * multiplier

inductive ScheduleForm where
  | delay (ms : Nat)
  | interval (ms : Nat)
  | date (text : Text)
  | cron (expression : Text)
deriving DecidableEq

def scheduleText (input : String) : Text :=
  stripMatchingQuotes (trim input.toList)

def dateOrCronForm (text : Text) : ScheduleForm :=
  if (stripPrefix? "at " (toLowercase text)).isSome then .date (trim (text.drop 3)) else .cron (normalizeCronAlias text)

def intervalForm (text : Text) : List String → ScheduleForm
  | [] => dateOrCronForm text
  | word :: words => match (stripPrefix? word (toLowercase text)).bind (readDelay · true) with
    | some ms => .interval ms
    | none => intervalForm text words

def scheduleForm (text : Text) : ScheduleForm :=
  match (stripPrefix? "in " (toLowercase text)).bind (readDelay · false) with
  | some ms => .delay ms
  | none => intervalForm text ["every ", "each "]

def ScheduleForm.kind : ScheduleForm → ScheduleKind
  | .delay _ | .date _ => .once
  | .interval _ => .interval
  | .cron _ => .cron

def ScheduleForm.Denotes (now next : Nat) : ScheduleForm → Prop
  | .delay ms | .interval ms => next = now + ms
  | .date text => DatesAt text next
  | .cron expression => ∃ tab : Crontab, tab.Valid ∧ tab.Spells expression ∧ tab.Fires next ∧
      ∀ earlier, earlier % oneMinuteMs = 0 → now < earlier → earlier < next → ¬ tab.Fires earlier

structure ScheduleForm.Yields (form : ScheduleForm) (now : Nat) (schedule : AgentCronSchedule) (next : Nat) : Prop where
  denotes : form.Denotes now next
  kind : schedule.kind = form.kind
  not_before : now ≤ next
  strict : (∀ ms, form ≠ .delay ms) → now < next
  interval : schedule.kind = .interval →
    ∃ ms, schedule.intervalMs = some ms ∧ 10 * oneSecondMs ≤ ms ∧ next = now + ms

/-- The delay ends inside `u64`, and the date is one that the parser takes. -/
def ScheduleForm.Sound (now : Nat) : ScheduleForm → Prop
  | .delay ms | .interval ms => now + ms < 2 ^ 64
  | .date text => DateSound text now
  | .cron _ => True

def Parses (form : ScheduleForm) (now : Nat) (parsed : Option (Except String (AgentCronSchedule × Nat))) : Prop :=
  ∃ result, parsed = some result ∧ ∀ schedule next, result = .ok (schedule, next) → form.Yields now schedule next

variable {form : ScheduleForm} {now : Nat}

theorem parses_refused (error : String) : Parses form now (some (.error error)) :=
  ⟨_, rfl, nofun⟩

theorem not_parses_none : ¬ Parses form now none :=
  fun ⟨_, hNone, _⟩ => nomatch hNone

theorem parses_ok {schedule : AgentCronSchedule} {next : Nat} :
    Parses form now (some (.ok (schedule, next))) ↔ form.Yields now schedule next := by
  constructor
  · rintro ⟨result, ⟨⟩, hYields⟩
    exact hYields _ _ rfl
  · intro hYields
    refine ⟨_, rfl, fun schedule' next' hOk => ?_⟩
    cases hOk
    exact hYields

theorem parseInDelayChecked_eq (rest : Text) (now : Nat) : parseInDelayChecked rest now =
    match readDelay rest false with
    | none => some none
    | some ms => (checkU64 (now + min ms (2 ^ 64 - 1))).map some := by
  rw [parseInDelayChecked, readDelay]
  rcases splitAmountUnit rest with _ | ⟨amount, unit⟩
  · rfl
  · simp only [Option.bind_eq_bind, Option.bind_some]
    cases unitMultiplier unit false <;> rfl

theorem parseEveryDelayChecked_eq (rest : Text) (now : Nat) : parseEveryDelayChecked rest now =
    match readDelay rest true with
    | none => some (.ok none)
    | some ms => if min ms (2 ^ 64 - 1) < 10 * oneSecondMs then
        some (.error "Recurring interval must be at least 10 seconds")
      else (checkU64 (now + min ms (2 ^ 64 - 1))).map fun next => .ok (some next) := by
  rw [parseEveryDelayChecked, readDelay]
  rcases splitAmountUnit rest with _ | ⟨amount, unit⟩
  · rfl
  · simp only [Option.bind_eq_bind, Option.bind_some]
    cases unitMultiplier unit true <;> rfl

theorem parses_date {text : Text} (d : Text) (hNow : now < 2 ^ 53) : Parses (.date d) now (do
      match ← parseIsoChecked d with
      | none => return .error "Invalid one-shot schedule. Use: at <ISO date>"
      | some date =>
        if date ≤ now then return .error "One-shot schedule must be in the future"
        return .ok (⟨.once, String.ofList text, none⟩, date)) ↔ DateSound d now := by
  rw [← dateSound_iff d hNow]
  rcases parseIsoChecked d with _ | _ | date
  · exact iff_of_false not_parses_none fun ⟨_, hNone, _⟩ => nomatch hNone
  · exact iff_of_true (parses_refused _) ⟨none, rfl, nofun⟩
  · simp only [Option.bind_eq_bind, Option.bind_some]
    obtain hAfter | hPast := Nat.lt_or_ge now date
    · rw [if_neg (Nat.not_le.mpr hAfter)]
      refine parses_ok.trans ⟨fun hYields => ⟨_, rfl, fun next hNext _ => ?_⟩, ?_⟩
      · cases hNext
        exact hYields.denotes
      · rintro ⟨_, ⟨⟩, hDates⟩
        exact ⟨hDates _ rfl hAfter, rfl, Nat.le_of_lt hAfter, fun _ => hAfter, nofun⟩
    · rw [if_pos hPast]
      refine iff_of_true (parses_refused _) ⟨_, rfl, fun next hNext hLater => ?_⟩
      cases hNext
      exact absurd hLater (Nat.not_lt.mpr hPast)

theorem parses_cron (expression : Text) (hNow : now < 2 ^ 53) : Parses (.cron expression) now (do
      match ← nextCronRunChecked expression now with
      | .error error => return .error error
      | .ok next => return .ok (⟨.cron, String.ofList expression, none⟩, next)) := by
  have hFits : (now / oneMinuteMs + 1) * oneMinuteMs + 366 * (24 * 60 * oneMinuteMs) + oneMinuteMs < 2 ^ 64 := by
    unfold oneMinuteMs oneSecondMs
    omega
  rw [nextCronRunChecked_eq hFits]
  cases hRun : nextCronRunAfter expression now with
  | error error => exact parses_refused error
  | ok next =>
    obtain ⟨tab, hValid, hSpells⟩ := exists_crontab hRun
    obtain ⟨⟨-, hLow, -⟩, hFires, hFirst⟩ := nextCronRunAfter_ok hValid hSpells hRun
    have hAfter : now < next := by
      unfold nextMinute oneMinuteMs oneSecondMs at hLow
      omega
    exact parses_ok.mpr ⟨⟨tab, hValid, hSpells, hFires, hFirst⟩, rfl, Nat.le_of_lt hAfter, fun _ => hAfter, nofun⟩

theorem parses_dateOrCron (text : Text) (hNow : now < 2 ^ 53) :
    Parses (dateOrCronForm text) now (parseDateOrCronChecked text now) ↔ (dateOrCronForm text).Sound now := by
  rw [dateOrCronForm, parseDateOrCronChecked]
  by_cases hAt : (stripPrefix? "at " (toLowercase text)).isSome = true
  · rw [if_pos hAt, if_pos hAt]
    exact parses_date _ hNow
  · rw [if_neg hAt, if_neg hAt]
    exact iff_of_true (parses_cron _ hNow) trivial

theorem parses_interval (text : Text) (hNow : now < 2 ^ 53) : ∀ words : List String,
    Parses (intervalForm text words) now (parseIntervalChecked text now words) ↔ (intervalForm text words).Sound now
      := by
  intro words
  induction words with
  | nil => exact parses_dateOrCron text hNow
  | cons word words ih =>
    rw [intervalForm, parseIntervalChecked]
    rcases stripPrefix? word (toLowercase text) with _ | rest
    · exact ih
    rw [Option.bind_some]
    dsimp only
    rw [parseEveryDelayChecked_eq]
    rcases readDelay rest true with _ | ms
    · exact ih
    simp only [Option.bind_eq_bind]
    by_cases hShort : min ms (2 ^ 64 - 1) < 10 * oneSecondMs
    · rw [if_pos hShort]
      refine iff_of_true (parses_refused _) ?_
      change now + ms < 2 ^ 64
      unfold oneSecondMs at hShort
      omega
    · rw [if_neg hShort, checkU64]
      change _ ↔ now + ms < 2 ^ 64
      by_cases hFits : now + min ms (2 ^ 64 - 1) < 2 ^ 64
      · rw [if_pos hFits]
        refine parses_ok.trans ⟨fun hYields => ?_, fun hSum => ?_⟩
        · have hDenotes : now + min ms (2 ^ 64 - 1) = now + ms := hYields.denotes
          omega
        · rw [show min ms (2 ^ 64 - 1) = ms by omega] at hShort ⊢
          have hLong : 10 * oneSecondMs ≤ ms := Nat.le_of_not_lt hShort
          have hPos : 0 < ms := Nat.lt_of_lt_of_le (by decide) hLong
          exact ⟨rfl, rfl, Nat.le_add_right _ _, fun _ => Nat.lt_add_of_pos_right hPos,
            fun _ => ⟨ms, congrArg some (Nat.add_sub_cancel_left _ _), hLong, rfl⟩⟩
      · rw [if_neg hFits]
        refine iff_of_false not_parses_none ?_
        omega

/-- The parser comes to no panic and to the run that the text denotes, or refuses the text, where its sums stay in their
types, its slices in the text, and a date is neither before 1970 nor misread. -/
theorem parseAgentCronSchedule_sound (input : String) (now : Nat) (hNow : now < 2 ^ 53) :
    Parses (scheduleForm (scheduleText input)) now (parseAgentCronScheduleChecked input now) ↔
      (scheduleForm (scheduleText input)).Sound now := by
  rw [parseAgentCronScheduleChecked, scheduleText]
  generalize stripMatchingQuotes (trim input.toList) = text
  cases text with
  | nil => exact iff_of_true (parses_refused _) trivial
  | cons c text =>
    dsimp only [List.isEmpty_cons]
    rw [if_neg Bool.false_ne_true, scheduleForm]
    generalize c :: text = text
    rcases stripPrefix? "in " (toLowercase text) with _ | rest
    · exact parses_interval text hNow _
    rw [Option.bind_some]
    dsimp only
    rw [parseInDelayChecked_eq]
    rcases readDelay rest false with _ | ms
    · exact parses_interval text hNow _
    simp only [Option.bind_eq_bind, checkU64]
    change _ ↔ now + ms < 2 ^ 64
    by_cases hFits : now + min ms (2 ^ 64 - 1) < 2 ^ 64
    · rw [if_pos hFits]
      refine parses_ok.trans ⟨fun hYields => ?_, fun hSum => ?_⟩
      · have hDenotes : now + min ms (2 ^ 64 - 1) = now + ms := hYields.denotes
        omega
      · rw [show min ms (2 ^ 64 - 1) = ms by omega]
        exact ⟨rfl, rfl, Nat.le_add_right _ _, fun hOther => absurd rfl (hOther ms), nofun⟩
    · rw [if_neg hFits]
      refine iff_of_false not_parses_none ?_
      omega

theorem scheduleForm_tomorrow : scheduleForm (scheduleText "in 1d") = .delay 86400000 := by
  decide +kernel

theorem parseAgentCronSchedule_sound_tomorrow : Parses (scheduleForm (scheduleText "in 1d")) 1700000000000
    (parseAgentCronScheduleChecked "in 1d" 1700000000000) := by
  refine (parseAgentCronSchedule_sound "in 1d" 1700000000000 (by decide)).mpr ?_
  rw [scheduleForm_tomorrow]
  change 1700000000000 + 86400000 < 2 ^ 64
  decide

/-- A date without a time, and a delay past the end of `u64`, panic. A date before 1970 becomes a run far in the future.
-/
theorem parseAgentCronSchedule_panics : parseAgentCronScheduleChecked "at 2024-01-01T" 1700000000000 = none ∧
    parseAgentCronScheduleChecked "in 999999999999999999d" 1700000000000 = none ∧
    parseAgentCronScheduleChecked "at 1969-12-31T23:59:59Z" 1700000000000
      = some (.ok (⟨.once, "at 1969-12-31T23:59:59Z", none⟩, 18446744073709550616)) ∧
    ¬ Parses (scheduleForm (scheduleText "at 2024-01-01T")) 1700000000000
      (parseAgentCronScheduleChecked "at 2024-01-01T" 1700000000000) := by
  have hPanics : parseAgentCronScheduleChecked "at 2024-01-01T" 1700000000000 = none := by
    decide +kernel
  refine ⟨hPanics, by decide +kernel, by decide +kernel, ?_⟩
  rw [hPanics]
  exact not_parses_none

end Forms

end PrimeAgent
