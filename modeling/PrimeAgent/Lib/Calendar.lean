import Mathlib.Tactic.IntervalCases

/-! # The Gregorian calendar

Dates, the number of a day counted from 1970-01-01, and the arithmetic that leads from one to the other over years
that begin in March.
-/
namespace Calendar

structure Date where
  year : Int
  month : Nat
  day : Nat
deriving DecidableEq, Repr

def IsLeap (year : Int) : Prop :=
  year % 4 = 0 ∧ (year % 100 ≠ 0 ∨ year % 400 = 0)

instance (year : Int) : Decidable (IsLeap year) :=
  inferInstanceAs (Decidable (_ ∧ _))

def daysInMonth (year : Int) : Nat → Nat
  | 2 => if IsLeap year then 29 else 28
  | 4 | 6 | 9 | 11 => 30
  | _ => 31

theorem daysInMonth_le (year : Int) (month : Nat) : daysInMonth year month ≤ 31 := by
  unfold daysInMonth
  split
  · split <;> decide
  all_goals decide

structure Date.Valid (date : Date) : Prop where
  month_pos : 1 ≤ date.month
  month_le : date.month ≤ 12
  day_pos : 1 ≤ date.day
  day_le : date.day ≤ daysInMonth date.year date.month

def leapsThrough (year : Int) : Int :=
  year / 4 - year / 100 + year / 400

def daysBeforeYear (year : Int) : Int :=
  365 * (year - 1970) + (leapsThrough (year - 1) - leapsThrough 1969)

def daysBeforeMonth (year : Int) (month : Nat) : Nat :=
  ((List.range' 1 (month - 1)).map (daysInMonth year)).sum

def Date.number (date : Date) : Int :=
  daysBeforeYear date.year + daysBeforeMonth date.year date.month + date.day - 1

theorem leapsThrough_step (year : Int) :
    leapsThrough year = leapsThrough (year - 1) + if IsLeap year then 1 else 0 := by
  by_cases hLeap : IsLeap year
  · rw [if_pos hLeap, leapsThrough, leapsThrough]
    unfold IsLeap at hLeap
    omega
  · rw [if_neg hLeap, leapsThrough, leapsThrough]
    unfold IsLeap at hLeap
    omega

theorem daysBeforeMonth_succ (year : Int) {month : Nat} (hMonth : 1 ≤ month) :
    daysBeforeMonth year (month + 1) = daysBeforeMonth year month + daysInMonth year month := by
  obtain ⟨k, rfl⟩ := Nat.exists_eq_add_of_le hMonth
  rw [daysBeforeMonth, daysBeforeMonth, Nat.add_sub_cancel, Nat.add_sub_cancel_left, Nat.add_comm 1 k,
    List.range'_1_concat, List.map_append, List.sum_append, List.map_singleton, List.sum_singleton, Nat.add_comm 1 k]

/-! ### Years that begin in March -/

/-- The day an era's year begins with, in days of the era; an era is 400 years, and its last year has a day more. -/
def yearStart (yoe : Nat) : Nat :=
  365 * yoe + yoe / 4 - yoe / 100 + yoe / 400

def yearOfEra (doe : Nat) : Nat :=
  (doe - doe / 1460 + doe / 36524 - doe / 146096) / 365

theorem yearOfEra_mono {a b : Nat} (hLe : a ≤ b) (hEra : b < 146097) : yearOfEra a ≤ yearOfEra b := by
  induction b, hLe using Nat.le_induction with
  | base => exact Nat.le_refl _
  | succ b hLe ih =>
    refine Nat.le_trans (ih (by omega)) (Nat.div_le_div_right ?_)
    have hCycle : (b + 1) / 1460 ≤ b / 1460 + 1 := by omega
    have hCentury : b / 36524 ≤ (b + 1) / 36524 := Nat.div_le_div_right (by omega)
    have hLast : (b + 1) / 146096 = b / 146096 ∨ (b + 1 = 146096 ∧ (b + 1) / 1460 = b / 1460) := by omega
    obtain hSame | ⟨hDay, hSame⟩ := hLast
    · omega
    · omega

theorem yearOfEra_ends : ∀ yoe < 400, yearOfEra (yearStart yoe) = yoe ∧ yearOfEra (yearStart (yoe + 1) - 1) = yoe := by
  decide +kernel

theorem yearOfEra_spec {doe : Nat} (hEra : doe < 146097) :
    yearOfEra doe < 400 ∧ yearStart (yearOfEra doe) ≤ doe ∧ doe < yearStart (yearOfEra doe + 1) := by
  have hLast : yearOfEra 146096 = 399 := by decide
  have hYear : yearOfEra doe < 400 := by
    have hMono := yearOfEra_mono (show doe ≤ 146096 by omega) (by omega)
    omega
  refine ⟨hYear, Nat.le_of_not_lt fun hBefore => ?_, Nat.lt_of_not_le fun hBehind => ?_⟩
  · cases hPrevious : yearOfEra doe with
    | zero =>
      rw [hPrevious] at hBefore
      exact absurd hBefore (Nat.not_lt_zero _)
    | succ previous =>
      rw [hPrevious] at hBefore
      have hEnd := (yearOfEra_ends previous (by omega)).2
      have hMono := yearOfEra_mono (show doe ≤ yearStart (previous + 1) - 1 by omega) (by
        unfold yearStart
        omega)
      omega
  · obtain hNext | hLastYear := Nat.lt_or_ge (yearOfEra doe + 1) 400
    · have hStart := (yearOfEra_ends _ hNext).1
      have hMono := yearOfEra_mono hBehind hEra
      omega
    · rw [show yearOfEra doe + 1 = 400 by omega] at hBehind
      have hEnd : yearStart 400 = 146097 := by decide
      omega

theorem yearOfEra_eq {yoe doe : Nat} (hYear : yoe < 400) (hFrom : yearStart yoe ≤ doe) (hTo : doe < yearStart (yoe + 1)) :
    yearOfEra doe = yoe := by
  have hEra : yearStart (yoe + 1) ≤ 146097 := by
    unfold yearStart
    omega
  obtain ⟨hStart, hEnd⟩ := yearOfEra_ends yoe hYear
  have hLow := yearOfEra_mono hFrom (by omega)
  have hHigh := yearOfEra_mono (show doe ≤ yearStart (yoe + 1) - 1 by omega) (by omega)
  omega

theorem eraYear_days (year : Int) : year / 400 * 146097 + (year % 400 * 365 + year % 400 / 4 - year % 400 / 100)
    = 365 * year + leapsThrough year := by
  have hYear : year = 400 * (year / 400) + year % 400 := (Int.mul_ediv_add_emod year 400).symm
  have hPos := Int.emod_nonneg year (show (400 : Int) ≠ 0 by decide)
  have hLt := Int.emod_lt_of_pos year (show (0 : Int) < 400 by decide)
  generalize year / 400 = era at *
  generalize year % 400 = yoe at *
  subst hYear
  unfold leapsThrough
  omega

theorem daysInMonth_march (year : Int) {mp : Nat} (hLe : mp < 10) :
    (153 * mp + 2) / 5 + daysInMonth year (mp + 3) = (153 * (mp + 1) + 2) / 5 := by
  interval_cases mp <;> rfl

theorem daysBeforeMonth_march (year : Int) {mp : Nat} (hLe : mp < 10) :
    daysBeforeMonth year (mp + 3) = (153 * mp + 2) / 5 + 59 + if IsLeap year then 1 else 0 := by
  induction mp with
  | zero =>
    simp only [daysBeforeMonth, List.range', List.map_cons, List.map_nil, List.sum_cons, List.sum_nil, daysInMonth]
    split <;> rfl
  | succ mp ih =>
    have hMonth := daysInMonth_march year (show mp < 10 by omega)
    have hSucc := daysBeforeMonth_succ year (show 1 ≤ mp + 3 by omega)
    rw [show mp + 1 + 3 = mp + 3 + 1 by omega, hSucc, ih (by omega)]
    omega

def civilNumber (year month day : Int) : Int :=
  let y := if month ≤ 2 then year - 1 else year
  let yoe := y % 400
  let mp := if 2 < month then month - 3 else month + 9
  let doy := (153 * mp + 2) / 5 + day - 1
  y / 400 * 146097 + (yoe * 365 + yoe / 4 - yoe / 100 + doy) - 719468

theorem civilNumber_eq {date : Date} (hPos : 1 ≤ date.month) (hLe : date.month ≤ 12) :
    civilNumber date.year date.month date.day = date.number := by
  obtain ⟨year, month, day⟩ := date
  dsimp only at hPos hLe
  have hLeaps := leapsThrough_step year
  have hOrigin : leapsThrough 1969 = 477 := by decide
  rw [civilNumber, Date.number, daysBeforeYear, hOrigin]
  dsimp only
  obtain hEarly | hLate := Nat.lt_or_ge month 3
  · have hBefore := eraYear_days (year - 1)
    rw [if_pos (by omega), if_neg (by omega)]
    have hMonths : daysBeforeMonth year month = 31 * (month - 1) := by
      interval_cases month <;> rfl
    omega
  · obtain ⟨mp, rfl⟩ := Nat.exists_eq_add_of_le' hLate
    have hHere := eraYear_days year
    have hMonths := daysBeforeMonth_march year (show mp < 10 by omega)
    rw [if_neg (by omega), if_pos (by omega), hMonths]
    split at hLeaps
    · rw [if_pos (by assumption)]
      omega
    · rw [if_neg (by assumption)]
      omega

def dateOf (number : Int) : Date :=
  let z := number + 719468
  let doe := z % 146097
  let yoe := (doe - doe / 1460 + doe / 36524 - doe / 146096) / 365
  let doy := doe - (365 * yoe + yoe / 4 - yoe / 100)
  let mp := (5 * doy + 2) / 153
  let y := yoe + z / 146097 * 400
  let month := if mp < 10 then mp + 3 else mp - 9
  ⟨if month ≤ 2 then y + 1 else y, month.toNat, (doy - (153 * mp + 2) / 5 + 1).toNat⟩

def marchDate (era : Int) (yoe doy : Nat) : Date :=
  let mp := (5 * doy + 2) / 153
  if mp < 10 then ⟨era * 400 + yoe, mp + 3, doy - (153 * mp + 2) / 5 + 1⟩
  else ⟨era * 400 + yoe + 1, mp - 9, doy - (153 * mp + 2) / 5 + 1⟩

variable {yoe doy : Nat} {date : Date}

theorem dateOf_eq {era : Int} (hYear : yoe < 400) (hDay : yearStart yoe + doy < yearStart (yoe + 1)) :
    dateOf (era * 146097 + (yearStart yoe + doy : Nat) - 719468) = marchDate era yoe doy := by
  have hFound := yearOfEra_eq hYear (Nat.le_add_right _ doy) hDay
  have hEra : yearStart (yoe + 1) ≤ 146097 := by
    unfold yearStart
    omega
  have hLength : yearStart (yoe + 1) ≤ yearStart yoe + 366 := by
    unfold yearStart
    omega
  have hStart : yearStart yoe = 365 * yoe + yoe / 4 - yoe / 100 := by
    unfold yearStart
    omega
  generalize hDoe : yearStart yoe + doy = doe at *
  have hZ : era * 146097 + (doe : Int) - 719468 + 719468 = doe + era * 146097 := by omega
  have hDiv : ((doe : Int) + era * 146097) / 146097 = era := by omega
  have hMod : ((doe : Int) + era * 146097) % 146097 = doe := by omega
  have hYoe : ((doe : Int) - doe / 1460 + doe / 36524 - doe / 146096) / 365 = yoe := by
    rw [← hFound, yearOfEra]
    omega
  have hDoy : (doe : Int) - (365 * yoe + (yoe : Int) / 4 - (yoe : Int) / 100) = doy := by omega
  rw [dateOf, hZ]
  rw [hDiv, hMod, hYoe, hDoy, marchDate]
  have hMonth : (5 * (doy : Int) + 2) / 153 = ((5 * doy + 2) / 153 : Nat) := by omega
  rw [hMonth]
  generalize hmp : (5 * doy + 2) / 153 = mp
  obtain hLate | hEarly := Nat.lt_or_ge mp 10
  · have hCast : (mp : Int) < 10 := by omega
    rw [if_pos hLate, if_pos hCast, if_neg (by omega)]
    congr 1
    all_goals omega
  · have hCast : ¬ (mp : Int) < 10 := by omega
    rw [if_neg (Nat.not_lt.mpr hEarly), if_neg hCast, if_pos (show (mp : Int) - 9 ≤ 2 by omega)]
    congr 1
    all_goals omega

theorem marchDate_valid {era : Int} {yoe doy : Nat} (hYear : yoe < 400)
    (hDay : yearStart yoe + doy < yearStart (yoe + 1)) : (marchDate era yoe doy).Valid := by
  unfold yearStart at hDay
  rw [marchDate]
  generalize hmp : (5 * doy + 2) / 153 = mp
  split
  · rename_i hLate
    have hMonth := daysInMonth_march (era * 400 + yoe) hLate
    exact ⟨by dsimp only; omega, by dsimp only; omega, by dsimp only; omega, by dsimp only; omega⟩
  · refine ⟨by dsimp only; omega, by dsimp only; omega, by dsimp only; omega, ?_⟩
    dsimp only
    obtain rfl | rfl : mp = 10 ∨ mp = 11 := by omega
    · have hJanuary : daysInMonth (era * 400 + yoe + 1) (10 - 9) = 31 := rfl
      omega
    · have hFebruary : daysInMonth (era * 400 + yoe + 1) (11 - 9)
          = if IsLeap (era * 400 + yoe + 1) then 29 else 28 := rfl
      rw [hFebruary]
      split
      · omega
      · rename_i hCommon
        unfold IsLeap at hCommon
        omega

theorem marchDate_number {era : Int} (hYear : yoe < 400) (hDay : yearStart yoe + doy < yearStart (yoe + 1)) :
    (marchDate era yoe doy).number = era * 146097 + (yearStart yoe + doy : Nat) - 719468 := by
  have hValid := @marchDate_valid era yoe doy hYear hDay
  rw [← civilNumber_eq hValid.month_pos hValid.month_le, civilNumber, marchDate]
  unfold yearStart at hDay ⊢
  generalize hmp : (5 * doy + 2) / 153 = mp
  split
  · rw [if_neg (by dsimp only; omega), if_pos (by dsimp only; omega)]
    dsimp only
    omega
  · rw [if_pos (by dsimp only; omega), if_neg (by dsimp only; omega)]
    dsimp only
    omega

theorem exists_marchDate (hValid : date.Valid) : ∃ (era : Int) (yoe doy : Nat), yoe < 400 ∧
    yearStart yoe + doy < yearStart (yoe + 1) ∧ date = marchDate era yoe doy := by
  obtain ⟨year, month, day⟩ := date
  obtain ⟨hPos, hLe, hDay, hIn⟩ := hValid
  dsimp only at hPos hLe hDay hIn
  obtain hEarly | hLate := Nat.lt_or_ge month 3
  · have hYear : year - 1 = (year - 1) / 400 * 400 + ((year - 1) % 400).toNat := by omega
    have hYoe : ((year - 1) % 400).toNat < 400 := by omega
    generalize (year - 1) / 400 = era at hYear
    generalize ((year - 1) % 400).toNat = yoe at hYear hYoe
    have hDays : day + (if month = 1 then 305 else 336) < yearStart (yoe + 1) - yearStart yoe := by
      obtain rfl | rfl : month = 1 ∨ month = 2 := by omega
      · have hJanuary : daysInMonth year 1 = 31 := rfl
        rw [if_pos rfl]
        unfold yearStart
        omega
      · have hFebruary : daysInMonth year 2 = if IsLeap year then 29 else 28 := rfl
        rw [if_neg (by decide)]
        unfold yearStart
        split at hFebruary
        · rename_i hLeap
          unfold IsLeap at hLeap
          omega
        · omega
    refine ⟨era, yoe, day + (if month = 1 then 305 else 336), hYoe, by omega, ?_⟩
    obtain rfl | rfl : month = 1 ∨ month = 2 := by omega
    · have hJanuary : daysInMonth year 1 = 31 := rfl
      have hMonth : (5 * (day + 305) + 2) / 153 = 10 := by omega
      rw [if_pos rfl, marchDate, hMonth, if_neg (by decide)]
      congr 1
      all_goals omega
    · have hFebruary : daysInMonth year 2 ≤ 29 := by
        rw [show daysInMonth year 2 = if IsLeap year then 29 else 28 from rfl]
        split <;> omega
      have hMonth : (5 * (day + 336) + 2) / 153 = 11 := by omega
      rw [if_neg (by decide), marchDate, hMonth, if_neg (by decide)]
      congr 1
      all_goals omega
  · obtain ⟨mp, rfl⟩ := Nat.exists_eq_add_of_le' hLate
    have hYear : year = year / 400 * 400 + (year % 400).toNat := by omega
    have hYoe : (year % 400).toNat < 400 := by omega
    have hMonth := daysInMonth_march year (show mp < 10 by omega)
    generalize year / 400 = era at hYear
    generalize (year % 400).toNat = yoe at hYear hYoe
    have hIndex : (5 * ((153 * mp + 2) / 5 + day - 1) + 2) / 153 = mp := by omega
    refine ⟨era, yoe, (153 * mp + 2) / 5 + day - 1, hYoe, by unfold yearStart; omega, ?_⟩
    rw [marchDate, hIndex, if_pos (by omega), ← hYear]
    congr 1
    all_goals omega

theorem exists_number (number : Int) : ∃ (era : Int) (yoe doy : Nat), yoe < 400 ∧
    yearStart yoe + doy < yearStart (yoe + 1) ∧ number = era * 146097 + (yearStart yoe + doy : Nat) - 719468 := by
  have hDoe := Int.emod_nonneg (number + 719468) (show (146097 : Int) ≠ 0 by decide)
  have hLt := Int.emod_lt_of_pos (number + 719468) (show (0 : Int) < 146097 by decide)
  obtain ⟨doe, hEq⟩ := Int.eq_ofNat_of_zero_le hDoe
  obtain ⟨hYear, hFrom, hTo⟩ := yearOfEra_spec (show doe < 146097 by omega)
  obtain ⟨doy, hDoy⟩ := Nat.exists_eq_add_of_le hFrom
  refine ⟨(number + 719468) / 146097, yearOfEra doe, doy, hYear, by omega, ?_⟩
  rw [← hDoy]
  omega

theorem number_dateOf (number : Int) : (dateOf number).number = number ∧ (dateOf number).Valid := by
  obtain ⟨era, yoe, doy, hYear, hDay, rfl⟩ := exists_number number
  rw [dateOf_eq hYear hDay]
  exact ⟨marchDate_number hYear hDay, marchDate_valid hYear hDay⟩

example : dateOf 19782 = ⟨2024, 2, 29⟩ := by decide

theorem dateOf_number (hValid : date.Valid) : dateOf date.number = date := by
  obtain ⟨era, yoe, doy, hYear, hDay, rfl⟩ := exists_marchDate hValid
  rw [marchDate_number hYear hDay, dateOf_eq hYear hDay]

end Calendar
