import PrimeAgent.Cron.Checked
import PrimeAgent.Cron.Crontab

/-! # The next run of a cron expression

The search returns the first whole minute at which the expression fires, and finds one where there is one up to 366 days
behind the next whole minute.
-/
namespace PrimeAgent

section Matching

variable {tab : Crontab} {timestampMs : Nat}

theorem civilTime_date (timestampMs : Nat) :
    (civilTime timestampMs).day = ((Calendar.dateOf (timestampMs / 86400000 : Nat)).day : Int) ∧
      (civilTime timestampMs).month = ((Calendar.dateOf (timestampMs / 86400000 : Nat)).month : Int) := by
  have hValid := (Calendar.number_dateOf (timestampMs / 86400000 : Nat)).2
  have hDay : 1 ≤ (Calendar.dateOf (timestampMs / 86400000 : Nat)).day := hValid.day_pos
  have hMonth : 1 ≤ (Calendar.dateOf (timestampMs / 86400000 : Nat)).month := hValid.month_pos
  rw [Calendar.dateOf] at hDay hMonth ⊢
  have hDayPos := Int.pos_iff_toNat_pos.mpr hDay
  have hMonthPos := Int.pos_iff_toNat_pos.mpr hMonth
  constructor
  · rw [Int.toNat_of_nonneg (Int.le_of_lt hDayPos)]
    rfl
  · rw [Int.toNat_of_nonneg (Int.le_of_lt hMonthPos)]
    rfl

theorem CronItem.Valid.denotes_le {item : CronItem} {min max value : Nat} (hValid : item.Valid min max)
    (hValue : item.Denotes min max value) : value ≤ max := by
  obtain ⟨k, -, hLast⟩ := hValue
  refine Nat.le_trans hLast ?_
  have hRange := hValid.range
  cases hKind : item.range with
  | every => exact Nat.le_refl _
  | one value =>
    rw [hKind] at hRange
    exact CronNumber.decimal_le hRange
  | span start stop =>
    rw [hKind] at hRange
    exact CronNumber.decimal_le hRange.2.1

theorem any_beq_cast {values : List Nat} {n : Nat} {i : Int} (hCast : i = n) :
    values.any (fun value => (value : Int) == i) = true ↔ n ∈ values := by
  rw [List.any_eq_true]
  constructor
  · rintro ⟨value, hMem, hEq⟩
    rw [beq_iff_eq, hCast] at hEq
    rwa [← Int.ofNat_inj.mp hEq]
  · intro hMem
    exact ⟨n, hMem, beq_iff_eq.mpr hCast.symm⟩

theorem matchesCronFields_iff (hValid : tab.Valid) :
    matchesCronFields timestampMs tab.fields = true ↔ tab.Fires timestampMs := by
  obtain ⟨hDay, hMonth⟩ := civilTime_date timestampMs
  obtain ⟨hNumber, hDate⟩ := Calendar.number_dateOf (timestampMs / 86400000 : Nat)
  have hMinuteIs : (civilTime timestampMs).minute = timestampMs / 60000 % 60 := by
    change timestampMs % 86400000 / 1000 / 60 % 60 = _
    omega
  have hHourIs : (civilTime timestampMs).hour = timestampMs / 3600000 % 24 := by
    change timestampMs % 86400000 / 1000 / 3600 = _
    omega
  have hWeekdayIs : (civilTime timestampMs).weekday = (timestampMs / 86400000 + 4) % 7 := rfl
  have hMinute := mem_flatMap_values hValid.minute (by decide) (timestampMs / 60000 % 60)
  have hHour := mem_flatMap_values hValid.hour (by decide) (timestampMs / 3600000 % 24)
  have hDayOfMonth (day : Nat) := mem_flatMap_values hValid.dayOfMonth (by decide) day
  have hMonths (month : Nat) := mem_flatMap_values hValid.month (by decide) month
  have hDayOfWeek (weekday : Nat) := mem_flatMap_values hValid.dayOfWeek (by decide) weekday
  rw [matchesCronFields]
  simp only [Bool.and_eq_true, Bool.or_eq_true, List.contains_iff_mem, any_beq_cast hDay, any_beq_cast hMonth,
    hMinuteIs, hHourIs, hWeekdayIs, beq_iff_eq, Crontab.fields, hMinute, hHour, hDayOfMonth, hMonths, hDayOfWeek,
    Crontab.Fires, and_assoc]
  refine and_congr_right fun _ => and_congr_right fun _ => ?_
  constructor
  · rintro ⟨hInDay, hInMonth, hWeekday⟩
    refine ⟨⟨_, hDate, hNumber, hInDay, hInMonth⟩, ?_⟩
    obtain hHere | ⟨hSunday, hSeven⟩ := hWeekday
    · exact ⟨_, Nat.mod_mod _ _, hHere⟩
    · exact ⟨7, hSunday.symm, hSeven⟩
  · rintro ⟨⟨date, hDateValid, hDateNumber, hInDay, hInMonth⟩, weekday, hWeekday, item, hMem, hDenotes⟩
    rw [← hDateNumber, Calendar.dateOf_number hDateValid]
    refine ⟨hInDay, hInMonth, ?_⟩
    have hLe := (hValid.dayOfWeek.items item hMem).denotes_le hDenotes
    obtain rfl | hLt := Nat.eq_or_lt_of_le hLe
    · exact Or.inr ⟨hWeekday.symm, item, hMem, hDenotes⟩
    · rw [← hWeekday, Nat.mod_eq_of_lt hLt]
      exact Or.inl ⟨item, hMem, hDenotes⟩

end Matching

section Search

variable {fields : CronFields} {candidate next : Nat}

theorem firstMatch_some : ∀ {n candidate : Nat}, firstMatch fields n candidate = some next →
    ∃ k < n, next = candidate + k * oneMinuteMs ∧ matchesCronFields next fields = true ∧
      ∀ j < k, matchesCronFields (candidate + j * oneMinuteMs) fields = false := by
  intro n
  induction n with
  | zero =>
    intro candidate hFirst
    cases hFirst
  | succ n ih =>
    intro candidate hFirst
    rw [firstMatch] at hFirst
    split at hFirst
    · rename_i hMatches
      cases hFirst
      exact ⟨0, Nat.succ_pos n, by rw [Nat.zero_mul, Nat.add_zero], hMatches,
        fun j hLt => absurd hLt (Nat.not_lt_zero j)⟩
    · rename_i hMiss
      obtain ⟨k, hLt, rfl, hMatches, hBefore⟩ := ih hFirst
      refine ⟨k + 1, Nat.succ_lt_succ hLt, ?_, hMatches, ?_⟩
      · rw [Nat.succ_mul]
        omega
      · intro j hj
        cases j with
        | zero => rw [Nat.zero_mul, Nat.add_zero, Bool.eq_false_iff.mpr hMiss]
        | succ j =>
          have hEarlier := hBefore j (Nat.lt_of_succ_lt_succ hj)
          rwa [Nat.add_assoc, Nat.add_comm oneMinuteMs, ← Nat.succ_mul] at hEarlier

theorem firstMatch_none : ∀ {n candidate : Nat}, firstMatch fields n candidate = none →
    ∀ k < n, matchesCronFields (candidate + k * oneMinuteMs) fields = false := by
  intro n
  induction n with
  | zero => exact fun _ k hLt => absurd hLt (Nat.not_lt_zero k)
  | succ n ih =>
    intro candidate hFirst k hLt
    rw [firstMatch] at hFirst
    split at hFirst
    · cases hFirst
    · rename_i hMiss
      cases k with
      | zero => rw [Nat.zero_mul, Nat.add_zero, Bool.eq_false_iff.mpr hMiss]
      | succ k =>
        have hLater := ih hFirst k (Nat.lt_of_succ_lt_succ hLt)
        rwa [Nat.add_assoc, Nat.add_comm oneMinuteMs, ← Nat.succ_mul] at hLater

end Search

def nextMinute (afterMillis : Nat) : Nat :=
  (afterMillis / oneMinuteMs + 1) * oneMinuteMs

structure InWindow (afterMillis timestampMs : Nat) : Prop where
  whole : timestampMs % oneMinuteMs = 0
  le_time : nextMinute afterMillis ≤ timestampMs
  time_le : timestampMs ≤ nextMinute afterMillis + 366 * (24 * 60 * oneMinuteMs)

section NextRun

variable {expression : Text} {afterMillis : Nat} {tab : Crontab}

theorem exists_crontab {next : Nat} (hOk : nextCronRunAfter expression afterMillis = .ok next) :
    ∃ tab : Crontab, tab.Valid ∧ tab.Spells expression := by
  obtain ⟨fields, hParse, -⟩ := Rounds.bind_ok hOk
  obtain ⟨tab, hValid, hSpells, -⟩ := parseCronExpression_ok hParse
  exact ⟨tab, hValid, hSpells⟩

theorem nextCronRunAfter_ok {next : Nat} (hValid : tab.Valid) (hSpells : tab.Spells expression)
    (hOk : nextCronRunAfter expression afterMillis = .ok next) :
    InWindow afterMillis next ∧ tab.Fires next ∧
      ∀ earlier, earlier % oneMinuteMs = 0 → afterMillis < earlier → earlier < next → ¬ tab.Fires earlier := by
  rw [nextCronRunAfter, parseCronExpression_of hValid hSpells] at hOk
  obtain ⟨fields, hFields, hSearch⟩ := Rounds.bind_ok hOk
  cases hFields
  split at hSearch
  · rename_i next' hFirst
    cases hSearch
    obtain ⟨k, hLt, hNext, hMatches, hBefore⟩ := firstMatch_some hFirst
    refine ⟨?_, (matchesCronFields_iff hValid).mp hMatches, ?_⟩
    · unfold oneMinuteMs oneSecondMs at hNext
      constructor
      · unfold oneMinuteMs oneSecondMs
        omega
      · unfold nextMinute oneMinuteMs oneSecondMs
        omega
      · unfold nextMinute oneMinuteMs oneSecondMs
        omega
    · intro earlier hWhole hAfter hEarlier hFires
      have hIndex : ∃ j < k, earlier = (afterMillis / oneMinuteMs + 1) * oneMinuteMs + j * oneMinuteMs := by
        unfold oneMinuteMs oneSecondMs at *
        exact ⟨earlier / 60000 - (afterMillis / 60000 + 1), by omega, by omega⟩
      obtain ⟨j, hj, rfl⟩ := hIndex
      have hMiss := hBefore j hj
      rw [(matchesCronFields_iff hValid).mpr hFires] at hMiss
      cases hMiss
  · cases hSearch

theorem nextCronRunAfter_of (hValid : tab.Valid) (hSpells : tab.Spells expression) {timestampMs : Nat}
    (hWindow : InWindow afterMillis timestampMs) (hFires : tab.Fires timestampMs) :
    ∃ next, nextCronRunAfter expression afterMillis = .ok next := by
  obtain ⟨hWhole, hLow, hHigh⟩ := hWindow
  rw [nextCronRunAfter, parseCronExpression_of hValid hSpells]
  dsimp only [bind, Except.bind]
  cases hFirst : firstMatch tab.fields (366 * 24 * 60 + 1) ((afterMillis / oneMinuteMs + 1) * oneMinuteMs) with
  | some next => exact ⟨next, rfl⟩
  | none =>
    have hIndex : ∃ k < 366 * 24 * 60 + 1, timestampMs = (afterMillis / oneMinuteMs + 1) * oneMinuteMs + k *
      oneMinuteMs := by
      unfold nextMinute oneMinuteMs oneSecondMs at *
      exact ⟨timestampMs / 60000 - (afterMillis / 60000 + 1), by omega, by omega⟩
    obtain ⟨k, hLt, rfl⟩ := hIndex
    have hMiss := firstMatch_none hFirst k hLt
    rw [(matchesCronFields_iff hValid).mpr hFires] at hMiss
    cases hMiss

/-- The search finds the first minute in its window that fires, wherever its window stays below the end of `u64`. -/
theorem nextCronRunAfter_first (expression : Text) (afterMillis : Nat)
    (hFits : nextMinute afterMillis + 366 * (24 * 60 * oneMinuteMs) + oneMinuteMs < 2 ^ 64) :
    nextCronRunChecked expression afterMillis = some (nextCronRunAfter expression afterMillis) ∧
    ((∃ next, nextCronRunAfter expression afterMillis = .ok next) ↔
      ∃ tab : Crontab, tab.Valid ∧ tab.Spells expression ∧ ∃ timestampMs, InWindow afterMillis timestampMs ∧
        tab.Fires timestampMs) ∧
    ∀ next, nextCronRunAfter expression afterMillis = .ok next → next % oneMinuteMs = 0 ∧ afterMillis < next ∧
      ∀ tab : Crontab, tab.Valid → tab.Spells expression → tab.Fires next ∧
        ∀ earlier, earlier % oneMinuteMs = 0 → afterMillis < earlier → earlier < next → ¬ tab.Fires earlier := by
  refine ⟨nextCronRunChecked_eq hFits, ⟨?_, ?_⟩, ?_⟩
  · rintro ⟨next, hOk⟩
    obtain ⟨tab, hValid, hSpells⟩ := exists_crontab hOk
    obtain ⟨hWindow, hFires, -⟩ := nextCronRunAfter_ok hValid hSpells hOk
    exact ⟨tab, hValid, hSpells, next, hWindow, hFires⟩
  · rintro ⟨tab, hValid, hSpells, timestampMs, hWindow, hFires⟩
    exact nextCronRunAfter_of hValid hSpells hWindow hFires
  · intro next hOk
    obtain ⟨tab, hValid, hSpells⟩ := exists_crontab hOk
    obtain ⟨⟨hWhole, hLow, -⟩, -⟩ := nextCronRunAfter_ok hValid hSpells hOk
    refine ⟨hWhole, ?_, fun tab' hValid' hSpells' => (nextCronRunAfter_ok hValid' hSpells' hOk).2⟩
    unfold nextMinute oneMinuteMs oneSecondMs at hLow
    omega

end NextRun

section Examples

def leapDay : Crontab :=
  ⟨[⟨.one ['0'], none⟩], [⟨.one ['0'], none⟩], [⟨.one ['2', '9'], none⟩], [⟨.one ['2'], none⟩], [⟨.every, none⟩]⟩

theorem leapDay_valid : leapDay.Valid := by
  have hNumber {ds : Text} {min max : Nat} (hDigits : ds.all Char.isDigit = true) (hSome : ds ≠ [])
      (hMin : min ≤ decimal ds) (hMax : decimal ds ≤ max) : FieldValid min max [⟨.one ds, none⟩] := by
    refine ⟨List.cons_ne_nil _ _, fun item hMem => ?_⟩
    obtain rfl := List.mem_singleton.mp hMem
    exact ⟨⟨List.all_eq_true.mp hDigits, hSome, hMin, hMax⟩, nofun⟩
  refine ⟨hNumber (by decide) (by decide) (by decide) (by decide), hNumber (by decide) (by decide) (by decide)
    (by decide),
    hNumber (by decide) (by decide) (by decide) (by decide), hNumber (by decide) (by decide) (by decide) (by decide),
    List.cons_ne_nil _ _, fun item hMem => ?_⟩
  obtain rfl := List.mem_singleton.mp hMem
  exact ⟨trivial, nofun⟩

theorem leapDay_spells : leapDay.Spells "0 0 29 2 *".toList := by
  rw [Crontab.Spells]
  decide

theorem nextCronRunAfter_first_leap : (∃ next, nextCronRunAfter "0 0 29 2 *".toList 1700000000000 = .ok next) ↔
    ∃ tab : Crontab, tab.Valid ∧ tab.Spells "0 0 29 2 *".toList ∧ ∃ timestampMs, InWindow 1700000000000 timestampMs ∧
      tab.Fires timestampMs :=
  (nextCronRunAfter_first "0 0 29 2 *".toList 1700000000000 (by decide)).2.1

theorem leapDay_date {timestampMs : Nat} (hFires : leapDay.Fires timestampMs) :
    (Calendar.dateOf (timestampMs / 86400000 : Nat)).day = 29 ∧
      (Calendar.dateOf (timestampMs / 86400000 : Nat)).month = 2 := by
  obtain ⟨-, -, ⟨date, hValid, hNumber, ⟨dayItem, hDayItem, hDay⟩, ⟨monthItem, hMonthItem, hMonth⟩⟩, -⟩ := hFires
  obtain rfl := List.mem_singleton.mp hDayItem
  obtain rfl := List.mem_singleton.mp hMonthItem
  obtain ⟨k, hDay, hDayLast⟩ := hDay
  obtain ⟨j, hMonth, hMonthLast⟩ := hMonth
  have hTwentyNine : decimal ['2', '9'] = 29 := rfl
  have hTwo : decimal ['2'] = 2 := rfl
  rw [← hNumber, Calendar.dateOf_number hValid]
  dsimp only [CronRange.first, CronRange.last] at hDay hDayLast hMonth hMonthLast
  constructor
  · omega
  · omega

theorem leapDay_rests : ∀ day < 367, ¬ ((Calendar.dateOf (19415 + day : Nat)).day = 29 ∧
    (Calendar.dateOf (19415 + day : Nat)).month = 2) := by
  decide +kernel

/-- The minute at the end of the window is more than 366 days away, and is found. At the end of `u64` the search
overflows. -/
theorem nextCronRunAfter_reaches : (∃ next, nextCronRunAfter "0 0 29 2 *".toList 1677542340000 = .ok next) ∧
    (∀ tab : Crontab, tab.Valid → tab.Spells "0 0 29 2 *".toList → ∀ timestampMs, timestampMs % oneMinuteMs = 0 →
      1677542340000 < timestampMs → timestampMs ≤ 1677542340000 + 366 * 86400000 → ¬ tab.Fires timestampMs) ∧
    nextCronRunChecked "* * * * *".toList (2 ^ 64 - 1) = none := by
  refine ⟨?_, ?_, by decide +kernel⟩
  · refine @nextCronRunAfter_of _ _ leapDay leapDay_valid leapDay_spells 1709164800000 ⟨by decide, by decide,
      by decide⟩ ?_
    rw [← matchesCronFields_iff leapDay_valid]
    decide +kernel
  · intro tab hValid hSpells timestampMs _ hLow hHigh hFires
    have hFields : Except.ok tab.fields = Except.ok leapDay.fields :=
      (parseCronExpression_of hValid hSpells).symm.trans (parseCronExpression_of leapDay_valid leapDay_spells)
    rw [← matchesCronFields_iff hValid, Except.ok.inj hFields, matchesCronFields_iff leapDay_valid] at hFires
    have hRests := leapDay_rests (timestampMs / 86400000 - 19415) (by omega)
    rw [show 19415 + (timestampMs / 86400000 - 19415) = timestampMs / 86400000 by omega] at hRests
    exact hRests (leapDay_date hFires)

end Examples

end PrimeAgent
