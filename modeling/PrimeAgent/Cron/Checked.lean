import PrimeAgent.Cron.Schedule

/-! # Schedules with checked arithmetic

The parsers as a build with overflow checks runs them: they come to nothing where a sum or a product leaves its type,
  or a
slice leaves its text.
-/
namespace PrimeAgent

def checkU64 (n : Nat) : Option Nat :=
  if n < 2 ^ 64 then some n else none

theorem checkU64_of {n : Nat} (hFits : n < 2 ^ 64) : checkU64 n = some n :=
  if_pos hFits

def searchChecked (fields : CronFields) (deadline : Nat) : Nat → Nat → Option (Option Nat)
  | 0, _ => some none
  | n + 1, candidate =>
    if deadline < candidate then some none
    else if matchesCronFields candidate fields then some (some candidate)
    else (checkU64 (candidate + oneMinuteMs)).bind (searchChecked fields deadline n)

def nextCronRunChecked (expression : Text) (afterMillis : Nat) : Option (Except String Nat) :=
  match parseCronExpression expression with
  | .error error => some (.error error)
  | .ok fields => do
    let candidate ← checkU64 ((afterMillis / oneMinuteMs + 1) * oneMinuteMs)
    let deadline ← checkU64 (candidate + 366 * 24 * 60 * oneMinuteMs)
    match ← searchChecked fields deadline (366 * 24 * 60 + 2) candidate with
    | some next => some (.ok next)
    | none => some (.error ("Cron schedule did not match within one year: " ++ String.ofList expression))

theorem searchChecked_eq (fields : CronFields) : ∀ {n candidate : Nat}, candidate + (n + 1) * oneMinuteMs < 2 ^ 64 →
    searchChecked fields (candidate + n * oneMinuteMs) (n + 2) candidate = some (firstMatch fields (n + 1) candidate)
      := by
  intro n
  induction n with
  | zero =>
    intro candidate hFits
    rw [searchChecked, if_neg (by omega), firstMatch, firstMatch, Nat.zero_mul, Nat.add_zero]
    split
    · rfl
    · rw [checkU64_of (by omega), Option.bind_some, searchChecked, if_pos (Nat.lt_add_of_pos_right (by decide))]
  | succ n ih =>
    intro candidate hFits
    have hStep : candidate + (n + 1) * oneMinuteMs = candidate + oneMinuteMs + n * oneMinuteMs := by
      rw [Nat.succ_mul]
      omega
    rw [Nat.succ_mul] at hFits
    rw [searchChecked, if_neg (by omega), firstMatch]
    split
    · rfl
    · rw [checkU64_of (by omega), Option.bind_some, hStep, ih (by omega)]

theorem nextCronRunChecked_eq {expression : Text} {afterMillis : Nat}
    (hFits : (afterMillis / oneMinuteMs + 1) * oneMinuteMs + 366 * (24 * 60 * oneMinuteMs) + oneMinuteMs < 2 ^ 64) :
    nextCronRunChecked expression afterMillis = some (nextCronRunAfter expression afterMillis) := by
  rw [nextCronRunChecked, nextCronRunAfter]
  cases parseCronExpression expression with
  | error error => rfl
  | ok fields =>
    generalize (afterMillis / oneMinuteMs + 1) * oneMinuteMs = candidate at *
    have hSearch := @searchChecked_eq fields (366 * 24 * 60) candidate (by omega)
    dsimp only
    rw [Option.bind_eq_bind, checkU64_of (by omega), Option.bind_some, Option.bind_eq_bind, checkU64_of (by omega),
      Option.bind_some, hSearch, Option.bind_some]
    have hBind (f : CronFields → Except String Nat) : (Except.ok fields >>= f) = f fields := rfl
    rw [hBind]
    generalize firstMatch fields (366 * 24 * 60 + 1) candidate = found
    cases found <;> rfl

section Dates

def checkI64 (n : Int) : Option Int :=
  if -(2 ^ 63) ≤ n ∧ n < 2 ^ 63 then some n else none

def readDay (text : Text) : Option (Int × Nat × Nat × Text) := do
  let (date, time) ← splitOnce 'T' text
  let [year, month, day] := date.splitOn '-' | none
  let year ← parseI64 year
  let month ← parseUnsigned 32 month
  let day ← parseUnsigned 32 day
  if ¬ (1 ≤ month ∧ month ≤ 12) ∨ ¬ (1 ≤ day ∧ day ≤ 31) then none
  return (year, month, day, time)

def daysChecked (year : Int) (month day : Nat) : Option Int := do
  let y ← if month ≤ 2 then checkI64 (year - 1) else some year
  let mp := if 2 < month then month - 3 else month + 9
  let doy := (153 * mp + 2) / 5 + day - 1
  let doe := y % 400 * 365 + y % 400 / 4 - y % 400 / 100 + doy
  let eraDays ← checkI64 (y / 400 * 146097)
  let days ← checkI64 (eraDays + doe)
  checkI64 (days - 719468)

/-- The time before its offset, and the text of the offset. The search for a minus begins behind the first byte. -/
def splitZone (time : Text) : Option (Text × Option Text) :=
  if time.getLast? = some 'Z' then some (time.dropLast, none)
  else match splitLast '+' time with
    | some (before, zone) => some (before, some zone)
    | none => match time with
      | [] => none
      | first :: rest =>
        if first.utf8Size = 1 then match splitLast '-' rest with
          | some (before, zone) => some (first :: before, some zone)
          | none => some (time, none)
        else none

def readZone (text : Text) : Option (Int × Int × Int) :=
  let read (sign : Int) (rest : Text) : Option (Int × Int × Int) := do
    let parts := rest.splitOn ':'
    let hours ← parts.head?.bind parseI64
    let minutes ← (parts[1]?.map parseI64).getD (some 0)
    return (sign, hours, minutes)
  match text with
  | '+' :: rest => read 1 rest
  | '-' :: rest => read (-1) rest
  | _ => none

def zoneChecked (sign hours minutes : Int) : Option Int := do
  let hourMinutes ← checkI64 (hours * 60)
  let minutes ← checkI64 (hourMinutes + minutes)
  let minutes ← checkI64 (sign * minutes)
  checkI64 (minutes * 60000)

def readClock (time : Text) : Option (Int × Int × Int × Int) := do
  let parts := time.splitOn ':'
  if 3 < parts.length then none
  let hours ← parts.head?.bind parseI64
  let minutes ← (parts[1]?.map parseI64).getD (some 0)
  let secondsPart := parts[2]?.getD ['0']
  let (seconds, millis) ← match splitOnce '.' secondsPart with
    | some (seconds, fraction) => do
      let seconds ← parseI64 seconds
      let millis ← fractionPad fraction
      pure (seconds, millis)
    | none => (parseI64 secondsPart).map fun seconds => (seconds, 0)
  if 23 < hours ∨ 59 < minutes ∨ 59 < seconds then none
  return (hours, minutes, seconds, millis)

def clockChecked (hours minutes seconds millis : Int) : Option Int := do
  let hourMs ← checkI64 (hours * 3600000)
  let minuteMs ← checkI64 (minutes * 60000)
  let clock ← checkI64 (hourMs + minuteMs)
  let secondMs ← checkI64 (seconds * 1000)
  let clock ← checkI64 (clock + secondMs)
  checkI64 (clock + millis)

/-- `parse_time_with_offset`: nothing where it panics, and no time where it refuses the text. -/
def parseTimeChecked (time : Text) : Option (Option (Int × Int)) := do
  let (time, zone) ← splitZone time
  let offset : Option Int ← match zone with
    | none => some (some 0)
    | some zone => match readZone zone with
      | none => some none
      | some (sign, hours, minutes) => (zoneChecked sign hours minutes).map some
  match offset, readClock time with
  | some offset, some (hours, minutes, seconds, millis) =>
    (clockChecked hours minutes seconds millis).map fun clock => some (clock, offset)
  | _, _ => some none

def instantChecked (days clock offset : Int) : Option Int := do
  let hours ← checkI64 (days * 24)
  let minutes ← checkI64 (hours * 60)
  let seconds ← checkI64 (minutes * 60)
  let millis ← checkI64 (seconds * 1000)
  let millis ← checkI64 (millis + clock)
  checkI64 (millis - offset)

def parseIsoChecked (text : Text) : Option (Option Nat) :=
  match readDay (trim text) with
  | none => some none
  | some (year, month, day, time) => do
    let days ← daysChecked year month day
    match ← parseTimeChecked time with
    | none => some none
    | some (clock, offset) => do
      let millis ← instantChecked days clock offset
      return some (millis % 2 ^ 64).toNat

end Dates

section Schedules

def parseInDelayChecked (rest : Text) (now : Nat) : Option (Option Nat) :=
  match (do
    let (amount, unit) ← splitAmountUnit rest
    let multiplier ← unitMultiplier unit false
    return saturatingMul amount multiplier : Option Nat) with
  | none => some none
  | some delay => (checkU64 (now + delay)).map some

def parseEveryDelayChecked (rest : Text) (now : Nat) : Option (Except String (Option Nat)) :=
  match splitAmountUnit rest with
  | none => some (.ok none)
  | some (amount, unit) => match unitMultiplier unit true with
    | none => some (.ok none)
    | some multiplier =>
      let intervalMs := saturatingMul amount multiplier
      if intervalMs < 10 * oneSecondMs then some (.error "Recurring interval must be at least 10 seconds")
      else (checkU64 (now + intervalMs)).map fun next => .ok (some next)

def parseDateOrCronChecked (text : Text) (now : Nat) : Option (Except String (AgentCronSchedule × Nat)) :=
  if (stripPrefix? "at " (toLowercase text)).isSome then do
    match ← parseIsoChecked (trim (text.drop 3)) with
    | none => return .error "Invalid one-shot schedule. Use: at <ISO date>"
    | some date =>
      if date ≤ now then return .error "One-shot schedule must be in the future"
      return .ok (⟨.once, String.ofList text, none⟩, date)
  else do
    let expression := normalizeCronAlias text
    match ← nextCronRunChecked expression now with
    | .error error => return .error error
    | .ok next => return .ok (⟨.cron, String.ofList expression, none⟩, next)

def parseIntervalChecked (text : Text) (now : Nat) :
    List String → Option (Except String (AgentCronSchedule × Nat))
  | [] => parseDateOrCronChecked text now
  | word :: words => match stripPrefix? word (toLowercase text) with
    | none => parseIntervalChecked text now words
    | some rest => do
      match ← parseEveryDelayChecked rest now with
      | .error error => return .error error
      | .ok none => parseIntervalChecked text now words
      | .ok (some next) => return .ok (⟨.interval, String.ofList text, some (next - now)⟩, next)

def parseAgentCronScheduleChecked (input : String) (now : Nat) : Option (Except String (AgentCronSchedule × Nat)) :=
  let text := stripMatchingQuotes (trim input.toList)
  if text.isEmpty then some (.error "Cron schedule cannot be empty")
  else do
    let delay ← match stripPrefix? "in " (toLowercase text) with
      | some rest => parseInDelayChecked rest now
      | none => some none
    match delay with
    | some next => return .ok (⟨.once, String.ofList text, none⟩, next)
    | none => parseIntervalChecked text now ["every ", "each "]

end Schedules

end PrimeAgent
