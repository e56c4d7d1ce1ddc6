import PrimeAgent.Session.Timestamp

/-! # Schedules

The text of a schedule is a delay, an interval, a date or a cron expression. Times are Unix milliseconds, and are
stored as ISO-8601 text.
-/
namespace PrimeAgent

def oneSecondMs : Nat :=
  1000

def oneMinuteMs : Nat :=
  60 * oneSecondMs

/-- `u64` arithmetic, as a release build wraps it. -/
def asU64 (n : Nat) : Nat :=
  n % 2 ^ 64

section Iso

/-- A number with at least `width` places, its sign included. -/
def padded (width : Nat) (n : Int) : Text :=
  let digits := (Nat.repr n.natAbs).toList
  if n < 0 then '-' :: digits.leftpad (width - 1) '0' else digits.leftpad width '0'

def formatIso (millis : Int) : String :=
  let days := millis / 86400000
  let timeMs := millis % 86400000
  let z := days + 719468
  let era := (if 0 ≤ z then z else z - 146096).tdiv 146097
  let doe := z - era * 146097
  let yoe := (doe - doe.tdiv 1460 + doe.tdiv 36524 - doe.tdiv 146096).tdiv 365
  let y := yoe + era * 400
  let doy := doe - (365 * yoe + yoe.tdiv 4 - yoe.tdiv 100)
  let mp := (5 * doy + 2).tdiv 153
  let d := doy - (153 * mp + 2).tdiv 5 + 1
  let m := if mp < 10 then mp + 3 else mp - 9
  let y := if m ≤ 2 then y + 1 else y
  let hour := timeMs / 3600000
  let minute := timeMs / 60000 % 60
  let second := timeMs / 1000 % 60
  let ms := timeMs % 1000
  String.ofList (padded 4 y ++ '-' :: padded 2 m ++ '-' :: padded 2 d ++ 'T' :: padded 2 hour ++ ':' :: padded 2 minute
    ++ ':' :: padded 2 second ++ '.' :: padded 3 ms ++ ['Z'])

/-- `as i64` on a `u64`. -/
def asI64 (n : Nat) : Int :=
  if n < 2 ^ 63 then n else n - 2 ^ 64

@[irreducible] def isoFromMillis (millis : Nat) : String :=
  formatIso (asI64 millis)

/-- `str::parse` for an unsigned number of the given width: a plus sign is allowed, the empty string is not. -/
def parseUnsigned (bits : Nat) (text : Text) : Option Nat :=
  let digits := match text with
    | '+' :: rest => rest
    | _ => text
  let value := digits.foldl (fun n? c => n?.bind fun n => (digit? c).map fun d => 10 * n + d.toNat) (some 0)
  if digits.isEmpty then none else value.filter (· < 2 ^ bits)

/-- `split_once`. -/
def splitOnce (c : Char) (text : Text) : Option (Text × Text) :=
  match text.span (· ≠ c) with
  | (before, _ :: after) => some (before, after)
  | (_, []) => none

def splitLast (c : Char) (text : Text) : Option (Text × Text) :=
  match text.reverse.span (· ≠ c) with
  | (after, _ :: before) => some (before.reverse, c :: after.reverse)
  | (_, []) => none

def fractionPad (fraction : Text) : Option Int :=
  if fraction.isEmpty ∨ fraction.any (fun c => (digit? c).isNone) then none
  else parseI64 ((fraction.rightpad 3 '0').take 3)

/-- `parse_offset` of the scheduler: a sign, hours, and minutes behind a colon. -/
def parseZoneOffset (text : Text) : Option Int :=
  let read (sign : Int) (rest : Text) : Option Int := do
    let parts := rest.splitOn ':'
    let hours ← parts.head?.bind parseI64
    let minutes ← (parts[1]?.map parseI64).getD (some 0)
    return sign * (hours * 60 + minutes) * 60000
  match text with
  | '+' :: rest => read 1 rest
  | '-' :: rest => read (-1) rest
  | _ => none

def parseTimeWithOffset (time : Text) : Option (Int × Int) := do
  let (time, offset) ←
    if time.getLast? = some 'Z' then some (time.dropLast, 0)
    else match splitLast '+' time with
      | some (before, zone) => (parseZoneOffset zone).map fun offset => (before, offset)
      | none => match time with
        | [] => none -- the source slices behind the first byte, and would panic
        | first :: rest => match splitLast '-' rest with
          | some (before, zone) => (parseZoneOffset zone).map fun offset => (first :: before, offset)
          | none => some (time, 0)
  let parts := time.splitOn ':'
  if 3 < parts.length then none
  let hours ← parts.head?.bind parseI64
  let minutes ← (parts[1]?.map parseI64).getD (some 0)
  let secondsPart := parts[2]?.getD ['0']
  let (seconds, millis) ← match splitOnce '.' secondsPart with
    | some (seconds, fraction) => do
      let seconds ← parseI64 seconds
      let millis ← fractionPad fraction
      pure (seconds, millis)
    | none => (parseI64 secondsPart).map fun seconds => (seconds, 0)
  if 23 < hours ∨ 59 < minutes ∨ 59 < seconds then none
  return (hours * 3600000 + minutes * 60000 + seconds * 1000 + millis, offset)

def parseIsoMillis (text : String) : Option Nat := do
  let (date, time) ← splitOnce 'T' (trim text.toList)
  let [year, month, day] := date.splitOn '-' | none
  let year ← parseI64 year
  let month ← parseUnsigned 32 month
  let day ← parseUnsigned 32 day
  if ¬ (1 ≤ month ∧ month ≤ 12) ∨ ¬ (1 ≤ day ∧ day ≤ 31) then none
  let y := if month ≤ 2 then i64 (year - 1) else year
  let era := y / 400
  let yoe := y % 400
  let mp := if 2 < month then month - 3 else month + 9
  let doy := (153 * mp + 2) / 5 + day - 1
  let doe := yoe * 365 + yoe / 4 - yoe / 100 + doy
  let days := era * 146097 + doe - 719468
  let (time, offsetMs) ← parseTimeWithOffset time
  -- the `i64` arithmetic wraps, and `as u64` wraps the rest
  return ((days * 86400000 + time - offsetMs) % 2 ^ 64).toNat

end Iso

/-- `text.to_lowercase()`, for the ASCII words it is searched for. -/
def toLowercase (text : Text) : Text :=
  text.map Char.toLower

inductive ScheduleKind where
  | once
  | cron
  | interval
deriving DecidableEq

structure AgentCronSchedule where
  kind : ScheduleKind
  expression : String
  intervalMs : Option Nat
deriving DecidableEq

section Cron

structure CivilTime where
  minute : Nat
  hour : Nat
  day : Int
  month : Int
  weekday : Nat

def civilTime (timestampMs : Nat) : CivilTime :=
  let days := timestampMs / (24 * 60 * oneMinuteMs)
  let secondsOfDay := timestampMs % (24 * 60 * oneMinuteMs) / oneSecondMs
  let z : Int := days + 719468
  let doe := z % 146097
  let yoe := (doe - doe / 1460 + doe / 36524 - doe / 146096) / 365
  let doy := doe - (365 * yoe + yoe / 4 - yoe / 100)
  let mp := (5 * doy + 2) / 153
  ⟨secondsOfDay / 60 % 60, secondsOfDay / 3600, doy - (153 * mp + 2) / 5 + 1, if mp < 10 then mp + 3 else mp - 9,
    (days + 4) % 7⟩

structure CronFields where
  minute : List Nat
  hour : List Nat
  dayOfMonth : List Nat
  month : List Nat
  dayOfWeek : List Nat

def matchesCronFields (timestampMs : Nat) (fields : CronFields) : Bool :=
  let time := civilTime timestampMs
  fields.minute.contains time.minute && fields.hour.contains time.hour
    && fields.dayOfMonth.any (fun day => (day : Int) == time.day)
    && fields.month.any (fun month => (month : Int) == time.month)
    && (fields.dayOfWeek.contains time.weekday || (time.weekday == 0 && fields.dayOfWeek.contains 7))

def parseCronNumber (value : Text) (min max : Nat) : Except String Nat :=
  if value.isEmpty then .error "Invalid cron number: "
  else if value.any fun c => (digit? c).isNone then .error ("Invalid cron number: " ++ String.ofList value)
  else match parseUnsigned 32 value with
    | none => .error ("Invalid cron number: " ++ String.ofList value)
    | some parsed =>
      if parsed < min ∨ max < parsed then .error ("Cron number out of range: " ++ String.ofList value)
      else .ok parsed

def parseCronPart (field part : Text) (min max : Nat) : Except String (List Nat) := do
  if part.isEmpty then throw ("Invalid cron field: " ++ String.ofList field)
  let (rangeText, stepText) := match splitOnce '/' part with
    | some (range, step) => (range, some step)
    | none => (part, none)
  let step ← match stepText with
    | none => pure 1
    | some step => parseCronNumber step 1 max
  let (start, stop) ←
    if rangeText = ['*'] then pure (min, max)
    else match splitOnce '-' rangeText with
      | some (startText, endText) => do
        let start ← parseCronNumber startText min max
        let stop ← parseCronNumber endText min max
        if stop < start then throw ("Invalid cron range: " ++ String.ofList rangeText)
        pure (start, stop)
      | none => do
        let value ← parseCronNumber rangeText min max
        pure (value, value)
  return List.range' start ((stop - start) / step + 1) step

def parseCronField (field : Text) (min max : Nat) : Except String (List Nat) :=
  (field.splitOn ',').foldlM (fun values part => (values ++ ·) <$> parseCronPart field part min max) []

/-- `split_whitespace`. -/
def splitWhitespace (text : Text) : List Text :=
  (text.splitOnP isWhitespace).filter (!·.isEmpty)

def parseCronExpression (expression : Text) : Except String CronFields :=
  match splitWhitespace expression with
  | [minute, hour, dayOfMonth, month, dayOfWeek] =>
    return ⟨← parseCronField minute 0 59, ← parseCronField hour 0 23, ← parseCronField dayOfMonth 1 31,
      ← parseCronField month 1 12, ← parseCronField dayOfWeek 0 7⟩
  | _ => .error "Unsupported cron schedule. Use 'in 10m', 'at <ISO date>', @hourly, or five fields: minute hour day month weekday"

/-- The first of the next `n` whole minutes that matches. -/
def firstMatch (fields : CronFields) : Nat → Nat → Option Nat
  | 0, _ => none
  | n + 1, candidate =>
    if matchesCronFields candidate fields then some candidate else firstMatch fields n (candidate + oneMinuteMs)

def nextCronRunAfter (expression : Text) (afterMillis : Nat) : Except String Nat := do
  let fields ← parseCronExpression expression
  match firstMatch fields (366 * 24 * 60 + 1) ((afterMillis / oneMinuteMs + 1) * oneMinuteMs) with
  | some next => .ok next
  | none => .error ("Cron schedule did not match within one year: " ++ String.ofList expression)

end Cron

def nextRunAtForSchedule (schedule : AgentCronSchedule) (afterMillis : Nat) : Except String (Option Nat) :=
  match schedule.kind with
  | .once => .ok none
  | .interval => match schedule.intervalMs with
    | none => .error ("Invalid interval schedule: " ++ schedule.expression)
    | some 0 => .error ("Invalid interval schedule: " ++ schedule.expression)
    | some intervalMs => .ok (some (asU64 (afterMillis + intervalMs)))
  | .cron => some <$> nextCronRunAfter schedule.expression.toList afterMillis

/-- `next_run_at_for_schedule(..).ok().flatten().map(iso_from_millis)`. -/
def rolledRunAt (schedule : AgentCronSchedule) (afterMillis : Nat) : Option String :=
  match nextRunAtForSchedule schedule afterMillis with
  | .ok next => next.map isoFromMillis
  | .error _ => none

theorem rolledRunAt_once {schedule : AgentCronSchedule} (hOnce : schedule.kind = .once) (afterMillis : Nat) :
    rolledRunAt schedule afterMillis = none := by
  simp only [rolledRunAt, nextRunAtForSchedule, hOnce]
  rfl

section Parse

def saturatingMul (a b : Nat) : Nat :=
  min (a * b) (2 ^ 64 - 1)

def unitMultiplier (unit : Text) (allowSeconds : Bool) : Option Nat :=
  let unit := String.ofList (trim unit)
  if allowSeconds && ["s", "sec", "secs", "second", "seconds"].contains unit then some oneSecondMs
  else if ["m", "min", "mins", "minute", "minutes"].contains unit then some oneMinuteMs
  else if ["h", "hr", "hrs", "hour", "hours"].contains unit then some (60 * oneMinuteMs)
  else if ["d", "day", "days"].contains unit then some (24 * 60 * oneMinuteMs)
  else none

def splitAmountUnit (rest : Text) : Option (Nat × Text) :=
  let rest := trim rest
  let digits := rest.takeWhile fun c => (digit? c).isSome
  let behind := rest.dropWhile fun c => (digit? c).isSome
  let unit := trim behind
  (parseUnsigned 64 digits).bind fun amount =>
    if !unit.isEmpty && !(behind.head?.any isWhitespace) && !unit.all Char.isAlpha then none
    else some (amount, unit)

def parseInDelay (rest : Text) (now : Nat) : Option Nat := do
  let (amount, unit) ← splitAmountUnit rest
  let multiplier ← unitMultiplier unit false
  return asU64 (now + saturatingMul amount multiplier)

def parseEveryDelay (rest : Text) (now : Nat) : Except String (Option Nat) :=
  match splitAmountUnit rest with
  | none => .ok none
  | some (amount, unit) => match unitMultiplier unit true with
    | none => .ok none
    | some multiplier =>
      let intervalMs := saturatingMul amount multiplier
      if intervalMs < 10 * oneSecondMs then .error "Recurring interval must be at least 10 seconds"
      else .ok (some (asU64 (now + intervalMs)))

def stripMatchingQuotes (value : Text) : Text :=
  match value with
  | first :: rest =>
    if rest ≠ [] ∧ (first = '\x22' ∨ first = '\x27') ∧ rest.getLast? = some first then rest.dropLast else value
  | [] => value

def normalizeCronAlias (text : Text) : Text :=
  let text := String.ofList text
  (if text = "@hourly" then "0 * * * *"
    else if text = "@daily" then "0 0 * * *"
    else if text = "@weekly" then "0 0 * * 0"
    else if text = "@monthly" then "0 0 1 * *"
    else text).toList

def stripPrefix? (word : String) (lower : Text) : Option Text :=
  lower.dropPrefix? word.toList

def parseAgentCronSchedule (input : String) (now : Nat) : Except String (AgentCronSchedule × Nat) := do
  let text := stripMatchingQuotes (trim input.toList)
  if text.isEmpty then throw "Cron schedule cannot be empty"
  let lower := toLowercase text
  if let some next := (stripPrefix? "in " lower).bind (parseInDelay · now) then
    return (⟨.once, String.ofList text, none⟩, next)
  let everyDelay (word : String) : Except String (Option Nat) :=
    match stripPrefix? word lower with
    | some rest => parseEveryDelay rest now
    | none => .ok none
  if let some next ← everyDelay "every " then
    return (⟨.interval, String.ofList text, some (asU64 (next + 2 ^ 64 - now))⟩, next)
  if let some next ← everyDelay "each " then
    return (⟨.interval, String.ofList text, some (asU64 (next + 2 ^ 64 - now))⟩, next)
  if (stripPrefix? "at " lower).isSome then
    match parseIsoMillis (String.ofList (trim (text.drop 3))) with
    | none => throw "Invalid one-shot schedule. Use: at <ISO date>"
    | some date =>
      if date ≤ now then throw "One-shot schedule must be in the future"
      return (⟨.once, String.ofList text, none⟩, date)
  let expression := normalizeCronAlias text
  let next ← nextCronRunAfter expression now
  return (⟨.cron, String.ofList expression, none⟩, next)

end Parse

end PrimeAgent
