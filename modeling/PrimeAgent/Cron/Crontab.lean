import PrimeAgent.Cron.IsoText
import PrimeAgent.Lib.Rounds

/-! # Cron expressions

The grammar of the five fields and the sets of values they denote. The parser accepts the fields of the grammar, each
with its set.
-/
namespace PrimeAgent

def decimal (ds : Text) : Nat :=
  Nat.ofDigitChars 10 ds 0

structure CronNumber (ds : Text) (min max : Nat) : Prop where
  digits : IsDigits ds
  shown : ds ≠ []
  le_decimal : min ≤ decimal ds
  decimal_le : decimal ds ≤ max

inductive CronRange where
  | every
  | one (value : Text)
  | span (start stop : Text)

namespace CronRange

def text : CronRange → Text
  | every => ['*']
  | one value => value
  | span start stop => start ++ '-' :: stop

def Valid (min max : Nat) : CronRange → Prop
  | every => True
  | one value => CronNumber value min max
  | span start stop => CronNumber start min max ∧ CronNumber stop min max ∧ decimal start ≤ decimal stop

def first (min : Nat) : CronRange → Nat
  | every => min
  | one value => decimal value
  | span start _ => decimal start

def last (max : Nat) : CronRange → Nat
  | every => max
  | one value => decimal value
  | span _ stop => decimal stop

end CronRange

structure CronItem where
  range : CronRange
  step : Option Text

namespace CronItem

def text (item : CronItem) : Text :=
  match item.step with
  | some step => item.range.text ++ '/' :: step
  | none => item.range.text

structure Valid (min max : Nat) (item : CronItem) : Prop where
  range : item.range.Valid min max
  step : ∀ step ∈ item.step, CronNumber step 1 max

def stride (item : CronItem) : Nat :=
  (item.step.map decimal).getD 1

def Denotes (min max : Nat) (item : CronItem) (value : Nat) : Prop :=
  ∃ k, value = item.range.first min + item.stride * k ∧ value ≤ item.range.last max

def values (min max : Nat) (item : CronItem) : List Nat :=
  List.range' (item.range.first min) ((item.range.last max - item.range.first min) / item.stride + 1) item.stride

end CronItem

def fieldText (items : List CronItem) : Text :=
  [','].intercalate (items.map CronItem.text)

section Numbers

variable {ds : Text} {min max : Nat}

theorem parseUnsigned_32 (hDigits : IsDigits ds) (hSome : ds ≠ []) :
    parseUnsigned 32 ds = (some (decimal ds)).filter (· < 2 ^ 32) := by
  obtain ⟨c, rest, rfl, -, hPlus⟩ := hDigits.no_sign hSome
  have hFold := foldl_digits_nat hDigits 0
  rw [parseUnsigned]
  · rw [List.isEmpty_cons, if_neg Bool.false_ne_true, hFold]
    rfl
  · rintro _ hEq
    exact hPlus (List.cons.inj hEq).1

theorem any_isNone (hDigits : IsDigits ds) : (ds.any fun c => (digit? c).isNone) = false := by
  rw [List.any_eq_false]
  intro c hMem
  rw [digit?_eq (hDigits c hMem)]
  exact Bool.false_ne_true

theorem digits_of_any (hAny : (ds.any fun c => (digit? c).isNone) = false) : IsDigits ds := by
  intro c hMem
  cases hDigit : c.isDigit with
  | true => rfl
  | false =>
    have hNone := List.any_eq_false.mp hAny c hMem
    rw [digit?_none hDigit] at hNone
    exact absurd rfl hNone

theorem parseCronNumber_of (hMax : max < 2 ^ 32) (hNumber : CronNumber ds min max) :
    parseCronNumber ds min max = .ok (decimal ds) := by
  obtain ⟨hDigits, hSome, hMin, hLe⟩ := hNumber
  rw [parseCronNumber, List.isEmpty_eq_false_iff.mpr hSome, any_isNone hDigits, parseUnsigned_32 hDigits hSome,
    if_neg Bool.false_ne_true, if_neg Bool.false_ne_true, Option.filter_some,
    if_pos (decide_eq_true (by omega : decimal ds < 2 ^ 32))]
  exact if_neg (by omega)

theorem parseCronNumber_ok {n : Nat} (hOk : parseCronNumber ds min max = .ok n) :
    CronNumber ds min max ∧ n = decimal ds := by
  rw [parseCronNumber] at hOk
  split at hOk
  · cases hOk
  · rename_i hSome
    split at hOk
    · cases hOk
    · rename_i hAny
      have hDigits := digits_of_any (Bool.eq_false_iff.mpr hAny)
      have hShown : ds ≠ [] := fun hNil => hSome (by rw [hNil]; rfl)
      rw [parseUnsigned_32 hDigits hShown, Option.filter_some] at hOk
      split at hOk
      · cases hOk
      · rename_i n' hParsed
        split at hParsed
        · obtain rfl := Option.some.inj hParsed
          split at hOk
          · cases hOk
          · cases hOk
            exact ⟨⟨hDigits, hShown, by omega, by omega⟩, rfl⟩
        · cases hParsed

end Numbers

section Parts

variable {min max : Nat} {range : CronRange} {item : CronItem} {values : List Nat}

theorem CronNumber.free {ds : Text} (hNumber : CronNumber ds min max) {c : Char} (hOther : c.isDigit = false) :
    c ∉ ds :=
  digits_free hNumber.digits hOther

theorem CronNumber.ne_star {ds : Text} (hNumber : CronNumber ds min max) : ds ≠ ['*'] := by
  rintro rfl
  exact hNumber.free rfl List.mem_cons_self

theorem CronRange.Valid.free (hValid : range.Valid min max) {c : Char} (hOther : c.isDigit = false) (hStar : c ≠ '*')
    (hDash : c ≠ '-') : c ∉ range.text := by
  cases range with
  | every => exact fun hMem => hStar (List.mem_singleton.mp hMem)
  | one value => exact CronNumber.free hValid hOther
  | span start stop =>
    intro hMem
    obtain hStart | hEq | hStop := by
      rwa [CronRange.text, List.mem_append, List.mem_cons] at hMem
    · exact hValid.1.free hOther hStart
    · exact hDash hEq
    · exact hValid.2.1.free hOther hStop

theorem CronRange.Valid.text_ne (hValid : range.Valid min max) : range.text ≠ [] := by
  cases range with
  | every => exact List.cons_ne_nil _ _
  | one value => exact CronNumber.shown hValid
  | span start stop => exact List.append_ne_nil_of_right_ne_nil _ (List.cons_ne_nil _ _)

theorem CronRange.Valid.first_le (hValid : range.Valid min max) (hBounds : min ≤ max) :
    range.first min ≤ range.last max := by
  cases range with
  | every => exact hBounds
  | one value => exact Nat.le_refl _
  | span start stop => exact hValid.2.2

section

variable (hValid : item.Valid min max)

include hValid

theorem CronItem.Valid.stride_pos : 0 < item.stride := by
  cases hStep : item.step with
  | none =>
    rw [stride, hStep]
    exact Nat.one_pos
  | some step =>
    have hNumber := hValid.step step hStep
    rw [stride, hStep]
    exact hNumber.le_decimal

theorem CronItem.Valid.mem_values (hBounds : min ≤ max) (value : Nat) :
    value ∈ item.values min max ↔ item.Denotes min max value := by
  have hPos := hValid.stride_pos
  have hLe := hValid.range.first_le hBounds
  rw [values, List.mem_range', Denotes]
  constructor
  · rintro ⟨k, hLt, rfl⟩
    have hDiv := Nat.mul_le_of_le_div _ _ _ (Nat.le_of_lt_succ hLt)
    rw [Nat.mul_comm] at hDiv
    exact ⟨k, rfl, by omega⟩
  · rintro ⟨k, rfl, hLast⟩
    refine ⟨k, Nat.lt_succ_of_le ((Nat.le_div_iff_mul_le hPos).mpr ?_), rfl⟩
    rw [Nat.mul_comm]
    omega

theorem CronItem.Valid.free : ',' ∉ item.text := by
  have hRange : ',' ∉ item.range.text := hValid.range.free rfl (by decide) (by decide)
  cases hStep : item.step with
  | none => rwa [text, hStep]
  | some step =>
    rw [text, hStep]
    intro hMem
    obtain hLeft | hSlash | hRight := by
      rwa [List.mem_append, List.mem_cons] at hMem
    · exact hRange hLeft
    · cases hSlash
    · exact (hValid.step step hStep).free rfl hRight

theorem CronItem.Valid.text_ne : item.text ≠ [] := by
  cases hStep : item.step with
  | none =>
    rw [text, hStep]
    exact hValid.range.text_ne
  | some step =>
    rw [text, hStep]
    exact List.append_ne_nil_of_right_ne_nil _ (List.cons_ne_nil _ _)

end

def readRange (text : Text) (min max : Nat) : Except String (Nat × Nat) :=
  if text = ['*'] then pure (min, max)
  else match splitOnce '-' text with
    | some (startText, endText) => do
      let start ← parseCronNumber startText min max
      let stop ← parseCronNumber endText min max
      if stop < start then throw ("Invalid cron range: " ++ String.ofList text)
      pure (start, stop)
    | none => do
      let value ← parseCronNumber text min max
      pure (value, value)

theorem readRange_of (hMax : max < 2 ^ 32) (hValid : range.Valid min max) :
    readRange range.text min max = .ok (range.first min, range.last max) := by
  rw [readRange]
  cases range with
  | every => exact if_pos rfl
  | one value =>
    have hNumber : CronNumber value min max := hValid
    rw [CronRange.text, if_neg hNumber.ne_star, splitOnce_none (hNumber.free rfl)]
    dsimp only
    rw [parseCronNumber_of hMax hNumber]
    rfl
  | span start stop =>
    obtain ⟨hStart, hStop, hLe⟩ := hValid
    have hStar : start ++ '-' :: stop ≠ ['*'] := fun hEq => by
      have hMem : '-' ∈ ['*'] := hEq ▸ List.mem_append_right start List.mem_cons_self
      exact absurd (List.mem_singleton.mp hMem) (by decide)
    rw [CronRange.text, if_neg hStar, splitOnce_append (hStart.free rfl)]
    dsimp only
    rw [parseCronNumber_of hMax hStart, parseCronNumber_of hMax hStop]
    exact if_neg (Nat.not_lt.mpr hLe)

theorem readRange_ok {text : Text} {start stop : Nat} (hOk : readRange text min max = .ok (start, stop)) :
    ∃ range : CronRange, range.Valid min max ∧ range.text = text ∧ range.first min = start ∧ range.last max = stop := by
  rw [readRange] at hOk
  split at hOk
  · rename_i hStar
    cases hOk
    exact ⟨.every, trivial, hStar.symm, rfl, rfl⟩
  · split at hOk
    · rename_i startText endText hSplit
      obtain ⟨rfl, -⟩ := splitOnce_eq_some hSplit
      cases hStart : parseCronNumber startText min max with
      | error e =>
        rw [hStart] at hOk
        cases hOk
      | ok n =>
        cases hStop : parseCronNumber endText min max with
        | error e =>
          rw [hStart, hStop] at hOk
          cases hOk
        | ok m =>
          obtain ⟨hStartNumber, rfl⟩ := parseCronNumber_ok hStart
          obtain ⟨hStopNumber, rfl⟩ := parseCronNumber_ok hStop
          rw [hStart, hStop] at hOk
          change (if decimal endText < decimal startText then _ else _) = _ at hOk
          split at hOk
          · cases hOk
          · cases hOk
            exact ⟨.span startText endText, ⟨hStartNumber, hStopNumber, by omega⟩, rfl, rfl, rfl⟩
    · cases hValue : parseCronNumber text min max with
      | error e =>
        rw [hValue] at hOk
        cases hOk
      | ok n =>
        obtain ⟨hNumber, rfl⟩ := parseCronNumber_ok hValue
        rw [hValue] at hOk
        cases hOk
        exact ⟨.one text, hNumber, rfl, rfl, rfl⟩

def readStep (text : Option Text) (max : Nat) : Except String Nat :=
  match text with
  | none => .ok 1
  | some step => parseCronNumber step 1 max

def readItem (rangeText : Text) (stepText : Option Text) (min max : Nat) : Except String (List Nat) :=
  (readStep stepText max).bind fun step => (readRange rangeText min max).bind fun bounds =>
    .ok (List.range' bounds.1 ((bounds.2 - bounds.1) / step + 1) step)

theorem readRange_steps (rangeText : Text) (step : Nat) : (if rangeText = ['*'] then (do
      let (start, stop) ← pure (min, max)
      pure (List.range' start ((stop - start) / step + 1) step) : Except String (List Nat))
    else match splitOnce '-' rangeText with
      | some (startText, endText) => do
        let start ← parseCronNumber startText min max
        let stop ← parseCronNumber endText min max
        if stop < start then throw ("Invalid cron range: " ++ String.ofList rangeText)
        let (start, stop) ← pure (start, stop)
        pure (List.range' start ((stop - start) / step + 1) step)
      | none => do
        let value ← parseCronNumber rangeText min max
        let (start, stop) ← pure (value, value)
        pure (List.range' start ((stop - start) / step + 1) step))
    = (readRange rangeText min max).bind fun bounds =>
      .ok (List.range' bounds.1 ((bounds.2 - bounds.1) / step + 1) step) := by
  rw [readRange]
  by_cases hStar : rangeText = ['*']
  · rw [if_pos hStar, if_pos hStar]
    rfl
  · rw [if_neg hStar, if_neg hStar]
    rcases splitOnce '-' rangeText with _ | ⟨startText, endText⟩
    · cases parseCronNumber rangeText min max <;> rfl
    · dsimp only
      cases parseCronNumber startText min max with
      | error e => rfl
      | ok start => cases parseCronNumber endText min max with
        | error e => rfl
        | ok stop =>
          change (if stop < start then _ else _) = Except.bind (if stop < start then _ else _) _
          by_cases hOrder : stop < start
          · rw [if_pos hOrder, if_pos hOrder]
            rfl
          · rw [if_neg hOrder, if_neg hOrder]
            rfl

theorem parseCronPart_eq (field part : Text) : parseCronPart field part min max =
    if part.isEmpty then .error ("Invalid cron field: " ++ String.ofList field)
    else match splitOnce '/' part with
      | some (range, step) => readItem range (some step) min max
      | none => readItem part none min max := by
  rw [parseCronPart]
  by_cases hEmpty : part.isEmpty = true
  · rw [if_pos hEmpty, if_pos hEmpty]
    rfl
  · rw [if_neg hEmpty, if_neg hEmpty]
    rcases splitOnce '/' part with _ | ⟨range, step⟩
    · exact readRange_steps part 1
    · cases hStep : parseCronNumber step 1 max with
      | error e =>
        dsimp only
        rw [hStep, readItem, readStep, hStep]
        rfl
      | ok n =>
        dsimp only
        rw [hStep, readItem, readStep, hStep]
        exact readRange_steps range n

theorem parseCronPart_of (hMax : max < 2 ^ 32) (hValid : item.Valid min max) (field : Text) :
    parseCronPart field item.text min max = .ok (item.values min max) := by
  have hRange := readRange_of hMax hValid.range
  have hSlash : '/' ∉ item.range.text := hValid.range.free rfl (by decide) (by decide)
  have hEmpty : item.text.isEmpty = false := List.isEmpty_eq_false_iff.mpr hValid.text_ne
  rw [parseCronPart_eq, hEmpty, if_neg Bool.false_ne_true]
  cases hStep : item.step with
  | none =>
    rw [CronItem.text, hStep]
    dsimp only
    rw [splitOnce_none hSlash]
    dsimp only
    rw [readItem, readStep, hRange, CronItem.values, CronItem.stride, hStep]
    rfl
  | some step =>
    have hNumber := parseCronNumber_of hMax (hValid.step step hStep)
    rw [CronItem.text, hStep]
    dsimp only
    rw [splitOnce_append hSlash]
    dsimp only
    rw [readItem, readStep, hRange, hNumber, CronItem.values, CronItem.stride, hStep]
    rfl

theorem readItem_ok {rangeText : Text} {stepText : Option Text} (hOk : readItem rangeText stepText min max = .ok values) :
    ∃ range : CronRange, range.text = rangeText ∧ (CronItem.mk range stepText).Valid min max ∧
      (CronItem.mk range stepText).values min max = values := by
  rw [readItem] at hOk
  cases hStep : readStep stepText max with
  | error e =>
    rw [hStep] at hOk
    cases hOk
  | ok step =>
    cases hRange : readRange rangeText min max with
    | error e =>
      rw [hStep, hRange] at hOk
      cases hOk
    | ok bounds =>
      rw [hStep, hRange] at hOk
      cases hOk
      obtain ⟨range, hValid, hText, hFirst, hLast⟩ := readRange_ok hRange
      refine ⟨range, hText, ⟨hValid, ?_⟩, ?_⟩
      · rintro stepText' hEq
        obtain rfl : stepText = some stepText' := hEq
        exact (parseCronNumber_ok hStep).1
      · have hStride : (CronItem.mk range stepText).stride = step := by
          cases stepText with
          | none => exact Except.ok.inj hStep
          | some stepText => exact (parseCronNumber_ok hStep).2.symm
        rw [CronItem.values, hStride]
        dsimp only
        rw [hFirst, hLast]

theorem parseCronPart_ok {field part : Text} (hOk : parseCronPart field part min max = .ok values) :
    ∃ item : CronItem, item.Valid min max ∧ item.text = part ∧ item.values min max = values := by
  rw [parseCronPart_eq] at hOk
  split at hOk
  · cases hOk
  · split at hOk
    · rename_i range step hSplit
      obtain ⟨rfl, -⟩ := splitOnce_eq_some hSplit
      obtain ⟨range, rfl, hValid, hValues⟩ := readItem_ok hOk
      exact ⟨⟨range, some step⟩, hValid, rfl, hValues⟩
    · obtain ⟨range, rfl, hValid, hValues⟩ := readItem_ok hOk
      exact ⟨⟨range, none⟩, hValid, rfl, hValues⟩

end Parts

section Fields

variable {min max : Nat} {items : List CronItem} {field : Text}

structure FieldValid (min max : Nat) (items : List CronItem) : Prop where
  shown : items ≠ []
  items : ∀ item ∈ items, item.Valid min max

theorem splitOn_fieldText (hValid : FieldValid min max items) :
    (fieldText items).splitOn ',' = items.map CronItem.text := by
  refine List.splitOn_intercalate ',' (fun part hMem => ?_) (List.map_eq_nil_iff.not.mpr hValid.shown)
  obtain ⟨item, hItem, rfl⟩ := List.mem_map.mp hMem
  exact (hValid.items item hItem).free

theorem foldlM_parts (hMax : max < 2 ^ 32) : ∀ {items : List CronItem} (acc : List Nat),
    (∀ item ∈ items, item.Valid min max) →
    (items.map CronItem.text).foldlM (fun values part => (values ++ ·) <$> parseCronPart field part min max) acc
      = .ok (acc ++ items.flatMap (CronItem.values min max)) := by
  intro items
  induction items with
  | nil =>
    intro acc _
    exact congrArg Except.ok (List.append_nil acc).symm
  | cons item items ih =>
    intro acc hValid
    rw [List.map_cons, List.foldlM_cons, parseCronPart_of hMax (hValid item List.mem_cons_self)]
    change List.foldlM _ (acc ++ item.values min max) _ = _
    rw [ih _ fun other hMem => hValid other (List.mem_cons_of_mem _ hMem), List.flatMap_cons, List.append_assoc]

theorem parseCronField_of (hMax : max < 2 ^ 32) (hValid : FieldValid min max items) :
    parseCronField (fieldText items) min max = .ok (items.flatMap (CronItem.values min max)) := by
  rw [parseCronField, splitOn_fieldText hValid, foldlM_parts hMax [] hValid.items, List.nil_append]

theorem foldlM_parts_ok : ∀ {parts : List Text} {acc values : List Nat},
    parts.foldlM (fun values part => (values ++ ·) <$> parseCronPart field part min max) acc = .ok values →
    ∃ items : List CronItem, items.map CronItem.text = parts ∧ ∀ item ∈ items, item.Valid min max := by
  intro parts
  induction parts with
  | nil => exact fun _ => ⟨[], rfl, nofun⟩
  | cons part parts ih =>
    intro acc values hOk
    rw [List.foldlM_cons] at hOk
    cases hPart : parseCronPart field part min max with
    | error e =>
      rw [hPart] at hOk
      cases hOk
    | ok partValues =>
      rw [hPart] at hOk
      obtain ⟨item, hItem, hText, -⟩ := parseCronPart_ok hPart
      obtain ⟨items, hTexts, hItems⟩ := ih hOk
      refine ⟨item :: items, ?_, ?_⟩
      · rw [List.map_cons, hText, hTexts]
      · intro other hMem
        obtain rfl | hTail := List.mem_cons.mp hMem
        · exact hItem
        · exact hItems other hTail

theorem parseCronField_ok {text : Text} {values : List Nat} (hOk : parseCronField text min max = .ok values) :
    ∃ items : List CronItem, FieldValid min max items ∧ fieldText items = text := by
  rw [parseCronField] at hOk
  obtain ⟨items, hTexts, hItems⟩ := foldlM_parts_ok hOk
  refine ⟨items, ⟨fun hNil => ?_, hItems⟩, ?_⟩
  · rw [hNil, List.map_nil] at hTexts
    exact absurd hTexts.symm (List.splitOn_ne_nil ',' text)
  · rw [fieldText, hTexts, List.intercalate_splitOn]

theorem mem_flatMap_values (hValid : FieldValid min max items) (hBounds : min ≤ max) (value : Nat) :
    value ∈ items.flatMap (CronItem.values min max) ↔ ∃ item ∈ items, item.Denotes min max value := by
  rw [List.mem_flatMap]
  constructor
  · rintro ⟨item, hMem, hValue⟩
    exact ⟨item, hMem, ((hValid.items item hMem).mem_values hBounds value).mp hValue⟩
  · rintro ⟨item, hMem, hValue⟩
    exact ⟨item, hMem, ((hValid.items item hMem).mem_values hBounds value).mpr hValue⟩

end Fields

/-! ### Expressions -/

structure Crontab where
  minute : List CronItem
  hour : List CronItem
  dayOfMonth : List CronItem
  month : List CronItem
  dayOfWeek : List CronItem

namespace Crontab

structure Valid (tab : Crontab) : Prop where
  minute : FieldValid 0 59 tab.minute
  hour : FieldValid 0 23 tab.hour
  dayOfMonth : FieldValid 1 31 tab.dayOfMonth
  month : FieldValid 1 12 tab.month
  dayOfWeek : FieldValid 0 7 tab.dayOfWeek

def Spells (tab : Crontab) (expression : Text) : Prop :=
  splitWhitespace expression = [tab.minute, tab.hour, tab.dayOfMonth, tab.month, tab.dayOfWeek].map fieldText

def fields (tab : Crontab) : CronFields where
  minute := tab.minute.flatMap (CronItem.values 0 59)
  hour := tab.hour.flatMap (CronItem.values 0 23)
  dayOfMonth := tab.dayOfMonth.flatMap (CronItem.values 1 31)
  month := tab.month.flatMap (CronItem.values 1 12)
  dayOfWeek := tab.dayOfWeek.flatMap (CronItem.values 0 7)

/-- A time whose UTC fields all belong to the sets of the expression. The days are counted from a Thursday,
and Sunday is
both 0 and 7. -/
def Fires (tab : Crontab) (timestampMs : Nat) : Prop :=
  (∃ item ∈ tab.minute, item.Denotes 0 59 (timestampMs / 60000 % 60)) ∧
  (∃ item ∈ tab.hour, item.Denotes 0 23 (timestampMs / 3600000 % 24)) ∧
  (∃ date : Calendar.Date, date.Valid ∧ date.number = (timestampMs / 86400000 : Nat) ∧
    (∃ item ∈ tab.dayOfMonth, item.Denotes 1 31 date.day) ∧ ∃ item ∈ tab.month, item.Denotes 1 12 date.month) ∧
  ∃ weekday, weekday % 7 = (timestampMs / 86400000 + 4) % 7 ∧ ∃ item ∈ tab.dayOfWeek, item.Denotes 0 7 weekday

end Crontab

variable {expression : Text}

theorem parseCronExpression_of {tab : Crontab} (hValid : tab.Valid) (hSpells : tab.Spells expression) :
    parseCronExpression expression = .ok tab.fields := by
  rw [parseCronExpression, hSpells, List.map_cons, List.map_cons, List.map_cons, List.map_cons, List.map_cons,
    List.map_nil]
  dsimp only
  rw [parseCronField_of (by decide) hValid.minute, parseCronField_of (by decide) hValid.hour,
    parseCronField_of (by decide) hValid.dayOfMonth, parseCronField_of (by decide) hValid.month,
    parseCronField_of (by decide) hValid.dayOfWeek]
  rfl

theorem parseCronExpression_ok {fields : CronFields} (hOk : parseCronExpression expression = .ok fields) :
    ∃ tab : Crontab, tab.Valid ∧ tab.Spells expression ∧ fields = tab.fields := by
  have hTab : ∃ tab : Crontab, tab.Valid ∧ tab.Spells expression := by
    rw [parseCronExpression] at hOk
    split at hOk
    · rename_i minute hour dayOfMonth month dayOfWeek hSplit
      obtain ⟨minuteValues, hMinute, hOk⟩ := Rounds.bind_ok hOk
      obtain ⟨hourValues, hHour, hOk⟩ := Rounds.bind_ok hOk
      obtain ⟨dayValues, hDay, hOk⟩ := Rounds.bind_ok hOk
      obtain ⟨monthValues, hMonth, hOk⟩ := Rounds.bind_ok hOk
      obtain ⟨weekdayValues, hWeekday, -⟩ := Rounds.bind_ok hOk
      obtain ⟨minuteItems, hMinuteValid, rfl⟩ := parseCronField_ok hMinute
      obtain ⟨hourItems, hHourValid, rfl⟩ := parseCronField_ok hHour
      obtain ⟨dayItems, hDayValid, rfl⟩ := parseCronField_ok hDay
      obtain ⟨monthItems, hMonthValid, rfl⟩ := parseCronField_ok hMonth
      obtain ⟨weekdayItems, hWeekdayValid, rfl⟩ := parseCronField_ok hWeekday
      exact ⟨⟨minuteItems, hourItems, dayItems, monthItems, weekdayItems⟩,
        ⟨hMinuteValid, hHourValid, hDayValid, hMonthValid, hWeekdayValid⟩, hSplit⟩
    · cases hOk
  obtain ⟨tab, hValid, hSpells⟩ := hTab
  refine ⟨tab, hValid, hSpells, ?_⟩
  rw [parseCronExpression_of hValid hSpells] at hOk
  exact (Except.ok.inj hOk).symm

end PrimeAgent
