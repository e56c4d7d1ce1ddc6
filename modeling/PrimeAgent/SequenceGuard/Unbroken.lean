import Mathlib.Data.List.Forall2
import PrimeAgent.SequenceGuard.Streams

/-! # Runs over streams of sequences

What the guard delivers over any run, and over a stream in which no sequence is broken off.
-/
namespace PrimeAgent.SequenceGuard

/-- A part of a stream: a whole sequence, or the first units of one the next part breaks off. -/
inductive Part where
  | whole (sequence : Sequence)
  | broken (sequence : Sequence) (count : Nat)

namespace Part

def units : Part → List (List UInt8)
  | whole sequence => sequence.units
  | broken sequence count => sequence.units.take count

def Wf : Part → Prop
  | whole sequence => sequence.Wf
  | broken sequence count => sequence.Wf ∧ 0 < count ∧ count < sequence.units.length

def Clear : Part → Prop
  | whole sequence => sequence.Clear
  | broken _ _ => False

def deliver : Part → List GuardOutput
  | whole sequence => sequence.deliver
  | broken _ _ => []

end Part

def Arriving (rest : List (List UInt8)) : Prop :=
  ∃ sequence : Sequence, ∃ count, sequence.Wf ∧ sequence.Clear ∧ count < sequence.units.length ∧
    rest = sequence.units.take count

def Arrives (isUppercase : Char → Bool) (fed : Event × Nat) (unit : List UInt8) : Prop :=
  continuationBytes isUppercase fed.1 = some unit ∧
    (unit = [ESC] → ∃ key, fed.1 = .key key ∧ isBareEscPress key)

def lastFed (calls : List Call) : Option Nat :=
  (feeds calls).getLast?.map Prod.snd

/-- Each event comes less than `HOLD` after the one before it. -/
def Spaced (calls : List Call) : Prop :=
  ∀ before event now after last, calls = before ++ .feed event now :: after → lastFed before = some last →
    now < last + HOLD

def Sorted (calls : List Call) : Prop :=
  calls.Pairwise fun call later => call.now ≤ later.now

def EndsWithEvent (calls : List Call) : Prop :=
  ∃ before event now, calls = before ++ [.feed event now]

/-! ### While every call comes in time -/

/-- Every call, a flush as well, comes less than `HOLD` after the last event. -/
def Close (calls : List Call) : Prop :=
  ∀ before call after last, calls = before ++ call :: after → lastFed before = some last → call.now < last + HOLD

variable {call : Call} {calls : List Call} {rest : List (List UInt8)}

theorem Close.initial (hClose : Close (calls ++ [call])) : Close calls := by
  intro before other after last hCalls hLast
  exact hClose before other (after ++ [call]) last (by simp [hCalls]) hLast

theorem Close.last (hClose : Close (calls ++ [call])) {last : Nat} (hLast : lastFed calls = some last) :
    call.now < last + HOLD :=
  hClose calls call [] last rfl hLast

def Reached (rest : List (List UInt8)) (last : Option Nat) : Option PendingEscape → Prop
  | none => rest = []
  | some pending => ∃ front now, rest = [ESC] :: front ∧ pending.assembled = [ESC] ++ front.flatten ∧
      last = some now ∧ pending.deadline = now + HOLD

def Growing (rest : List (List UInt8)) : Prop :=
  rest = [] ∨ ∃ front, rest = [ESC] :: front ∧ Grows [ESC] front

theorem Arriving.growing (hArriving : Arriving rest) : Growing rest := by
  obtain ⟨sequence, count, hWf, hClear, hCount, rfl⟩ := hArriving
  obtain ⟨middle, last, hCompletes⟩ := completes hWf hClear
  rw [hCompletes.units] at hCount ⊢
  cases count with
  | zero => exact .inl rfl
  | succ count =>
    have hTake : (middle ++ [last]).take count = middle.take count := by
      rw [List.take_append_of_le_length]
      simp only [List.length_cons, List.length_append, List.length_nil] at hCount
      omega
    refine .inr ⟨middle.take count, by rw [List.take_succ_cons, hTake], ?_⟩
    have hGrows := hCompletes.grows
    rw [← List.take_append_drop count middle] at hGrows
    exact (Grows.append.mp hGrows).1

theorem forall₂_concat {α β : Type} {R : α → β → Prop} {list : List α} {x : α} {others : List β}
    (hAll : List.Forall₂ R (list ++ [x]) others) :
    ∃ before y, others = before ++ [y] ∧ List.Forall₂ R list before ∧ R x y := by
  induction list generalizing others with
  | nil =>
    cases hAll with
    | cons hHead hTail =>
      cases hTail
      exact ⟨[], _, rfl, .nil, hHead⟩
  | cons first list ih =>
    cases hAll with
    | cons hHead hTail =>
      obtain ⟨before, y, rfl, hBefore, hLast⟩ := ih hTail
      exact ⟨_ :: before, y, rfl, .cons hHead hBefore, hLast⟩

section

variable {isUppercase : Char → Bool} {calls : List Call} {pending : Option PendingEscape} {outputs : List GuardOutput}
  {event : Event} {now : Nat} {unit : List UInt8} {front : List (List UInt8)} {last : Option Nat}

theorem lastFed_feed (calls : List Call) (event : Event) (now : Nat) :
    lastFed (calls ++ [.feed event now]) = some now := by
  simp [lastFed, feeds_append, Call.fed]

theorem lastFed_flush (calls : List Call) (now : Nat) : lastFed (calls ++ [.flushExpired now]) = lastFed calls := by
  simp [lastFed, feeds_append, Call.fed]

theorem run_opens (hRun : run isUppercase calls = some (none, outputs)) (hArrives : Arrives isUppercase (event, now) [ESC]) :
    ∃ pending, run isUppercase (calls ++ [.feed event now]) = some (pending, outputs) ∧
      Reached [[ESC]] (some now) pending := by
  obtain ⟨key, hKey, hBare⟩ := hArrives.2 rfl
  dsimp only at hKey
  refine ⟨some ⟨key, [ESC], none, now + HOLD⟩, ?_, [], now, rfl, rfl, rfl, rfl⟩
  rw [run_append, hRun, advance, Option.bind_some, hKey]
  simp [step, feed, feedFree, hBare]

section

variable (hRun : run isUppercase calls = some (pending, outputs))

include hRun

theorem run_grows (hReached : Reached ([ESC] :: front) last pending)
    (hNow : ∀ time, last = some time → now < time + HOLD) (hArrives : Arrives isUppercase (event, now) unit)
    (hGrows : isCompleteSequence ([ESC] ++ front.flatten ++ unit) = some false) :
    ∃ pending, run isUppercase (calls ++ [.feed event now]) = some (pending, outputs) ∧
      Reached ([ESC] :: (front ++ [unit])) (some now) pending := by
  cases pending with
  | none => cases hReached
  | some pending =>
    obtain ⟨front', time, hFront, hAssembled, hLast, hDeadline⟩ := hReached
    cases hFront
    have hLive : ¬ pending.deadline ≤ now := by
      rw [hDeadline]
      exact Nat.not_le.mpr (hNow time hLast)
    refine ⟨some ⟨pending.head, pending.assembled ++ unit, pending.first.or (some event), now + HOLD⟩, ?_,
      front ++ [unit], now, rfl, ?_, rfl, rfl⟩
    · have hBytes : continuationBytes isUppercase event = some unit := hArrives.1
      rw [run_append, hRun, advance, Option.bind_some]
      simp only [step, feed, hLive, if_false, hBytes, continued, hAssembled, hGrows, Option.bind_some, Option.map_some,
        Bool.false_eq_true, List.append_nil]
    · simp [hAssembled]

theorem run_completes {delivered : List GuardOutput} (hReached : Reached ([ESC] :: front) last pending)
    (hNow : ∀ time, last = some time → now < time + HOLD) (hArrives : Arrives isUppercase (event, now) unit)
    (hComplete : isCompleteSequence ([ESC] ++ front.flatten ++ unit) = some true)
    (hClassified : ∀ first, classify ([ESC] ++ front.flatten ++ unit) first = some delivered) :
    run isUppercase (calls ++ [.feed event now]) = some (none, outputs ++ delivered) := by
  cases pending with
  | none => cases hReached
  | some pending =>
    obtain ⟨front', time, hFront, hAssembled, hLast, hDeadline⟩ := hReached
    cases hFront
    have hLive : ¬ pending.deadline ≤ now := by
      rw [hDeadline]
      exact Nat.not_le.mpr (hNow time hLast)
    have hBytes : continuationBytes isUppercase event = some unit := hArrives.1
    rw [run_append, hRun, advance, Option.bind_some]
    simp only [step, feed, hLive, if_false, hBytes, continued, hAssembled, hComplete, hClassified, Option.bind_some,
      Option.map_some, if_true]

theorem run_flush {rest : List (List UInt8)} (hReached : Reached rest (lastFed calls) pending)
    (hNow : rest = [] ∨ ∀ time, lastFed calls = some time → now < time + HOLD) :
    run isUppercase (calls ++ [.flushExpired now]) = some (pending, outputs) := by
  have hSame : flushExpired pending now = (pending, []) := by
    cases pending with
    | none => rfl
    | some pending =>
      obtain ⟨front, time, hFront, -, hLast, hDeadline⟩ := hReached
      obtain hRest | hNow := hNow
      · rw [hRest] at hFront
        cases hFront
      · have hLive : ¬ pending.deadline ≤ now := by
          rw [hDeadline]
          exact Nat.not_le.mpr (hNow time hLast)
        exact if_neg hLive
  rw [run_append, hRun, advance, Option.bind_some]
  simp [step, hSame]

end

end

def ClearStream (parts : List Part) : Prop :=
  ∀ part ∈ parts, part.Wf ∧ part.Clear

theorem Part.completes {part : Part} (hWf : part.Wf) (hClear : part.Clear) : ∃ middle last,
    part.units = [ESC] :: (middle ++ [last]) ∧ Grows [ESC] middle ∧
      isCompleteSequence ([ESC] ++ middle.flatten ++ last) = some true ∧
      ∀ first, classify ([ESC] ++ middle.flatten ++ last) first = some part.deliver := by
  cases part with
  | whole sequence =>
    obtain ⟨middle, last, hUnits, hGrows, hComplete, hClassified⟩ := SequenceGuard.completes hWf hClear
    exact ⟨middle, last, hUnits, hGrows, hComplete, hClassified⟩
  | broken sequence count => exact hClear.elim

theorem run_close (isUppercase : Char → Bool) (hClose : Close calls) :
    ∀ {parts : List Part} {rest : List (List UInt8)}, ClearStream parts → Growing rest →
      List.Forall₂ (Arrives isUppercase) (feeds calls) (parts.flatMap Part.units ++ rest) →
      ∃ pending, run isUppercase calls = some (pending, parts.flatMap Part.deliver) ∧
        Reached rest (lastFed calls) pending := by
  induction calls using List.reverseRecOn with
  | nil =>
    intro parts rest hParts _ hArrive
    obtain ⟨hUnits, rfl⟩ := List.append_eq_nil_iff.mp (List.forall₂_nil_left_iff.mp hArrive)
    have hNil : parts = [] := by
      match parts with
      | [] => rfl
      | part :: parts =>
        obtain ⟨hWf, hClear⟩ := hParts part List.mem_cons_self
        obtain ⟨middle, last, hPart, -⟩ := part.completes hWf hClear
        rw [List.flatMap_cons, hPart] at hUnits
        cases hUnits
    subst hNil
    exact ⟨none, rfl, rfl⟩
  | append_singleton calls call ih =>
    intro parts rest hParts hGrowing hArrive
    cases call with
    | flushExpired now =>
      rw [feeds_append, Call.fed, Option.toList_none, List.append_nil] at hArrive
      obtain ⟨pending, hRun, hReached⟩ := ih hClose.initial hParts hGrowing hArrive
      rw [lastFed_flush]
      exact ⟨pending, run_flush hRun hReached (.inr fun time hLast => hClose.last hLast), hReached⟩
    | feed event now =>
      rw [feeds_append] at hArrive
      obtain ⟨before, unit, hUnits, hBefore, hUnit⟩ := forall₂_concat hArrive
      have hNow : ∀ time, lastFed calls = some time → now < time + HOLD := fun time hLast => hClose.last hLast
      rw [lastFed_feed]
      obtain rfl | ⟨front, rfl, hGrows⟩ := hGrowing
      · -- the unit ends the last whole part
        rw [List.append_nil] at hUnits
        obtain rfl | ⟨parts, part, rfl⟩ := parts.eq_nil_or_concat
        · simp at hUnits
        · rw [List.concat_eq_append] at hUnits hParts ⊢
          obtain ⟨hWf, hClear⟩ := hParts part (by simp)
          obtain ⟨middle, last, hPart, hGrows, hComplete, hClassified⟩ := part.completes hWf hClear
          rw [List.flatMap_append, List.flatMap_singleton, hPart, ← List.cons_append, ← List.append_assoc] at hUnits
          obtain ⟨rfl, hLast⟩ := List.append_inj' hUnits rfl
          cases hLast
          obtain ⟨pending, hRun, hReached⟩ := ih hClose.initial
            (fun other hOther => hParts other (List.mem_append_left _ hOther)) (.inr ⟨middle, rfl, hGrows⟩) hBefore
          refine ⟨none, ?_, rfl⟩
          rw [List.flatMap_append, List.flatMap_singleton]
          exact run_completes hRun hReached hNow hUnit hComplete hClassified
      · obtain rfl | ⟨front, last, rfl⟩ := front.eq_nil_or_concat
        · -- the unit is the escape of the next part
          obtain ⟨rfl, hLast⟩ := List.append_inj' hUnits rfl
          cases hLast
          rw [← List.append_nil (parts.flatMap Part.units)] at hBefore
          obtain ⟨pending, hRun, hReached⟩ := ih hClose.initial hParts (.inl rfl) hBefore
          cases pending with
          | none => exact run_opens hRun hUnit
          | some pending =>
            obtain ⟨_, _, hRest, -⟩ := hReached
            cases hRest
        · -- the unit grows what is held of it
          rw [List.concat_eq_append] at hUnits hGrows ⊢
          rw [← List.cons_append, ← List.append_assoc] at hUnits
          obtain ⟨rfl, hLast⟩ := List.append_inj' hUnits rfl
          cases hLast
          obtain ⟨hFront, hUnfinished, -⟩ := Grows.append.mp hGrows
          obtain ⟨pending, hRun, hReached⟩ := ih hClose.initial hParts (.inr ⟨front, rfl, hFront⟩) hBefore
          exact run_grows hRun hReached hNow hUnit hUnfinished

/-! ### Sorted runs -/

theorem first_feed (hEnds : EndsWithEvent calls) :
    ∃ before event now after, calls = before ++ .feed event now :: after ∧ feeds before = [] := by
  obtain ⟨front, event, now, rfl⟩ := hEnds
  induction front with
  | nil => exact ⟨[], event, now, [], rfl, rfl⟩
  | cons call front ih =>
    cases call with
    | feed first time => exact ⟨[], first, time, _, rfl, rfl⟩
    | flushExpired time =>
      obtain ⟨before, first, moment, after, hSplit, hNone⟩ := ih
      refine ⟨.flushExpired time :: before, first, moment, after, by rw [List.cons_append, hSplit, List.cons_append], ?_⟩
      simpa [feeds, Call.fed] using hNone

theorem Spaced.close (hSpaced : Spaced calls) (hSorted : Sorted calls) (hEnds : EndsWithEvent calls) : Close calls := by
  intro before call after last hCalls hLast
  cases call with
  | feed event now => exact hSpaced before event now after last hCalls hLast
  | flushExpired now =>
    have hAfter : EndsWithEvent after := by
      obtain ⟨front, event, time, hFront⟩ := hEnds
      obtain rfl | ⟨others, final, rfl⟩ := after.eq_nil_or_concat
      · have hSame := (List.append_inj' (hCalls.symm.trans hFront) rfl).2
        cases hSame
      · rw [List.concat_eq_append, ← List.cons_append, ← List.append_assoc] at hCalls
        have hSame := (List.append_inj' (hCalls.symm.trans hFront) rfl).2
        cases hSame
        exact ⟨others, event, time, List.concat_eq_append⟩
    obtain ⟨between, event, time, later, rfl, hNone⟩ := first_feed hAfter
    have hFeeds : feeds (before ++ .flushExpired now :: between) = feeds before := by
      have hAppend : feeds (before ++ .flushExpired now :: between) = feeds before ++ feeds between := by
        rw [feeds, List.filterMap_append, List.filterMap_cons_none rfl]
        rfl
      rw [hAppend, hNone, List.append_nil]
    have hTime : time < last + HOLD := by
      refine hSpaced (before ++ .flushExpired now :: between) event time later last (by simp [hCalls]) ?_
      rw [lastFed, hFeeds]
      exact hLast
    have hLe : now ≤ time := by
      rw [hCalls, Sorted, List.pairwise_append] at hSorted
      exact (List.pairwise_cons.mp hSorted.2.1).1 (.feed event time) (by simp)
    exact Nat.lt_of_le_of_lt hLe hTime

theorem run_clear (isUppercase : Char → Bool) (hSpaced : Spaced calls) (hSorted : Sorted calls) {parts : List Part}
    (hParts : ClearStream parts) (hGrowing : Growing rest) (hEnds : rest = [] ∨ EndsWithEvent calls)
    (hArrive : List.Forall₂ (Arrives isUppercase) (feeds calls) (parts.flatMap Part.units ++ rest)) :
    ∃ pending, run isUppercase calls = some (pending, parts.flatMap Part.deliver) ∧
      Reached rest (lastFed calls) pending := by
  induction calls using List.reverseRecOn with
  | nil => exact run_close isUppercase (fun before call after last hNil => by simp at hNil) hParts hGrowing hArrive
  | append_singleton calls call ih =>
    cases call with
    | feed event now =>
      exact run_close isUppercase (hSpaced.close hSorted ⟨calls, event, now, rfl⟩) hParts hGrowing hArrive
    | flushExpired now =>
      have hNil : rest = [] := by
        refine hEnds.elim id fun ⟨before, event, time, hCalls⟩ => ?_
        have hSame := (List.append_inj' hCalls rfl).2
        cases hSame
      have hSpacedFront : Spaced calls := by
        intro before event time after last hCalls hLast
        exact hSpaced before event time (after ++ [.flushExpired now]) last (by simp [hCalls]) hLast
      have hSortedFront : Sorted calls := (List.pairwise_append.mp hSorted).1
      rw [feeds_append, Call.fed, Option.toList_none, List.append_nil] at hArrive
      obtain ⟨pending, hRun, hReached⟩ := ih hSpacedFront hSortedFront (.inl hNil) hArrive
      rw [lastFed_flush]
      exact ⟨pending, run_flush hRun hReached (.inl hNil), hReached⟩

/-- In a sorted run nothing panics, the events that are not absorbed are delivered once and in order, a bare
escape is delivered before any later event unless a continuation follows in time, and nothing stays held once
a flush comes late enough. A clear stream in time delivers what its sequences stand for and nothing else. -/
theorem guard_keeps (isUppercase : Char → Bool) {calls : List Call} (hSorted : Sorted calls) :
    ∃ pending outputs, run isUppercase calls = some (pending, outputs) ∧
      (∃ groups held, Delivered isUppercase (feeds calls) pending outputs groups held) ∧
      (∀ now, (∀ fed ∈ feeds calls, fed.2 + HOLD ≤ now) → (flushExpired pending now).1 = none) ∧
      ∀ parts rest, Spaced calls → ClearStream parts → Arriving rest → (rest = [] ∨ EndsWithEvent calls) →
        List.Forall₂ (Arrives isUppercase) (feeds calls) (parts.flatMap Part.units ++ rest) →
        outputs = parts.flatMap Part.deliver ∧ (rest = [] → pending = none) := by
  obtain ⟨pending, outputs, groups, held, hRun, hDelivered⟩ := run_delivered isUppercase calls
  refine ⟨pending, outputs, hRun, ⟨groups, held, hDelivered⟩, fun now hNow => hDelivered.settled hNow, ?_⟩
  intro parts rest hSpaced hParts hArriving hEnds hArrive
  obtain ⟨reached, hSame, hReached⟩ := run_clear isUppercase hSpaced hSorted hParts hArriving.growing hEnds hArrive
  cases hRun.symm.trans hSame
  refine ⟨rfl, fun hNil => ?_⟩
  cases pending with
  | none => rfl
  | some pending =>
    obtain ⟨_, _, hRest, -⟩ := hReached
    rw [hNil] at hRest
    cases hRest

/-! ### An arrow key, and one behind a sequence it breaks off -/

def escKey : Event := .key (.new .esc .NONE)

def charKey (c : Char) : Event := .key (.new (.char c) .NONE)

def shiftedKey (c : Char) : Event := .key (.new (.char c) .SHIFT)

def arrowCalls : List Call :=
  [.feed escKey 0, .feed (charKey '[') 1, .flushExpired 2, .feed (shiftedKey 'A') 2]

def brokenCalls : List Call :=
  [.feed escKey 0, .feed (charKey '[') 1, .feed (charKey '1') 2, .feed (charKey ';') 3, .feed escKey 4,
    .feed (charKey '[') 5, .feed (shiftedKey 'A') 6]

def arrow : Sequence := .csi [] 0x41

def brokenParts : List Part :=
  [.broken (.csi [0x31, 0x3b] 0x41) 4, .whole arrow]

theorem spaced_of_lt (hLt : ∀ call ∈ calls, call.now < HOLD) : Spaced calls := by
  intro before event now after last hCalls _
  have hNow := hLt (.feed event now) (by simp [hCalls])
  exact Nat.lt_of_lt_of_le hNow (Nat.le_add_left _ _)

theorem arrives_esc (now : Nat) : Arrives Char.isUpper (escKey, now) [ESC] :=
  ⟨rfl, fun _ => ⟨_, rfl, rfl⟩⟩

theorem arrives_of_ne {event : Event} {byte : UInt8} (now : Nat)
    (hBytes : continuationBytes Char.isUpper event = some [byte]) (hNe : byte ≠ ESC) :
    Arrives Char.isUpper (event, now) [byte] :=
  ⟨hBytes, fun hEsc => absurd (List.singleton_inj.mp hEsc) hNe⟩

theorem arrow_delivered : ∃ pending, run Char.isUpper arrowCalls = some (pending, [.event (.key (.new .up .NONE))]) ∧
    pending = none := by
  have hSorted : Sorted arrowCalls := by
    unfold Sorted
    decide
  have hArriving : Arriving [] := ⟨arrow, 0, by simp [arrow, Sequence.Wf]; decide, by simp [arrow, Sequence.Clear], by decide, rfl⟩
  have hArrive : List.Forall₂ (Arrives Char.isUpper) (feeds arrowCalls) ([Part.whole arrow].flatMap Part.units ++ []) :=
    .cons (arrives_esc 0) (.cons (arrives_of_ne 1 rfl (by decide)) (.cons (arrives_of_ne 2 rfl (by decide)) .nil))
  have hParts : ClearStream [.whole arrow] := by
    intro part hPart
    rw [List.mem_singleton.mp hPart]
    exact ⟨⟨rfl, rfl⟩, nofun, by decide⟩
  obtain ⟨pending, outputs, hRun, -, -, hStream⟩ := guard_keeps Char.isUpper hSorted
  obtain ⟨rfl, hNone⟩ := hStream [.whole arrow] [] (spaced_of_lt (by decide)) hParts hArriving (.inl rfl) hArrive
  exact ⟨pending, hRun, hNone rfl⟩

theorem broken_sequence_typed : Sorted brokenCalls ∧ Spaced brokenCalls ∧ (∀ part ∈ brokenParts, part.Wf) ∧
    List.Forall₂ (Arrives Char.isUpper) (feeds brokenCalls) (brokenParts.flatMap Part.units) ∧
    run Char.isUpper brokenCalls = some (none, [.event (shiftedKey 'A')]) ∧
    brokenParts.flatMap Part.deliver = [.event (.key (.new .up .NONE))] := by
  have hSorted : Sorted brokenCalls := by
    unfold Sorted
    decide
  have hArrive : List.Forall₂ (Arrives Char.isUpper) (feeds brokenCalls) (brokenParts.flatMap Part.units) :=
    .cons (arrives_esc 0) (.cons (arrives_of_ne 1 rfl (by decide)) (.cons (arrives_of_ne 2 rfl (by decide))
      (.cons (arrives_of_ne 3 rfl (by decide)) (.cons (arrives_esc 4) (.cons (arrives_of_ne 5 rfl (by decide))
        (.cons (arrives_of_ne 6 rfl (by decide)) .nil))))))
  have hWf : ∀ part ∈ brokenParts, part.Wf := by
    intro part hPart
    simp only [brokenParts, List.mem_cons, List.not_mem_nil, or_false] at hPart
    obtain rfl | rfl := hPart
    · exact ⟨⟨rfl, rfl⟩, by decide, by decide⟩
    · exact ⟨rfl, rfl⟩
  exact ⟨hSorted, spaced_of_lt (by decide), hWf, hArrive, rfl, rfl⟩

end PrimeAgent.SequenceGuard
