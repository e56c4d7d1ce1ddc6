import Mathlib.Data.List.Induction
import PrimeAgent.SequenceGuard.Classify

/-! # The guard

`SequenceGuard` holds a lone escape and what continues it until the sequence is whole, breaks or expires.
Over any run the events fall into groups, in the order they came: an event that is passed on, an escape
that stood alone, and a sequence that was absorbed.
-/
namespace PrimeAgent.SequenceGuard

def HOLD : Nat := 10 * 1000 * 1000

structure PendingEscape where
  head : KeyEvent
  assembled : List UInt8
  first : Option Event
  deadline : Nat

def PendingEscape.flush (pending : PendingEscape) : List GuardOutput :=
  if pending.assembled.length = 1 then [.event (.key pending.head)] else []

/-- `feed` where nothing is held. -/
def feedFree (event : Event) (now : Nat) : Option PendingEscape × List GuardOutput :=
  match event with
  | .key key => if isBareEscPress key then (some ⟨key, [ESC], none, now + HOLD⟩, []) else (none, [.event event])
  | _ => (none, [.event event])

def continued (pending : PendingEscape) (event : Event) (bytes : List UInt8) (now : Nat) :
    Option (Option PendingEscape × List GuardOutput) :=
  let grown : PendingEscape :=
    { pending with
      first := pending.first.or (some event), assembled := pending.assembled ++ bytes, deadline := now + HOLD }
  (isCompleteSequence grown.assembled).bind fun complete =>
    if complete then (classify grown.assembled grown.first).map fun outputs => (none, outputs)
    else some (some grown, [])

/-- `none` is a panic. -/
def feed (isUppercase : Char → Bool) (pending : Option PendingEscape) (event : Event) (now : Nat) :
    Option (Option PendingEscape × List GuardOutput) :=
  match pending with
  | none => some (feedFree event now)
  | some pending =>
    if pending.deadline ≤ now then some ((feedFree event now).1, pending.flush ++ (feedFree event now).2)
    else match continuationBytes isUppercase event with
      | none => some (none, pending.flush ++ [.event event])
      | some bytes => continued pending event bytes now

def flushExpired (pending : Option PendingEscape) (now : Nat) : Option PendingEscape × List GuardOutput :=
  match pending with
  | some held => if held.deadline ≤ now then (none, held.flush) else (some held, [])
  | none => (none, [])

inductive Call where
  | feed (event : Event) (now : Nat)
  | flushExpired (now : Nat)
deriving DecidableEq

def Call.now : Call → Nat
  | .feed _ now | .flushExpired now => now

def Call.fed : Call → Option (Event × Nat)
  | .feed event now => some (event, now)
  | .flushExpired _ => none

def feeds (calls : List Call) : List (Event × Nat) :=
  calls.filterMap Call.fed

def step (isUppercase : Char → Bool) (pending : Option PendingEscape) : Call →
    Option (Option PendingEscape × List GuardOutput)
  | .feed event now => feed isUppercase pending event now
  | .flushExpired now => some (SequenceGuard.flushExpired pending now)

def advance (isUppercase : Char → Bool) (reached : Option (Option PendingEscape × List GuardOutput)) (call : Call) :
    Option (Option PendingEscape × List GuardOutput) :=
  reached.bind fun (pending, outputs) =>
    (step isUppercase pending call).map fun (after, more) => (after, outputs ++ more)

def run (isUppercase : Char → Bool) (calls : List Call) : Option (Option PendingEscape × List GuardOutput) :=
  calls.foldl (advance isUppercase) (some (none, []))

theorem run_append (isUppercase : Char → Bool) (calls : List Call) (call : Call) :
    run isUppercase (calls ++ [call]) = advance isUppercase (run isUppercase calls) call := by
  simp [run]

theorem feeds_append (calls : List Call) (call : Call) : feeds (calls ++ [call]) = feeds calls ++ call.fed.toList := by
  cases call <;> simp [feeds, Call.fed]

/-! ### No panic -/

variable {bytes : List UInt8} {rest : List UInt8} {event : Event} {now : Nat} {tail : List (Event × Nat)}

theorem slice_isSome {start stop : Nat} (hStart : start ≤ stop) (hStop : stop ≤ bytes.length) :
    slice bytes start stop = some ((bytes.take stop).drop start) :=
  if_pos ⟨hStart, hStop⟩

theorem isSgrMousePayload_isSome {payload : List UInt8} (hHead : payload.head? = some 0x3c) :
    (isSgrMousePayload payload).isSome := by
  match payload with
  | [first] =>
    cases hHead
    rfl
  | first :: second :: rest =>
    rw [isSgrMousePayload, List.getLast?_cons_cons]
    cases hLast : (second :: rest).getLast? with
    | none => simp at hLast
    | some last =>
      dsimp only
      split
      · rfl
      · rw [slice_isSome (by simp) (by simp)]
        rfl

theorem isCompleteCsi_isSome (data : List UInt8) : (isCompleteCsi data).isSome := by
  rw [isCompleteCsi]
  split
  · rfl
  · rename_i hLength
    match data with
    | [] | [_] | [_, _] => simp at hLength
    | _ :: _ :: head :: rest =>
      simp only [List.drop_succ_cons, List.drop_zero, List.head?_cons, List.getLast?_cons]
      split
      · rfl
      · split
        · rfl
        · rename_i hHead
          exact isSgrMousePayload_isSome (by simpa using hHead)

theorem isCompleteSequence_isSome (data : List UInt8) : (isCompleteSequence data).isSome := by
  match data with
  | [] | [_] => rfl
  | first :: second :: rest =>
    simp only [isCompleteSequence]
    split
    · rfl
    · split
      · split
        · rfl
        · exact isCompleteCsi_isSome _
      · split
        · rfl
        · split
          · rfl
          · split <;> rfl

theorem isCompleteSequence_csi (hHead : rest.head? ≠ some 0x4d) :
    isCompleteSequence (ESC :: 0x5b :: rest) = isCompleteCsi (ESC :: 0x5b :: rest) := by
  rw [isCompleteSequence, if_neg (not_not.mpr rfl), if_pos rfl, if_neg hHead]

theorem sgr_of_complete (hComplete : isCompleteSequence (ESC :: 0x5b :: 0x3c :: rest) = some true) :
    isSgrMousePayload (0x3c :: rest) = some true := by
  rw [isCompleteSequence_csi (by simp), isCompleteCsi, if_neg (by simp)] at hComplete
  simp only [List.drop_succ_cons, List.drop_zero, List.head?_cons, List.getLast?_cons] at hComplete
  split at hComplete
  · simp at hComplete
  · rwa [if_neg (by simp)] at hComplete

theorem decodeSgrReport_isSome (hSgr : isSgrMousePayload (0x3c :: rest) = some true) :
    (decodeSgrReport (ESC :: 0x5b :: 0x3c :: rest)).isSome := by
  rw [isSgrMousePayload] at hSgr
  have hLast : (0x3c :: rest).getLast? = some (rest.getLast?.getD 0x3c) := List.getLast?_cons
  rw [hLast] at hSgr
  dsimp only at hSgr
  split at hSgr
  · simp at hSgr
  · rename_i hFinal
    cases hRest : rest with
    | nil =>
      subst hRest
      simp at hFinal
    | cons head tail =>
      rw [← hRest]
      have hPos : 1 ≤ rest.length := by simp [hRest]
      rw [slice_isSome (by simpa using hPos) (by simp), Option.map_some, Option.some.injEq] at hSgr
      rw [decodeSgrReport, slice_isSome (by simpa using hPos) (by simp)]
      have hSame : (List.take ((ESC :: 0x5b :: 0x3c :: rest).length - 1) (ESC :: 0x5b :: 0x3c :: rest)).drop 3 =
          (List.take ((0x3c :: rest).length - 1) (0x3c :: rest)).drop 1 := by
        obtain ⟨count, hCount⟩ : ∃ count, rest.length = count + 1 := ⟨rest.length - 1, by omega⟩
        simp [hCount]
      rw [hSame, Option.bind_some]
      split at hSgr
      · cases hSgr
      · simp only [Bool.and_eq_true, beq_iff_eq] at hSgr
        obtain ⟨cb, x, y, hFields⟩ := List.length_eq_three.mp hSgr.1
        simp only [hFields]
        rfl

theorem classify_isSome (hComplete : isCompleteSequence bytes = some true) (first : Option Event) :
    (classify bytes first).isSome := by
  rw [classify]
  split
  · rename_i hSgr
    obtain ⟨rest, rfl⟩ := List.isPrefixOf_iff_prefix.mp hSgr
    exact decodeSgrReport_isSome (sgr_of_complete hComplete)
  · split
    · rename_i hX10
      rw [decodeX10Report, List.getElem?_eq_getElem (by omega), List.getElem?_eq_getElem (by omega),
        List.getElem?_eq_getElem (by omega)]
      rfl
    · split
      · rename_i hRxvt
        obtain ⟨rest, rfl⟩ := List.isPrefixOf_iff_prefix.mp hRxvt.1
        have hRest : rest ≠ [] := by
          rintro rfl
          exact absurd hRxvt.2 (by decide)
        have hPos : 0 < rest.length := List.length_pos_iff.mpr hRest
        rw [decodeRxvtReport, slice_isSome (by simp; omega) (by simp)]
        rfl
      · rfl

theorem length_reportOf (cb : UInt8) (column row : Nat) (press : Bool) : (reportOf cb column row press).length ≤ 1 := by
  rw [reportOf]
  split
  · exact Nat.zero_le _
  · exact Option.length_toList_le

theorem length_sgrReport (cb x y : List UInt8) (press : Bool) : (sgrReport cb x y press).length ≤ 1 := by
  rw [sgrReport]
  split
  · exact length_reportOf _ _ _ _
  · exact Nat.zero_le _

theorem length_rxvtReport (fields : List (List UInt8)) : (rxvtReport fields).length ≤ 1 := by
  rw [rxvtReport]
  split
  · exact length_reportOf _ _ _ _
  · exact Nat.zero_le _

theorem length_classify {first : Option Event} {outputs : List GuardOutput}
    (hOutputs : classify bytes first = some outputs) : outputs.length ≤ 1 := by
  rw [classify] at hOutputs
  split at hOutputs
  · rw [decodeSgrReport, Option.bind_eq_some_iff] at hOutputs
    obtain ⟨body, -, hBody⟩ := hOutputs
    split at hBody
    · cases hBody
      exact Nat.zero_le _
    · split at hBody <;> cases hBody
      exact length_sgrReport _ _ _ _
  · split at hOutputs
    · rw [decodeX10Report] at hOutputs
      split at hOutputs <;> cases hOutputs
      exact length_reportOf _ _ _ _
    · split at hOutputs
      · rw [decodeRxvtReport, Option.map_eq_some_iff] at hOutputs
        obtain ⟨body, -, rfl⟩ := hOutputs
        split
        · exact Nat.zero_le _
        · exact length_rxvtReport _
      · cases hOutputs
        exact Option.length_toList_le

/-! ### Groups -/

/-- What happens to consecutive events: one is passed on, a lone escape is delivered as the key it is, or a
sequence is absorbed and gives `outputs`. -/
inductive Group where
  | passed (event : Event) (now : Nat)
  | lone (head : KeyEvent) (now : Nat)
  | absorbed (head : KeyEvent) (now : Nat) (tail : List (Event × Nat)) (outputs : List GuardOutput)

section

variable (isUppercase : Char → Bool)

def bytesOf (tail : List (Event × Nat)) : List UInt8 :=
  tail.flatMap fun fed => (continuationBytes isUppercase fed.1).getD []

/-- Each event continues the sequence, less than `HOLD` after the one before it. -/
def Continues : Nat → List (Event × Nat) → Prop
  | _, [] => True
  | last, (event, now) :: rest =>
    (continuationBytes isUppercase event).isSome ∧ now < last + HOLD ∧ Continues now rest

namespace Group

def events : Group → List (Event × Nat)
  | passed event now => [(event, now)]
  | lone head now => [(.key head, now)]
  | absorbed head now tail _ => (.key head, now) :: tail

def outputs : Group → List GuardOutput
  | passed event _ => [.event event]
  | lone head _ => [.event (.key head)]
  | absorbed _ _ _ outputs => outputs

def Fits : Group → Prop
  | passed event _ => ∀ key, event = .key key → ¬ isBareEscPress key
  | lone head _ => isBareEscPress head
  | absorbed head now tail outputs =>
    isBareEscPress head ∧ tail ≠ [] ∧ Continues isUppercase now tail ∧ outputs.length ≤ 1 ∧
      (outputs = [] ∨ (isCompleteSequence (ESC :: bytesOf isUppercase tail) = some true ∧
        classify (ESC :: bytesOf isUppercase tail) (tail.head?.map Prod.fst) = some outputs))

end Group

def lastTime (now : Nat) (tail : List (Event × Nat)) : Nat :=
  (tail.getLast?.map Prod.snd).getD now

structure Holding (held : List (Event × Nat)) (pending : PendingEscape) (now : Nat) (tail : List (Event × Nat)) :
    Prop where
  events : held = (.key pending.head, now) :: tail
  bare : isBareEscPress pending.head
  continues : Continues isUppercase now tail
  assembled : pending.assembled = ESC :: bytesOf isUppercase tail
  first : pending.first = tail.head?.map Prod.fst
  deadline : pending.deadline = lastTime now tail + HOLD
  unfinished : isCompleteSequence pending.assembled = some false

def Holds (held : List (Event × Nat)) : Option PendingEscape → Prop
  | none => held = []
  | some pending => ∃ now tail, Holding isUppercase held pending now tail

structure Delivered (fed : List (Event × Nat)) (pending : Option PendingEscape) (delivered : List GuardOutput)
    (groups : List Group) (held : List (Event × Nat)) : Prop where
  fits : ∀ group ∈ groups, group.Fits isUppercase
  events : fed = groups.flatMap Group.events ++ held
  outputs : delivered = groups.flatMap Group.outputs
  holds : Holds isUppercase held pending

end

variable {isUppercase : Char → Bool} {held : List (Event × Nat)} {pending : PendingEscape}

theorem Continues.append {last : Nat} {tail : List (Event × Nat)} (hTail : Continues isUppercase last tail)
    {event : Event} {now : Nat} (hSome : (continuationBytes isUppercase event).isSome)
    (hNow : now < lastTime last tail + HOLD) : Continues isUppercase last (tail ++ [(event, now)]) := by
  induction tail generalizing last with
  | nil => exact ⟨hSome, hNow, trivial⟩
  | cons first rest ih =>
    refine ⟨hTail.1, hTail.2.1, ih hTail.2.2 ?_⟩
    simpa [lastTime, List.getLast?_cons] using hNow

theorem bytesOf_append (tail : List (Event × Nat)) (hBytes : continuationBytes isUppercase event = some bytes) :
    bytesOf isUppercase (tail ++ [(event, now)]) = bytesOf isUppercase tail ++ bytes := by
  simp [bytesOf, hBytes]

theorem continuationBytes_ne_nil (hBytes : continuationBytes isUppercase event = some bytes) : bytes ≠ [] := by
  rintro rfl
  cases event with
  | key key =>
    rw [continuationBytes, ite_eq_iff] at hBytes
    obtain ⟨-, hNone⟩ | ⟨-, hBytes⟩ := hBytes
    · cases hNone
    · obtain ⟨code, modifiers, kind⟩ := key
      cases code with
      | char c =>
        dsimp only at hBytes
        rw [ite_eq_iff, ite_eq_iff] at hBytes
        obtain ⟨-, hChar⟩ | ⟨-, ⟨-, hControl⟩ | ⟨-, hNone⟩⟩ := hBytes
        · simp [Utf8.encode] at hChar
        · simp at hControl
        · cases hNone
      | enter | tab | backspace | esc =>
        obtain ⟨-, hSome⟩ | ⟨-, hNone⟩ := ite_eq_iff.mp hBytes
        · cases hSome
        · cases hNone
      | _ => cases hBytes
  | _ => cases hBytes

theorem bytesOf_eq_nil {last : Nat} (hTail : Continues isUppercase last tail) (hNil : bytesOf isUppercase tail = []) :
    tail = [] := by
  match tail with
  | [] => rfl
  | (event, now) :: rest =>
    obtain ⟨bytes, hBytes⟩ := Option.isSome_iff_exists.mp hTail.1
    rw [bytesOf, List.flatMap_cons, hBytes] at hNil
    exact absurd (List.append_eq_nil_iff.mp hNil).1 (continuationBytes_ne_nil hBytes)

theorem continuationBytes_bare {key : KeyEvent} (hBare : isBareEscPress key) :
    continuationBytes isUppercase (.key key) = some [ESC] := by
  simp only [isBareEscPress, Bool.and_eq_true, beq_iff_eq] at hBare
  simp [continuationBytes, hBare.1.1, hBare.1.2, hBare.2]

theorem Holding.flushed (hHolding : Holding isUppercase held pending now tail) :
    ∃ group : Group, group.Fits isUppercase ∧ group.events = held ∧ group.outputs = pending.flush := by
  have hLength : pending.assembled.length = 1 ↔ tail = [] := by
    rw [hHolding.assembled, List.length_cons, Nat.add_eq_right, List.length_eq_zero_iff]
    exact ⟨bytesOf_eq_nil hHolding.continues, fun hNil => hNil ▸ rfl⟩
  rw [PendingEscape.flush]
  split
  · rename_i hOne
    exact ⟨.lone pending.head now, hHolding.bare, by rw [hHolding.events, hLength.mp hOne]; rfl, rfl⟩
  · rename_i hMore
    refine ⟨.absorbed pending.head now tail [], ?_, hHolding.events.symm, rfl⟩
    exact ⟨hHolding.bare, fun hNil => hMore (hLength.mpr hNil), hHolding.continues, Nat.zero_le _, .inl rfl⟩

theorem feedFree_delivered (isUppercase : Char → Bool) (event : Event) (now : Nat) :
    ∃ groups held, Delivered isUppercase [(event, now)] (feedFree event now).1 (feedFree event now).2 groups held := by
  by_cases hBare : ∃ key, event = .key key ∧ isBareEscPress key
  · obtain ⟨key, rfl, hKey⟩ := hBare
    have hFree : feedFree (.key key) now = (some ⟨key, [ESC], none, now + HOLD⟩, []) := if_pos hKey
    rw [hFree]
    have hDeadline : now + HOLD = lastTime now [] + HOLD := by simp [lastTime]
    refine ⟨[], [(.key key, now)], ?_, rfl, rfl, now, [], rfl, hKey, trivial, rfl, rfl, hDeadline, rfl⟩
    exact fun group hGroup => absurd hGroup List.not_mem_nil
  · have hFree : feedFree event now = (none, [.event event]) := by
      cases event with
      | key key => exact if_neg fun hKey => hBare ⟨key, rfl, hKey⟩
      | _ => rfl
    rw [hFree]
    refine ⟨[.passed event now], [], ?_, rfl, rfl, rfl⟩
    intro group hGroup
    rw [List.mem_singleton.mp hGroup]
    exact fun key hKey hBareKey => hBare ⟨key, hKey, hBareKey⟩

theorem lastTime_append (now : Nat) (tail : List (Event × Nat)) (event : Event) (at' : Nat) :
    lastTime now (tail ++ [(event, at')]) = at' := by
  simp [lastTime]

theorem Holding.continued {last : Nat} (hHolding : Holding isUppercase held pending last tail)
    (hBytes : continuationBytes isUppercase event = some bytes) (hNow : now < pending.deadline) :
    ∃ after outputs groups rest, continued pending event bytes now = some (after, outputs) ∧
      Delivered isUppercase (held ++ [(event, now)]) after outputs groups rest := by
  have hContinues : Continues isUppercase last (tail ++ [(event, now)]) :=
    hHolding.continues.append (by simp [hBytes]) (hHolding.deadline ▸ hNow)
  have hAssembled : pending.assembled ++ bytes = ESC :: bytesOf isUppercase (tail ++ [(event, now)]) := by
    rw [hHolding.assembled, bytesOf_append tail hBytes, List.cons_append]
  have hFirst : pending.first.or (some event) = (tail ++ [(event, now)]).head?.map Prod.fst := by
    rw [hHolding.first]
    cases tail <;> rfl
  have hEvents : held ++ [(event, now)] = (.key pending.head, last) :: (tail ++ [(event, now)]) := by
    rw [hHolding.events, List.cons_append]
  obtain ⟨complete, hComplete⟩ := Option.isSome_iff_exists.mp (isCompleteSequence_isSome (pending.assembled ++ bytes))
  rw [SequenceGuard.continued]
  simp only [hComplete, Option.bind_some]
  cases complete with
  | false =>
    refine ⟨_, _, [], held ++ [(event, now)], rfl, ?_, rfl, rfl, ?_⟩
    · exact fun group hGroup => absurd hGroup List.not_mem_nil
    · have hDeadline : now + HOLD = lastTime last (tail ++ [(event, now)]) + HOLD := by rw [lastTime_append]
      exact ⟨last, _, hEvents, hHolding.bare, hContinues, hAssembled, hFirst, hDeadline, hComplete⟩
  | true =>
    obtain ⟨outputs, hOutputs⟩ := Option.isSome_iff_exists.mp
      (classify_isSome hComplete (pending.first.or (some event)))
    simp only [hOutputs, if_true, Option.map_some]
    refine ⟨_, _, [.absorbed pending.head last (tail ++ [(event, now)]) outputs], [], rfl, ?_, ?_, ?_, rfl⟩
    · intro group hGroup
      rw [List.mem_singleton.mp hGroup]
      refine ⟨hHolding.bare, by simp, hContinues, length_classify hOutputs, .inr ⟨?_, ?_⟩⟩
      · rw [← hAssembled, hComplete]
      · rw [← hAssembled, ← hFirst, hOutputs]
    · simp [Group.events, hEvents]
    · simp [Group.outputs]

theorem step_delivered {pending : Option PendingEscape} (hHolds : Holds isUppercase held pending) (call : Call) :
    ∃ after outputs groups rest, step isUppercase pending call = some (after, outputs) ∧
      Delivered isUppercase (held ++ call.fed.toList) after outputs groups rest := by
  cases call with
  | feed event now =>
    obtain ⟨groups, rest, hFree⟩ := feedFree_delivered isUppercase event now
    cases pending with
    | none =>
      cases hHolds
      exact ⟨_, _, groups, rest, rfl, hFree⟩
    | some pending =>
      obtain ⟨last, tail, hHolding⟩ := hHolds
      obtain ⟨group, hFits, hEvents, hOutputs⟩ := hHolding.flushed
      simp only [step, feed]
      split
      · refine ⟨_, _, group :: groups, rest, rfl, ?_, ?_, ?_, hFree.holds⟩
        · exact List.forall_mem_cons.mpr ⟨hFits, hFree.fits⟩
        · rw [List.flatMap_cons, hEvents, List.append_assoc, ← hFree.events]
          rfl
        · rw [List.flatMap_cons, hOutputs, ← hFree.outputs]
      · rename_i hLive
        split
        · rename_i hNone
          refine ⟨_, _, [group, .passed event now], [], rfl, ?_, ?_, ?_, rfl⟩
          · refine List.forall_mem_cons.mpr ⟨hFits, ?_⟩
            intro passed hPassed
            rw [List.mem_singleton.mp hPassed]
            intro key hKey hBare
            rw [hKey, continuationBytes_bare hBare] at hNone
            cases hNone
          · rw [List.append_nil, List.flatMap_cons, hEvents]
            rfl
          · rw [List.flatMap_cons, hOutputs]
            rfl
        · rename_i bytes hBytes
          exact hHolding.continued hBytes (Nat.not_le.mp hLive)
  | flushExpired now =>
    simp only [step, Call.fed, Option.toList_none, List.append_nil]
    cases pending with
    | none =>
      cases hHolds
      exact ⟨_, _, [], [], rfl, fun group hGroup => absurd hGroup List.not_mem_nil, rfl, rfl, rfl⟩
    | some pending =>
      simp only [flushExpired]
      split
      · obtain ⟨last, tail, hHolding⟩ := hHolds
        obtain ⟨group, hFits, hEvents, hOutputs⟩ := hHolding.flushed
        refine ⟨_, _, [group], [], rfl, ?_, ?_, ?_, rfl⟩
        · exact List.forall_mem_cons.mpr ⟨hFits, fun group hGroup => absurd hGroup List.not_mem_nil⟩
        · simp [hEvents]
        · simp [hOutputs]
      · exact ⟨_, _, [], held, rfl, fun group hGroup => absurd hGroup List.not_mem_nil, rfl, rfl, hHolds⟩

theorem run_delivered (isUppercase : Char → Bool) (calls : List Call) :
    ∃ pending outputs groups held, run isUppercase calls = some (pending, outputs) ∧
      Delivered isUppercase (feeds calls) pending outputs groups held := by
  induction calls using List.reverseRecOn with
  | nil => exact ⟨none, [], [], [], rfl, fun group hGroup => absurd hGroup List.not_mem_nil, rfl, rfl, rfl⟩
  | append_singleton calls call ih =>
    obtain ⟨pending, outputs, groups, held, hRun, hDelivered⟩ := ih
    obtain ⟨after, more, newer, rest, hStep, hMore⟩ := step_delivered hDelivered.holds call
    refine ⟨after, outputs ++ more, groups ++ newer, rest, ?_, ?_, ?_, ?_, hMore.holds⟩
    · rw [run_append, hRun, advance, Option.bind_some]
      simp only [hStep, Option.map_some]
    · exact List.forall_mem_append.mpr ⟨hDelivered.fits, hMore.fits⟩
    · rw [feeds_append, hDelivered.events, List.append_assoc, hMore.events, List.flatMap_append, List.append_assoc]
    · rw [hDelivered.outputs, hMore.outputs, List.flatMap_append]

theorem Delivered.settled {fed : List (Event × Nat)} {pending : Option PendingEscape} {delivered : List GuardOutput}
    {groups : List Group} (hDelivered : Delivered isUppercase fed pending delivered groups held)
    (hNow : ∀ event ∈ fed, event.2 + HOLD ≤ now) : (flushExpired pending now).1 = none := by
  cases pending with
  | none => rfl
  | some pending =>
    obtain ⟨last, tail, hHolding⟩ := hDelivered.holds
    have hDeadline : pending.deadline ≤ now := by
      rw [hHolding.deadline]
      have hMem : ∀ event ∈ (Event.key pending.head, last) :: tail, event.2 + HOLD ≤ now := by
        intro event hEvent
        apply hNow
        rw [hDelivered.events, hHolding.events]
        exact List.mem_append_right _ hEvent
      cases hTail : tail.getLast? with
      | none => simpa [lastTime, hTail] using hMem (.key pending.head, last) List.mem_cons_self
      | some event =>
        simpa [lastTime, hTail] using hMem event (List.mem_cons_of_mem _ (List.mem_of_getLast? hTail))
    simp [flushExpired, hDeadline]

end PrimeAgent.SequenceGuard
