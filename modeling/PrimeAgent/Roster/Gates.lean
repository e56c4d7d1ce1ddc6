import PrimeAgent.Roster.State

/-! # The stale-delta gates

The frames of a worker arrive in any order, each a delta or an authoritative pull, and the slot of the worker decides
which are applied.
-/
namespace PrimeAgent.Roster

inductive Frame where
  | delta (sequence : Nat)
  | pull (counter : Option Nat)
deriving DecidableEq

namespace Frame

def stamp : Frame → Option Nat
  | .delta sequence => if sequence = 0 then none else some sequence
  | .pull counter => counter

def isDelta : Frame → Bool
  | .delta _ => true
  | .pull _ => false

end Frame

inductive GateCall where
  | frame (workerId instanceId : String) (frame : Frame)
  | note (workerId instanceId : String)
  | forget (workerId : String)

structure Accepted where
  workerId : String
  instanceId : String
  frame : Frame
deriving DecidableEq

namespace AgentRoster

def acceptFrame (r : AgentRoster) (workerId instanceId : String) : Frame → Bool × AgentRoster
  | .delta sequence => r.acceptDeltaSequence workerId instanceId sequence
  | .pull counter => r.acceptRosterPull workerId instanceId counter

def serve (r : AgentRoster) : GateCall → AgentRoster × List Accepted
  | .frame workerId instanceId frame =>
    let (accepted, r) := r.acceptFrame workerId instanceId frame
    (r, if accepted then [⟨workerId, instanceId, frame⟩] else [])
  | .note workerId instanceId => (r.noteWorkerGeneration workerId instanceId, [])
  | .forget workerId => (r.forgetWorkerSequences workerId, [])

def serveAll (r : AgentRoster) : List GateCall → AgentRoster × List Accepted
  | [] => (r, [])
  | call :: calls =>
    let (served, accepted) := r.serve call
    let (last, later) := served.serveAll calls
    (last, accepted ++ later)

def acceptedFrom (workerId : String) (r : AgentRoster) (calls : List GateCall) : List Accepted :=
  (r.serveAll calls).2.filter (·.workerId = workerId)

abbrev slot (r : AgentRoster) (workerId : String) : Option DeltaWatermark :=
  r.deltaWatermarks.get workerId

def Flips (workerId : String) (r : AgentRoster) : GateCall → Prop
  | .frame .. => False
  | .note noted instanceId => noted = workerId ∧ (r.slot workerId).map (·.instanceId) ≠ some instanceId
  | .forget forgotten => forgotten = workerId

def Unflipped (workerId : String) : AgentRoster → List GateCall → Prop
  | _, [] => True
  | r, call :: calls => ¬ r.Flips workerId call ∧ (r.serve call).1.Unflipped workerId calls

end AgentRoster

open AgentRoster

/-- The counter of a frame is not below that of an earlier one, and is above it where the frame is a delta. -/
def Follows (earlier later : Accepted) : Prop :=
  ∀ m n, earlier.frame.stamp = some m → later.frame.stamp = some n → m ≤ n ∧ (later.frame.isDelta = true → m < n)

variable {r : AgentRoster} {workerId instanceId : String} {held : DeltaWatermark} {frame : Frame} {call : GateCall}
  {calls : List GateCall} {a : Accepted}

/-! ## One frame -/

/-- A frame that a slot lets through is of its generation and no older than its watermark, unless it is a pull without
a counter. -/
structure Passes (held : DeltaWatermark) (instanceId : String) (frame : Frame) : Prop where
  generation : frame ≠ .pull none → instanceId = held.instanceId
  notOlder : ∀ n, frame.stamp = some n → held.watermark ≤ n ∧ (frame.isDelta = true → held.watermark < n)

def raised (held : DeltaWatermark) (frame : Frame) : DeltaWatermark :=
  { held with watermark := frame.stamp.getD held.watermark }

theorem raised_none (hStamp : frame.stamp = none) : raised held frame = held := by
  rw [raised, hStamp]
  rfl

theorem acceptFrame_held (hSlot : r.slot workerId = some held) :
    ((r.acceptFrame workerId instanceId frame).1 = true ∧ Passes held instanceId frame ∧
        (r.acceptFrame workerId instanceId frame).2.slot workerId = some (raised held frame)) ∨
      ((r.acceptFrame workerId instanceId frame).1 = false ∧ (r.acceptFrame workerId instanceId frame).2 = r) := by
  unfold AgentRoster.slot at hSlot
  cases frame with
  | delta sequence =>
    simp only [acceptFrame, acceptDeltaSequence]
    by_cases hZero : sequence = 0
    · subst hZero
      rw [if_pos rfl, hSlot]
      by_cases hSame : held.instanceId = instanceId
      · refine .inl ⟨by simpa using hSame, ⟨fun _ => hSame.symm, ?_⟩, hSlot⟩
        intro n hStamp
        cases hStamp
      · exact .inr ⟨by simpa using hSame, rfl⟩
    · rw [if_neg hZero, hSlot]
      have hStamp : (Frame.delta sequence).stamp = some sequence := if_neg hZero
      by_cases hSame : held.instanceId = instanceId
      · by_cases hStale : sequence ≤ held.watermark
        · exact .inr (by simp [hSame, hStale])
        · refine .inl ⟨by simp [hSame, hStale], ⟨fun _ => hSame.symm, ?_⟩, ?_⟩
          · intro n hn
            rw [hStamp] at hn
            obtain rfl := Option.some.inj hn
            constructor
            · omega
            · intro _
              omega
          · simp [AgentRoster.slot, hSame, hStale, raised, hStamp]
      · exact .inr (by simp [hSame])
  | pull counter =>
    simp only [acceptFrame, acceptRosterPull]
    cases counter with
    | none => exact .inl ⟨rfl, ⟨fun hPull => absurd rfl hPull, fun n hn => by cases hn⟩, hSlot⟩
    | some counter =>
      simp only [hSlot]
      by_cases hSame : held.instanceId = instanceId
      · by_cases hStale : counter < held.watermark
        · exact .inr (by simp [hSame, hStale])
        · refine .inl ⟨by simp [hSame, hStale], ⟨fun _ => hSame.symm, ?_⟩, ?_⟩
          · intro n hn
            obtain rfl := Option.some.inj hn
            constructor
            · omega
            · intro hDelta
              cases hDelta
          · simp [AgentRoster.slot, hSame, hStale, raised, Frame.stamp]
      · exact .inr (by simp [hSame])

theorem acceptFrame_free (hSlot : r.slot workerId = none) :
    (r.acceptFrame workerId instanceId frame).1 = true ∧
      (r.acceptFrame workerId instanceId frame).2.slot workerId = frame.stamp.map (⟨instanceId, ·⟩) := by
  unfold AgentRoster.slot at hSlot
  cases frame with
  | delta sequence =>
    simp only [acceptFrame, acceptDeltaSequence, Frame.stamp]
    by_cases hZero : sequence = 0
    · simp [hZero, AgentRoster.slot, hSlot]
    · simp [hZero, AgentRoster.slot, hSlot]
  | pull counter =>
    simp only [acceptFrame, acceptRosterPull, Frame.stamp]
    cases counter with
    | none | some counter => simp [AgentRoster.slot, hSlot]

theorem acceptFrame_other {other : String} (hOther : other ≠ workerId) :
    (r.acceptFrame other instanceId frame).2.slot workerId = r.slot workerId := by
  have hInsert : ∀ held, (r.deltaWatermarks.insert other held).get workerId = r.deltaWatermarks.get workerId :=
    fun held => KeyMap.get_insert_of_ne _ hOther.symm held
  cases frame with
  | delta sequence =>
    simp only [acceptFrame, acceptDeltaSequence, AgentRoster.slot]
    split
    next => rfl
    next =>
      split
      next =>
        split
        next =>
          split
          next => rfl
          next => exact hInsert _
        next => rfl
      next => exact hInsert _
  | pull counter =>
    simp only [acceptFrame, acceptRosterPull, AgentRoster.slot]
    split
    next => rfl
    next =>
      split
      next =>
        split
        next =>
          split
          next => rfl
          next => exact hInsert _
        next => rfl
      next => exact hInsert _

theorem slot_note : ∃ held, (r.noteWorkerGeneration workerId instanceId).slot workerId = some held ∧
    held.instanceId = instanceId := by
  unfold noteWorkerGeneration AgentRoster.slot
  cases hSlot : r.deltaWatermarks.get workerId with
  | none => exact ⟨⟨instanceId, 0⟩, by simp, rfl⟩
  | some held =>
    by_cases hSame : held.instanceId = instanceId
    · exact ⟨held, by simp [hSame, hSlot], hSame⟩
    · exact ⟨⟨instanceId, 0⟩, by simp [hSame], rfl⟩

theorem slot_note_other {noted : String} (hNoted : noted ≠ workerId) :
    (r.noteWorkerGeneration noted instanceId).slot workerId = r.slot workerId := by
  have hInsert := KeyMap.get_insert_of_ne r.deltaWatermarks hNoted.symm ⟨instanceId, 0⟩
  simp only [noteWorkerGeneration, AgentRoster.slot]
  cases r.deltaWatermarks.get noted with
  | none => exact hInsert
  | some held =>
    simp only
    split
    next => exact hInsert
    next => rfl

/-! ## One call -/

theorem serve_cases (hKept : ¬ r.Flips workerId call) :
    ((r.serve call).1.slot workerId = r.slot workerId ∧ (r.serve call).2.filter (·.workerId = workerId) = []) ∨
      ∃ instanceId frame, (r.serve call).2.filter (·.workerId = workerId) = [⟨workerId, instanceId, frame⟩] ∧
        ((∃ held, r.slot workerId = some held ∧ Passes held instanceId frame ∧
            (r.serve call).1.slot workerId = some (raised held frame)) ∨
          (r.slot workerId = none ∧ (r.serve call).1.slot workerId = frame.stamp.map (⟨instanceId, ·⟩))) := by
  cases call with
  | frame sender instanceId frame =>
    by_cases hSender : sender = workerId
    · subst hSender
      cases hSlot : r.slot sender with
      | some held =>
        obtain ⟨hAccepted, hPasses, hRaised⟩ | ⟨hRefused, hSame⟩ := @acceptFrame_held r sender instanceId held frame hSlot
        · refine .inr ⟨instanceId, frame, ?_, .inl ⟨held, rfl, hPasses, hRaised⟩⟩
          simp [serve, hAccepted]
        · refine .inl ⟨?_, ?_⟩
          · show (r.acceptFrame sender instanceId frame).2.slot sender = some held
            rw [hSame, hSlot]
          · simp [serve, hRefused]
      | none =>
        obtain ⟨hAccepted, hStarted⟩ := @acceptFrame_free r sender instanceId frame hSlot
        refine .inr ⟨instanceId, frame, ?_, .inr ⟨rfl, hStarted⟩⟩
        simp [serve, hAccepted]
    · refine .inl ⟨acceptFrame_other hSender, ?_⟩
      simp only [serve]
      split
      next => simp [hSender]
      next => rfl
  | note noted instanceId =>
    refine .inl ⟨?_, rfl⟩
    show (r.noteWorkerGeneration noted instanceId).slot workerId = r.slot workerId
    by_cases hNoted : noted = workerId
    · subst hNoted
      have hNamed : (r.slot noted).map (·.instanceId) = some instanceId := by
        by_contra hNamed
        exact hKept ⟨rfl, hNamed⟩
      obtain ⟨held, hSlot, hSame⟩ := Option.map_eq_some_iff.mp hNamed
      unfold AgentRoster.slot at hSlot
      simp [noteWorkerGeneration, AgentRoster.slot, hSlot, hSame]
    · exact slot_note_other hNoted
  | forget forgotten =>
    refine .inl ⟨?_, rfl⟩
    show (r.deltaWatermarks.remove forgotten).get workerId = r.slot workerId
    rw [KeyMap.get_remove, if_neg (fun hSame => hKept hSame.symm)]

theorem acceptedFrom_cons :
    acceptedFrom workerId r (call :: calls) =
      (r.serve call).2.filter (·.workerId = workerId) ++ acceptedFrom workerId (r.serve call).1 calls := by
  unfold acceptedFrom
  rw [← List.filter_append]
  rfl

/-! ## A run -/

structure OfOneGeneration (held : DeltaWatermark) (after : Option DeltaWatermark) (accepted : List Accepted) : Prop where
  named : ∃ last, after = some last ∧ last.instanceId = held.instanceId
  passes : ∀ a ∈ accepted, Passes held a.instanceId a.frame
  ordered : accepted.Pairwise Follows

theorem serveAll_held (hKept : r.Unflipped workerId calls) (hSlot : r.slot workerId = some held) :
    OfOneGeneration held ((r.serveAll calls).1.slot workerId) (acceptedFrom workerId r calls) := by
  induction calls generalizing r held with
  | nil => exact ⟨⟨held, hSlot, rfl⟩, by simp [acceptedFrom, serveAll], by simp [acceptedFrom, serveAll]⟩
  | cons call calls ih =>
    obtain ⟨hCall, hRest⟩ := hKept
    rw [acceptedFrom_cons]
    obtain ⟨hSame, hNone⟩ | ⟨instanceId, frame, hOne, hCase⟩ := serve_cases hCall
    · rw [hNone]
      exact ih hRest (hSame.trans hSlot)
    · rw [hOne]
      obtain ⟨held', hSlot', hPasses, hRaised⟩ | ⟨hFree, -⟩ := hCase
      · obtain rfl : held = held' := Option.some.inj (hSlot.symm.trans hSlot')
        have hTail := ih hRest hRaised
        have hLater : ∀ a ∈ acceptedFrom workerId (r.serve call).1 calls, Passes held a.instanceId a.frame := by
          intro a hMem
          have hPass := hTail.passes a hMem
          refine ⟨hPass.generation, ?_⟩
          intro n hStamp
          obtain ⟨hLe, hLt⟩ := hPass.notOlder n hStamp
          cases hFrame : frame.stamp with
          | none =>
            rw [raised_none hFrame] at hLe hLt
            exact ⟨hLe, hLt⟩
          | some m =>
            have hFirst := (hPasses.notOlder m hFrame).1
            simp only [raised, hFrame, Option.getD_some] at hLe hLt
            exact ⟨Nat.le_trans hFirst hLe, fun hDelta => Nat.lt_of_le_of_lt hFirst (hLt hDelta)⟩
        constructor
        · exact hTail.named
        · intro a hMem
          obtain rfl | hMem := List.mem_cons.mp hMem
          · exact hPasses
          · exact hLater a hMem
        · refine List.pairwise_cons.mpr ⟨?_, hTail.ordered⟩
          intro a hMem m n hFirst hStamp
          have hLate := (hTail.passes a hMem).notOlder n hStamp
          have hMark : (raised held frame).watermark = m := by
            rw [raised, hFirst]
            rfl
          rwa [hMark] at hLate
      · rw [hFree] at hSlot
        cases hSlot

theorem serveAll_free (hKept : r.Unflipped workerId calls) (hSlot : r.slot workerId = none) :
    (acceptedFrom workerId r calls).Pairwise Follows ∧ ∀ a ∈ acceptedFrom workerId r calls, a.frame.stamp.isSome →
      ∃ last, (r.serveAll calls).1.slot workerId = some last ∧ last.instanceId = a.instanceId := by
  induction calls generalizing r with
  | nil => exact ⟨by simp [acceptedFrom, serveAll], by simp [acceptedFrom, serveAll]⟩
  | cons call calls ih =>
    obtain ⟨hCall, hRest⟩ := hKept
    rw [acceptedFrom_cons]
    obtain ⟨hSame, hNone⟩ | ⟨instanceId, frame, hOne, hCase⟩ := serve_cases hCall
    · rw [hNone]
      exact ih hRest (hSame.trans hSlot)
    · rw [hOne]
      obtain ⟨held, hHeld, -⟩ | ⟨-, hStarted⟩ := hCase
      · rw [hHeld] at hSlot
        cases hSlot
      · cases hFrame : frame.stamp with
        | none =>
          rw [hFrame] at hStarted
          obtain ⟨hOrdered, hNamed⟩ := ih hRest hStarted
          constructor
          · refine List.pairwise_cons.mpr ⟨?_, hOrdered⟩
            intro a _ m n hFirst
            rw [hFrame] at hFirst
            cases hFirst
          · intro a hMem hStamp
            obtain rfl | hMem := List.mem_cons.mp hMem
            · rw [hFrame] at hStamp
              cases hStamp
            · exact hNamed a hMem hStamp
        | some m =>
          rw [hFrame, Option.map_some] at hStarted
          have hTail := serveAll_held hRest hStarted
          constructor
          · refine List.pairwise_cons.mpr ⟨?_, hTail.ordered⟩
            intro a hMem m' n hFirst hStamp
            rw [hFrame] at hFirst
            obtain rfl := Option.some.inj hFirst
            exact (hTail.passes a hMem).notOlder n hStamp
          · intro a hMem hStamp
            obtain ⟨last, hLast, hNamed⟩ := hTail.named
            refine ⟨last, hLast, ?_⟩
            obtain rfl | hMem := List.mem_cons.mp hMem
            · exact hNamed
            · rw [hNamed, (hTail.passes a hMem).generation]
              intro hPull
              rw [hPull] at hStamp
              cases hStamp

def replacementCalls : List GateCall :=
  [.frame "w" "i1" (.delta 9), .frame "w" "i2" (.pull (some 1)), .frame "w" "i2" (.delta 3),
    .frame "w" "i2" (.delta 2), .note "w" "i2", .frame "w" "i2" (.pull (some 3))]

end PrimeAgent.Roster
