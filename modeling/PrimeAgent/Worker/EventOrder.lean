import PrimeAgent.Lib.Tickets
import PrimeAgent.Worker.Streaming
import Mathlib.Algebra.Order.Group.Multiset
import Mathlib.Tactic.Abel

/-! # The order in which frames reach the event pump -/
namespace PrimeAgent.Worker

open PrimeAgent.Tickets

def TurnPhase.payloads : TurnPhase → List DaemonOutbound
  | .stamped payloads | .sending payloads => payloads
  | _ => []

def sequences (frames : List DaemonOutbound) : List Nat :=
  frames.map (·.sequence)

def CoalescerInner.sequences (inner : CoalescerInner) : List Nat :=
  (inner.pending.map (·.sequence)).toList

namespace Emitters

def unsent (s : Emitters) : Multiset Nat :=
  (s.inner.sequences : Multiset Nat) + (Worker.sequences s.turn.payloads : Multiset Nat) +
    (Worker.sequences s.held : Multiset Nat)

def SendsInTurn (s : Emitters) (sent : List DaemonOutbound) : Prop :=
  ∀ frame ∈ sent, Least frame.sequence s.unsent

def Fresh (s : Emitters) : Prop :=
  s.inner = .empty ∧ s.turn = .idle ∧ s.held = [] ∧ s.wire = []

def Ordered (s : Emitters) : Prop :=
  InOrder s.core.lastEventSequence s.unsent (sequences s.wire)

end Emitters

def InTurn (s s' : Emitters) : Prop :=
  ∃ sent, Step s sent s' ∧ s.SendsInTurn sent

variable {s s' : Emitters} {sent : List DaemonOutbound} {handed : List Nat} {held : Multiset Nat}
  {action : Option SessionActionSnapshot}

theorem fresh_ordered (hFresh : s.Fresh) : s.Ordered := by
  obtain ⟨hInner, hTurn, hHeld, hWire⟩ := hFresh
  unfold Emitters.Ordered Emitters.unsent
  rw [hInner, hTurn, hHeld, hWire]
  exact InOrder.start _

theorem stampFrames_ordered (core : SessionCore) (events : List Json)
    (hOrder : InOrder core.lastEventSequence held handed) :
    InOrder (core.stampFrames events).2.lastEventSequence
      ((sequences (core.stampFrames events).1 : Multiset Nat) + held) handed := by
  induction events generalizing core held with
  | nil => simpa [SessionCore.stampFrames, sequences] using hOrder
  | cons event events ih =>
    have hRest := ih core.advance hOrder.take
    rw [Multiset.add_cons, ← Multiset.cons_add] at hRest
    exact hRest

theorem actionFrame_sequence (core : SessionCore) (action : Option SessionActionSnapshot) :
    (core.actionFrame action).2.lastEventSequence = core.lastEventSequence := by
  unfold SessionCore.actionFrame
  split
  · split <;> rfl
  · rfl

theorem parkUpdate_sequences {inner inner' : CoalescerInner} {message : AssistantSnapshot} {kind delta : String}
    {sequence : Nat} (hPark : inner.parkUpdate message kind delta sequence = some inner') :
    inner'.sequences = [sequence] := by
  unfold CoalescerInner.parkUpdate at hPark
  split at hPark
  · cases hPark
  · split at hPark
    · split at hPark <;> (cases hPark; rfl)
    · cases hPark
      rfl

theorem emission_ordered (core : SessionCore) (emission : Emission)
    (hOrder : InOrder core.lastEventSequence held handed) :
    InOrder (core.emission emission).2.lastEventSequence
      (held + (sequences (core.emission emission).1.toList : Multiset Nat)) handed := by
  have hTaken : InOrder (core.lastEventSequence + 1) (held + {core.lastEventSequence + 1}) handed := by
    rw [add_comm held, Multiset.singleton_add]
    exact hOrder.take
  cases emission with
  | actionUpdate snapshot =>
    by_cases hSame : core.lastActionSnapshot = some snapshot
    · simpa [SessionCore.emission, hSame, sequences] using hOrder
    · unfold SessionCore.emission
      simp only [if_neg hSame]
      exact hTaken
  | _ => exact hTaken

theorem flushed_sequences (session : SessionIdentity) (inner : CoalescerInner) :
    sequences (inner.flushed session) = inner.sequences ∨ sequences (inner.flushed session) = [] := by
  unfold CoalescerInner.flushed CoalescerInner.sequences PendingUpdate.frame
  cases inner.pending with
  | none => exact .inl rfl
  | some pending =>
    cases hWire : pending.message.intoWire with
    | none => simp [sequences, hWire]
    | some message => simp [sequences, hWire, DaemonOutbound.sequence, createDaemonEventMeta]

theorem accept_ordered {event : TurnEvent} (hIdle : s.turn = .idle) (hOrdered : s.Ordered) :
    (s.accept event action).Ordered := by
  have hTaken := hOrdered.take
  have hQuiet : s.turn.payloads = [] := by rw [hIdle]; rfl
  unfold Emitters.accept
  split
  next message kind delta hRoute =>
    split
    next inner hPark =>
      apply hTaken.drop
      have hParked := parkUpdate_sequences hPark
      simp only [Emitters.unsent, hParked, TurnPhase.payloads, sequences, List.map_nil, Multiset.coe_nil, add_zero,
        Multiset.coe_singleton, Multiset.singleton_add]
      exact Multiset.cons_le_cons _ (Multiset.le_add_left _ _)
    next => exact hTaken.drop (Multiset.le_cons_self _ _)
  next frames hRoute =>
    unfold Emitters.Ordered Emitters.unsent at hOrdered ⊢
    rw [hQuiet] at hOrdered
    exact hOrdered

theorem payloads_stamped (payloads : List DaemonOutbound) :
    (if payloads = [] then TurnPhase.idle else .stamped payloads).payloads = payloads := by
  split
  next hNone => rw [hNone]; rfl
  next => rfl

theorem payloads_sending (payloads : List DaemonOutbound) :
    (if payloads = [] then TurnPhase.idle else .sending payloads).payloads = payloads := by
  split
  next hNone => rw [hNone]; rfl
  next => rfl

theorem frame_ordered {frames : List Json} (hFraming : s.turn = .framing frames action) (hOrdered : s.Ordered) :
    (s.frame frames action).Ordered := by
  have hQuiet : s.turn.payloads = [] := by rw [hFraming]; rfl
  unfold Emitters.Ordered Emitters.unsent at hOrdered ⊢
  rw [hQuiet, ← actionFrame_sequence s.core action] at hOrdered
  have hStamped := stampFrames_ordered _ (frames ++ (s.core.actionFrame action).1) hOrdered
  apply hStamped.drop
  apply le_of_eq
  unfold Emitters.frame
  rw [payloads_stamped]
  simp only [sequences, List.map_nil, Multiset.coe_nil]
  abel

theorem flush_ordered {turn : TurnPhase} (hTurn : turn.payloads = s.turn.payloads)
    (hInTurn : s.SendsInTurn (s.inner.flushed s.session)) (hOrdered : s.Ordered) : (s.flush turn).Ordered := by
  unfold Emitters.Ordered at hOrdered ⊢
  have hSplit : s.unsent = (s.inner.sequences : Multiset Nat) + (s.flush turn).unsent := by
    simp only [Emitters.unsent, Emitters.flush, CoalescerInner.sequences, hTurn]
    simp
  have hWire : sequences (s.flush turn).wire = sequences s.wire ++ sequences (s.inner.flushed s.session) :=
    List.map_append ..
  rw [hWire]
  obtain hSent | hNothing := flushed_sequences s.session s.inner
  · cases hPending : s.inner.pending with
    | none =>
      have hEmpty : s.inner.sequences = [] := by rw [CoalescerInner.sequences, hPending]; rfl
      rw [hSent, hEmpty, List.append_nil]
      exact hOrdered.drop (hSplit ▸ Multiset.le_add_left _ _)
    | some pending =>
      have hParked : s.inner.sequences = [pending.sequence] := by rw [CoalescerInner.sequences, hPending]; rfl
      rw [hParked, Multiset.coe_singleton, Multiset.singleton_add] at hSplit
      rw [hSent, hParked]
      rw [hSplit] at hOrdered
      apply hOrdered.hand
      obtain ⟨frame, hFrame, hSequence⟩ := List.mem_map.mp (hSent ▸ hParked ▸ List.mem_singleton_self pending.sequence)
      have hLeast := hInTurn frame hFrame
      rwa [hSequence, hSplit] at hLeast
  · rw [hNothing, List.append_nil]
    exact hOrdered.drop (hSplit ▸ Multiset.le_add_left _ _)

theorem send_ordered {payload : DaemonOutbound} (hSplit : s.unsent = payload.sequence ::ₘ s'.unsent)
    (hCore : s'.core = s.core) (hWire : s'.wire = s.wire ++ [payload]) (hInTurn : s.SendsInTurn [payload])
    (hOrdered : s.Ordered) : s'.Ordered := by
  unfold Emitters.Ordered at hOrdered ⊢
  have hLeast := hInTurn payload (List.mem_singleton_self payload)
  rw [hSplit] at hOrdered hLeast
  rw [hCore, hWire, sequences, List.map_append]
  exact hOrdered.hand hLeast

theorem step_ordered (hStep : Step s sent s') (hInTurn : s.SendsInTurn sent) (hOrdered : s.Ordered) : s'.Ordered := by
  cases hStep with
  | accept event action hIdle => exact accept_ordered hIdle hOrdered
  | frame hFraming => exact frame_ordered hFraming hOrdered
  | sendDirect hStamped => exact flush_ordered (by rw [hStamped]; rfl) hInTurn hOrdered
  | flushPending hFree hOpen => exact flush_ordered rfl hInTurn hOrdered
  | @send payload payloads hSending =>
    have hPayloads : s.turn.payloads = payload :: payloads := by rw [hSending]; rfl
    refine send_ordered ?_ ?_ ?_ hInTurn hOrdered
    rotate_left
    · rfl
    · rfl
    unfold Emitters.unsent
    rw [payloads_sending, hPayloads]
    simp [sequences, ← Multiset.cons_coe]
  | close hIdle =>
    apply hOrdered.drop
    simp only [Emitters.unsent, hIdle]
    exact add_le_add_left (add_le_add_left (Multiset.zero_le _) _) _
  | stamp emission hFree =>
    have hTaken := emission_ordered s.core emission hOrdered
    apply hTaken.drop
    apply le_of_eq
    simp only [Emitters.unsent, sequences, List.map_append, ← Multiset.coe_add, add_assoc]
  | deliver hHeld =>
    refine send_ordered ?_ ?_ ?_ hInTurn hOrdered
    rotate_left
    · rfl
    · rfl
    simp only [Emitters.unsent, hHeld, sequences, List.map_append, List.map_cons, ← Multiset.coe_add]
    simp [← Multiset.cons_coe]

/-- Where no frame is sent while one numbered before it waits, the frames of a session reach the event pump in the
order of their sequences. -/
theorem sequences_increasing {start : Emitters} (hFresh : start.Fresh) (hRun : Relation.ReflTransGen InTurn start s) :
    (sequences s.wire).Pairwise (· < ·) := by
  have hOrdered : s.Ordered := by
    induction hRun with
    | refl => exact fresh_ordered hFresh
    | tail _ hStep ih =>
      obtain ⟨sent, hStep, hInTurn⟩ := hStep
      exact step_ordered hStep hInTurn ih
  exact hOrdered.handed_sorted

/-! ## An update overtaken in the slot -/

def freshEmitters : Emitters :=
  { core := ⟨"s", "g", 0, none⟩, session := ⟨"s", "g"⟩, inner := .empty, turn := .idle, held := [], wire := [] }

def deltaEvent : TurnEvent :=
  .assistantUpdate (.wire .null) (some (.object [("type", .string "text_delta"), ("delta", .string "hi")]))

def parkedEmitters : Emitters :=
  (freshEmitters.accept deltaEvent none).frame [] none

def workerFrame : DaemonOutbound :=
  .sessionEvent "s" .null parkedEmitters.core.nextMeta

def stampedEmitters : Emitters :=
  { parkedEmitters with core := parkedEmitters.core.advance, held := [workerFrame] }

theorem parkedEmitters_steps : ∃ s, Step freshEmitters [] s ∧ Step s [] parkedEmitters :=
  ⟨_, .accept deltaEvent none rfl, .frame rfl⟩

theorem stampedEmitters_step : Step parkedEmitters [] stampedEmitters :=
  .stamp (.workerEvent .null) (fun hCore => hCore)

theorem sendsInTurn_nil (s : Emitters) : s.SendsInTurn [] := by
  intro _ hMem
  cases hMem

theorem stampedEmitters_run : Relation.ReflTransGen InTurn freshEmitters stampedEmitters := by
  obtain ⟨s, hAccept, hFrame⟩ := parkedEmitters_steps
  apply Relation.ReflTransGen.tail _ ⟨[], stampedEmitters_step, sendsInTurn_nil _⟩
  apply Relation.ReflTransGen.tail _ ⟨[], hFrame, sendsInTurn_nil _⟩
  exact .single ⟨[], hAccept, sendsInTurn_nil _⟩

theorem freshEmitters_fresh : freshEmitters.Fresh :=
  ⟨rfl, rfl, rfl, rfl⟩

theorem sequences_increasing_flushed : ∃ s, Relation.ReflTransGen InTurn freshEmitters s ∧
    sequences s.wire = [1, 2] ∧ (sequences s.wire).Pairwise (· < ·) := by
  let flushed := stampedEmitters.flush stampedEmitters.turn
  have hFlush : InTurn stampedEmitters flushed :=
    ⟨_, .flushPending (fun hInner => hInner) rfl, by unfold Emitters.SendsInTurn Least; decide⟩
  have hDeliver : InTurn flushed { flushed with held := [] ++ [], wire := flushed.wire ++ [workerFrame] } :=
    ⟨_, .deliver rfl, by unfold Emitters.SendsInTurn Least; decide⟩
  have hRun := (stampedEmitters_run.tail hFlush).tail hDeliver
  exact ⟨_, hRun, rfl, sequences_increasing freshEmitters_fresh hRun⟩

/-- An emitter's frame may overtake the parked update, which then reaches the event pump with the lower sequence. -/
theorem sequences_not_increasing : ¬∀ start s : Emitters, start.Fresh →
    Relation.ReflTransGen (fun s s' => ∃ sent, Step s sent s') start s → (sequences s.wire).Pairwise (· < ·) := by
  intro hEvery
  let sent : Emitters := { stampedEmitters with held := [] ++ [], wire := stampedEmitters.wire ++ [workerFrame] }
  have hRun : Relation.ReflTransGen (fun s s' => ∃ sent, Step s sent s') freshEmitters stampedEmitters :=
    Relation.ReflTransGen.mono (fun _ _ ⟨sent, hStep, _⟩ => ⟨sent, hStep⟩) _ _ stampedEmitters_run
  have hDeliver : Step stampedEmitters [workerFrame] sent :=
    .deliver rfl
  have hFlush : Step sent (sent.inner.flushed sent.session) (sent.flush sent.turn) :=
    .flushPending (fun hInner => hInner) rfl
  have hSorted := hEvery freshEmitters _ freshEmitters_fresh ((hRun.tail ⟨_, hDeliver⟩).tail ⟨_, hFlush⟩)
  have hOrder : sequences (sent.flush sent.turn).wire = [2, 1] := rfl
  rw [hOrder] at hSorted
  exact absurd hSorted (by decide)

end PrimeAgent.Worker
