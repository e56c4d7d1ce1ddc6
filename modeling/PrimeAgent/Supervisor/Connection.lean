import Mathlib.Data.List.Basic

/-! # The connection of a resident worker

Each connection has an epoch. Noting one live increments the epoch and then publishes; noting one lost reads the epoch and
then publishes. Between the two steps any other step can fall.
-/
namespace PrimeAgent.Supervisor

inductive Pump where
  | reader
  | writer
deriving DecidableEq

/-- The shared cells, and who is between two steps: the connections that have not yet published that they are live, the pumps
that have ended, and those that have not yet published it. -/
structure ResidentWorker where
  connectionEpoch : Nat
  connected : Bool
  cmdTx : Option Nat
  connecting : List Nat
  ended : List (Nat × Pump)
  losing : List (Nat × Pump)
deriving DecidableEq

def ResidentWorker.new : ResidentWorker :=
  ⟨0, false, none, [], [], []⟩

/-- The steps of `note_connection_live`, of `note_connection_lost`, and the section of `install_command_channel` under the
lock. -/
inductive Event where
  | incrementEpoch
  | publishLive (epoch : Nat)
  | loadEpoch (epoch : Nat) (pump : Pump)
  | publishLost (epoch : Nat) (pump : Pump)
  | installChannel (epoch : Nat)

namespace ResidentWorker

/-- `note_connection_live` has returned: the pumps run, and the handshake can end. -/
def Noted (s : ResidentWorker) (epoch : Nat) : Prop :=
  0 < epoch ∧ epoch ≤ s.connectionEpoch ∧ epoch ∉ s.connecting

instance (s : ResidentWorker) (epoch : Nat) : Decidable (s.Noted epoch) :=
  inferInstanceAs (Decidable (_ ∧ _))

def connectionIsCurrent (s : ResidentWorker) (epoch : Nat) : Bool :=
  epoch = s.connectionEpoch

def step (s : ResidentWorker) : Event → Option ResidentWorker
  | .incrementEpoch =>
    some { s with connectionEpoch := s.connectionEpoch + 1, connecting := (s.connectionEpoch + 1) :: s.connecting }
  | .publishLive epoch =>
    if epoch ∈ s.connecting then some { s with connected := true, connecting := s.connecting.filter (· ≠ epoch) }
    else none
  | .loadEpoch epoch pump =>
    if s.Noted epoch ∧ (epoch, pump) ∉ s.ended then
      some { s with
        ended := (epoch, pump) :: s.ended
        losing := if s.connectionIsCurrent epoch then (epoch, pump) :: s.losing else s.losing }
    else none
  | .publishLost epoch pump =>
    if (epoch, pump) ∈ s.losing then some { s with connected := false, losing := s.losing.filter (· ≠ (epoch, pump)) }
    else none
  | .installChannel epoch =>
    if s.Noted epoch then some (if s.connectionIsCurrent epoch then { s with cmdTx := some epoch } else s)
    else none

def NewestEnded (s : ResidentWorker) : Prop :=
  ∃ pump, (s.connectionEpoch, pump) ∈ s.ended

def NewestLosing (s : ResidentWorker) : Prop :=
  ∃ pump, (s.connectionEpoch, pump) ∈ s.losing

def Quiet (s : ResidentWorker) : Prop :=
  s.connecting = [] ∧ s.losing = []

/-- `connected` tells whether the newest connection still has both pumps. -/
def Right (s : ResidentWorker) : Prop :=
  s.connected = true ↔ 0 < s.connectionEpoch ∧ ¬ s.NewestEnded

def Harmless (s : ResidentWorker) : Event → Prop
  | .publishLive _ => s.connectionEpoch ∈ s.connecting ∨ ¬ s.NewestEnded ∨ s.NewestLosing
  | .publishLost _ _ => s.connectionEpoch ∈ s.connecting ∨ s.NewestEnded
  | _ => True

inductive Reaches (guard : ResidentWorker → Event → Prop) : ResidentWorker → Prop where
  | new : Reaches guard .new
  | step {s s' : ResidentWorker} {event : Event} (hReaches : Reaches guard s) (hGuard : guard s event)
      (hStep : s.step event = some s') : Reaches guard s'

structure Placed (s : ResidentWorker) : Prop where
  connecting : ∀ epoch ∈ s.connecting, 0 < epoch ∧ epoch ≤ s.connectionEpoch
  ended : ∀ end' ∈ s.ended, s.Noted end'.1
  losing : ∀ end' ∈ s.losing, end' ∈ s.ended
  channel : ∀ epoch, s.cmdTx = some epoch → epoch ≤ s.connectionEpoch

/-- Once the newest connection is noted, `connected` is true until one of its pumps ends, and false or about to be after. -/
structure Agrees (s : ResidentWorker) : Prop where
  idle : s.connectionEpoch = 0 → s.connected = false
  live : 0 < s.connectionEpoch → s.connectionEpoch ∉ s.connecting → ¬ s.NewestEnded → s.connected = true
  lost : s.connectionEpoch ∉ s.connecting → s.NewestEnded → s.connected = false ∨ s.NewestLosing

end ResidentWorker

open ResidentWorker

section Steps

variable {s s' : ResidentWorker} {event : Event} {epoch : Nat} {pump : Pump}

theorem step_cases (hStep : s.step event = some s') :
    (event = .incrementEpoch ∧
      s' = { s with connectionEpoch := s.connectionEpoch + 1, connecting := (s.connectionEpoch + 1) :: s.connecting }) ∨
    (∃ epoch, event = .publishLive epoch ∧ epoch ∈ s.connecting ∧
      s' = { s with connected := true, connecting := s.connecting.filter (· ≠ epoch) }) ∨
    (∃ epoch pump, event = .loadEpoch epoch pump ∧ s.Noted epoch ∧
      s' = { s with
        ended := (epoch, pump) :: s.ended
        losing := if s.connectionIsCurrent epoch then (epoch, pump) :: s.losing else s.losing }) ∨
    (∃ epoch pump, event = .publishLost epoch pump ∧ (epoch, pump) ∈ s.losing ∧
      s' = { s with connected := false, losing := s.losing.filter (· ≠ (epoch, pump)) }) ∨
    ∃ epoch, event = .installChannel epoch ∧ s.Noted epoch ∧
      s' = if s.connectionIsCurrent epoch then { s with cmdTx := some epoch } else s := by
  cases event with
  | incrementEpoch => exact Or.inl ⟨rfl, (Option.some.inj hStep).symm⟩
  | publishLive epoch =>
    rw [ResidentWorker.step] at hStep
    split at hStep
    · rename_i hMem
      exact Or.inr (Or.inl ⟨epoch, rfl, hMem, (Option.some.inj hStep).symm⟩)
    · cases hStep
  | loadEpoch epoch pump =>
    rw [ResidentWorker.step] at hStep
    split at hStep
    · rename_i hNoted
      exact Or.inr (Or.inr (Or.inl ⟨epoch, pump, rfl, hNoted.1, (Option.some.inj hStep).symm⟩))
    · cases hStep
  | publishLost epoch pump =>
    rw [ResidentWorker.step] at hStep
    split at hStep
    · rename_i hMem
      exact Or.inr (Or.inr (Or.inr (Or.inl ⟨epoch, pump, rfl, hMem, (Option.some.inj hStep).symm⟩)))
    · cases hStep
  | installChannel epoch =>
    rw [ResidentWorker.step] at hStep
    split at hStep
    · rename_i hNoted
      exact Or.inr (Or.inr (Or.inr (Or.inr ⟨epoch, rfl, hNoted, (Option.some.inj hStep).symm⟩)))
    · cases hStep

theorem step_placed (hPlaced : s.Placed) (hStep : s.step event = some s') : s'.Placed := by
  rcases step_cases hStep with ⟨-, rfl⟩ | ⟨epoch, -, hMem, rfl⟩ | ⟨epoch, pump, -, hNoted, rfl⟩ |
    ⟨epoch, pump, -, hMem, rfl⟩ | ⟨epoch, -, hNoted, rfl⟩
  · refine ⟨fun epoch hMem => ?_, fun end' hMem => ?_, hPlaced.losing, fun epoch hChannel => ?_⟩
    · rcases List.mem_cons.mp hMem with rfl | hMem
      · exact ⟨Nat.succ_pos _, Nat.le_refl _⟩
      · exact ⟨(hPlaced.connecting epoch hMem).1, Nat.le_succ_of_le (hPlaced.connecting epoch hMem).2⟩
    · obtain ⟨hPos, hLe, hNot⟩ := hPlaced.ended end' hMem
      refine ⟨hPos, Nat.le_succ_of_le hLe, fun hMem' => ?_⟩
      rcases List.mem_cons.mp hMem' with hEq | hMem'
      · exact Nat.not_succ_le_self _ (hEq ▸ hLe)
      · exact hNot hMem'
    · exact Nat.le_succ_of_le (hPlaced.channel epoch hChannel)
  · refine ⟨fun epoch hMem => hPlaced.connecting epoch (List.mem_of_mem_filter hMem), fun end' hMem => ?_,
      hPlaced.losing, hPlaced.channel⟩
    obtain ⟨hPos, hLe, hNot⟩ := hPlaced.ended end' hMem
    exact ⟨hPos, hLe, fun hMem' => hNot (List.mem_of_mem_filter hMem')⟩
  · refine ⟨hPlaced.connecting, fun end' hMem => ?_, fun end' hMem => ?_, hPlaced.channel⟩
    · rcases List.mem_cons.mp hMem with rfl | hMem
      · exact hNoted
      · exact hPlaced.ended end' hMem
    · dsimp only at hMem
      split at hMem
      · rcases List.mem_cons.mp hMem with rfl | hMem
        · exact List.mem_cons_self
        · exact List.mem_cons_of_mem _ (hPlaced.losing end' hMem)
      · exact List.mem_cons_of_mem _ (hPlaced.losing end' hMem)
  · exact ⟨hPlaced.connecting, hPlaced.ended, fun end' hMem => hPlaced.losing end' (List.mem_of_mem_filter hMem),
      hPlaced.channel⟩
  · split
    · refine ⟨hPlaced.connecting, hPlaced.ended, hPlaced.losing, fun epoch' hChannel => ?_⟩
      obtain rfl := Option.some.inj hChannel
      exact hNoted.2.1
    · exact hPlaced

theorem reaches_placed {guard : ResidentWorker → Event → Prop} (hReaches : Reaches guard s) : s.Placed := by
  induction hReaches with
  | new =>
    exact ⟨fun _ hMem => (nomatch hMem), fun _ hMem => (nomatch hMem), fun _ hMem => (nomatch hMem), fun _ h => (nomatch h)⟩
  | step _ _ hStep ih => exact step_placed ih hStep

theorem channel_newer (hPlaced : s.Placed) (hStep : s.step event = some s') {epoch' : Nat} (hOld : s.cmdTx = some epoch)
    (hNew : s'.cmdTx = some epoch') : epoch ≤ epoch' := by
  have hKept (hSame : s'.cmdTx = s.cmdTx) : epoch ≤ epoch' := by
    rw [hSame, hOld] at hNew
    exact Nat.le_of_eq (Option.some.inj hNew)
  rcases step_cases hStep with ⟨-, rfl⟩ | ⟨_, -, -, rfl⟩ | ⟨_, _, -, -, rfl⟩ | ⟨_, _, -, -, rfl⟩ | ⟨installed, -, -, rfl⟩
  · exact hKept rfl
  · exact hKept rfl
  · exact hKept rfl
  · exact hKept rfl
  · split at hNew
    · rename_i hCurrent
      obtain rfl := Option.some.inj hNew
      rw [of_decide_eq_true hCurrent]
      exact hPlaced.channel epoch hOld
    · rw [hOld] at hNew
      exact Nat.le_of_eq (Option.some.inj hNew)

theorem step_agrees (hPlaced : s.Placed) (hAgrees : s.Agrees) (hHarmless : s.Harmless event)
    (hStep : s.step event = some s') : s'.Agrees := by
  rcases step_cases hStep with ⟨-, rfl⟩ | ⟨epoch, rfl, hMem, rfl⟩ | ⟨epoch, pump, -, hNoted, rfl⟩ |
    ⟨epoch, pump, rfl, hMem, rfl⟩ | ⟨epoch, -, hNoted, rfl⟩
  -- A new connection is not yet published, so nothing is said of it.
  · exact ⟨fun h => absurd h (Nat.succ_ne_zero _), fun _ h => absurd List.mem_cons_self h,
      fun h => absurd List.mem_cons_self h⟩
  · have hPos : 0 < s.connectionEpoch := Nat.lt_of_lt_of_le (hPlaced.connecting epoch hMem).1 (hPlaced.connecting epoch hMem).2
    refine ⟨fun h => absurd h (Nat.pos_iff_ne_zero.mp hPos), fun _ _ _ => rfl, fun hNot hEnded => ?_⟩
    obtain ⟨pump, hEnd⟩ := hEnded
    have hNoted := hPlaced.ended _ hEnd
    rcases hHarmless with hConnecting | hLive | hLosing
    · exact absurd hConnecting hNoted.2.2
    · exact absurd ⟨pump, hEnd⟩ hLive
    · exact Or.inr hLosing
  · refine ⟨hAgrees.idle, fun hPos hNot hLive => ?_, fun hNot hEnded => ?_⟩
    · exact hAgrees.live hPos hNot fun ⟨pump, hEnd⟩ => hLive ⟨pump, List.mem_cons_of_mem _ hEnd⟩
    · obtain ⟨pump', hEnd⟩ := hEnded
      have hKeeps (hOld : s.NewestEnded) : s.connected = false ∨
          ∃ pump', (s.connectionEpoch, pump') ∈
            if s.connectionIsCurrent epoch then (epoch, pump) :: s.losing else s.losing := by
        rcases hAgrees.lost hNot hOld with hFalse | ⟨pump', hLosing⟩
        · exact Or.inl hFalse
        · refine Or.inr ⟨pump', ?_⟩
          split
          · exact List.mem_cons_of_mem _ hLosing
          · exact hLosing
      rcases List.mem_cons.mp hEnd with hNew | hOld
      · obtain ⟨hEpoch, -⟩ := Prod.mk.inj hNew
        have hCurrent : s.connectionIsCurrent epoch = true := decide_eq_true hEpoch.symm
        refine Or.inr ⟨pump, ?_⟩
        dsimp only
        rw [if_pos hCurrent, ← hEpoch]
        exact List.mem_cons_self
      · exact hKeeps ⟨pump', hOld⟩
  · refine ⟨fun _ => rfl, fun hPos hNot hLive => ?_, fun _ _ => Or.inl rfl⟩
    rcases hHarmless with hConnecting | hEnded
    · exact absurd hConnecting hNot
    · exact absurd hEnded hLive
  · split
    · exact ⟨hAgrees.idle, hAgrees.live, hAgrees.lost⟩
    · exact hAgrees

theorem reaches_agrees (hReaches : Reaches Harmless s) : s.Agrees := by
  induction hReaches with
  | new => exact ⟨fun _ => rfl, fun h => absurd h (Nat.lt_irrefl 0), fun _ ⟨_, h⟩ => nomatch h⟩
  | step hReaches hGuard hStep ih => exact step_agrees (reaches_placed hReaches) ih hGuard hStep

theorem right_of_quiet (hAgrees : s.Agrees) (hQuiet : s.Quiet) : s.Right := by
  obtain ⟨hConnecting, hLosing⟩ := hQuiet
  have hNot : s.connectionEpoch ∉ s.connecting := hConnecting ▸ List.not_mem_nil
  constructor
  · intro hTrue
    refine ⟨Nat.pos_of_ne_zero fun hZero => ?_, fun hEnded => ?_⟩
    · rw [hAgrees.idle hZero] at hTrue
      cases hTrue
    · rcases hAgrees.lost hNot hEnded with hFalse | ⟨pump, hMem⟩
      · rw [hFalse] at hTrue
        cases hTrue
      · rw [hLosing] at hMem
        cases hMem
  · rintro ⟨hPos, hLive⟩
    exact hAgrees.live hPos hNot hLive

theorem harmless_of_right (hPlaced : s.Placed) (hStep : s.step event = some s') (hQuiet : s'.Quiet) (hRight : s'.Right) :
    s.Harmless event := by
  rcases step_cases hStep with ⟨rfl, rfl⟩ | ⟨epoch, rfl, hMem, rfl⟩ | ⟨epoch, pump, rfl, hNoted, rfl⟩ |
    ⟨epoch, pump, rfl, hMem, rfl⟩ | ⟨epoch, rfl, hNoted, rfl⟩
  · trivial
  · exact Or.inr (Or.inl (hRight.mp rfl).2)
  · trivial
  · by_contra hHarmful
    obtain ⟨-, hLive⟩ := not_or.mp hHarmful
    have hNoted := hPlaced.ended _ (hPlaced.losing _ hMem)
    exact Bool.false_ne_true (hRight.mpr ⟨Nat.lt_of_lt_of_le hNoted.1 hNoted.2.1, hLive⟩)
  · trivial

/-- In runs of harmless publishes `connected` is right whenever no step is half done, and a harmful one that ends the last
half leaves it wrong. The command channel is never that of an older connection. -/
theorem connected_right (s s' : ResidentWorker) (event : Event) :
    (Reaches Harmless s → s.Quiet → s.Right) ∧
      (Reaches Harmless s → s.step event = some s' → s'.Quiet → (s'.Right ↔ s.Harmless event)) ∧
      ∀ epoch epoch', Reaches (fun _ _ => True) s → s.step event = some s' →
        s.cmdTx = some epoch → s'.cmdTx = some epoch' → epoch ≤ epoch' := by
  refine ⟨fun hReaches => right_of_quiet (reaches_agrees hReaches), ?_, ?_⟩
  · intro hReaches hStep hQuiet
    refine ⟨harmless_of_right (reaches_placed hReaches) hStep hQuiet, fun hHarmless => ?_⟩
    have hPlaced := reaches_placed hReaches
    exact right_of_quiet (step_agrees hPlaced (reaches_agrees hReaches) hHarmless hStep) hQuiet
  · exact fun epoch epoch' hReaches hStep => channel_newer (reaches_placed hReaches) hStep

/-- The first connection's reader reads its own epoch, the second connection is noted live, and then the first is published
as lost. -/
theorem connected_stale : ∃ s, Reaches (fun _ _ => True) s ∧ s.Quiet ∧ s.connected = false ∧ s.connectionEpoch = 2 ∧
    ¬ s.NewestEnded ∧ ¬ s.Right := by
  have hReaches : Reaches (fun _ _ => True) ⟨2, false, none, [], [(1, .reader)], []⟩ :=
    .step (.step (.step (.step (.step (.step .new trivial (@rfl _ (ResidentWorker.new.step .incrementEpoch))) trivial
      (@rfl _ (step _ (.publishLive 1)))) trivial (@rfl _ (step _ (.loadEpoch 1 .reader)))) trivial
      (@rfl _ (step _ .incrementEpoch))) trivial (@rfl _ (step _ (.publishLive 2)))) trivial
      (@rfl _ (step _ (.publishLost 1 .reader)))
  have hLive : ¬ NewestEnded ⟨2, false, none, [], [(1, .reader)], []⟩ := by
    rintro ⟨pump, hEnd⟩
    have hEq := List.mem_singleton.mp hEnd
    exact absurd (Prod.mk.inj hEq).1 (by decide)
  exact ⟨_, hReaches, ⟨rfl, rfl⟩, rfl, rfl, hLive, fun hRight => Bool.false_ne_true (hRight.mpr ⟨by decide, hLive⟩)⟩

end Steps

end PrimeAgent.Supervisor
