import PrimeAgent.Goal.Continuation

/-! # Outstanding continuations

Any sequence of the operations at a turn boundary, with any writes that fail. The ledger beside the driver counts the mints
and rollbacks of the goal since its last clear, and the deferrals that were armed and taken.
-/
namespace PrimeAgent.Goal

open Held

inductive BoundaryCall where
  | markContinuationOwed
  | nextContinuationMessage (lastTurn : Option SettledTurn)
  | takeOwedContinuation (lastTurn : Option SettledTurn)
  | continuationConsumed
  | rollbackContinuationMint
  | pause (reason : String)
  | resume
  | complete
  | clear

def offer (env : OpEnv) (h : Held) : BoundaryCall → Except GoalError (Option GoalContext) × Held
  | .markContinuationOwed => (.ok none, h.markContinuationOwed)
  | .nextContinuationMessage lastTurn => h.nextContinuationMessage env lastTurn
  | .takeOwedContinuation lastTurn => h.takeOwedContinuation env lastTurn
  | .continuationConsumed => (.ok none, h.continuationConsumed)
  | .rollbackContinuationMint => ((h.rollbackContinuationMint env).1.map fun _ => none, (h.rollbackContinuationMint env).2)
  | .pause reason => ((h.pause env reason).1.map fun _ => none, (h.pause env reason).2)
  | .resume => h.resume env
  | .complete => ((h.complete env).1.map fun _ => none, (h.complete env).2)
  | .clear => ((h.clear env).1.map fun _ => none, (h.clear env).2)

structure MintLedger where
  /-- The slots that the goal had used at first. -/
  base : Nat
  mints : Nat
  rollbacks : Nat
  arms : Nat
  taken : Nat
  /-- Minted, and not admitted, withdrawn or dropped with its goal. -/
  outstanding : Nat

namespace MintLedger

def opened (h : Held) : MintLedger where
  base := h.driver.state.continuationsUsed
  mints := 0
  rollbacks := 0
  arms := h.driver.owedContinuationForRlmWork.toNat
  taken := 0
  outstanding := h.driver.pendingContinuation.toNat

def minted (l : MintLedger) : MintLedger :=
  { l with mints := l.mints + 1, outstanding := l.outstanding + 1 }

def withdrawn (l : MintLedger) : MintLedger :=
  { l with outstanding := l.outstanding - 1 }

/-- The ledger after a call at `h` with this result. -/
def record (h : Held) (l : MintLedger) : BoundaryCall → Except GoalError (Option GoalContext) → MintLedger
  | .markContinuationOwed, _ =>
    if h.driver.pendingContinuation ∨ h.driver.owedContinuationForRlmWork then l else { l with arms := l.arms + 1 }
  | .nextContinuationMessage _, .ok (some _) => l.minted
  | .takeOwedContinuation _, .ok (some _) => { l.minted with taken := l.taken + 1 }
  | .continuationConsumed, _ => l.withdrawn
  | .rollbackContinuationMint, .ok _ =>
    if h.driver.state.continuationsUsed = 0 then l.withdrawn else { l.withdrawn with rollbacks := l.rollbacks + 1 }
  | .rollbackContinuationMint, .error _ => l.withdrawn
  | .clear, .ok _ => { l with base := 0, mints := 0, rollbacks := 0 }
  | _, _ => l

def settle (h : Held) (l : MintLedger) : MintLedger :=
  if h.driver.state.status = .active then l else { l with outstanding := 0 }

end MintLedger

def offerNext (at_ : Held × MintLedger) (step : OpEnv × BoundaryCall) : Held × MintLedger :=
  let offered := offer step.1 at_.1 step.2
  (offered.2, (at_.2.record at_.1 step.2 offered.1).settle offered.2)

def afterOffers (h : Held) (calls : List (OpEnv × BoundaryCall)) : Held × MintLedger :=
  calls.foldl offerNext (h, .opened h)

/-- At most one continuation is outstanding, and only of an active goal; the slots are those of the mints that were not
rolled back, and no deferral is delivered twice. -/
structure Single (at_ : Held × MintLedger) : Prop where
  outstanding : at_.2.outstanding = at_.1.driver.pendingContinuation.toNat
  active : at_.1.driver.pendingContinuation = true → at_.1.driver.state.status = .active
  used : at_.1.driver.state.continuationsUsed + at_.2.rollbacks = at_.2.base + at_.2.mints
  taken : at_.2.taken + at_.1.driver.owedContinuationForRlmWork.toNat ≤ at_.2.arms

structure Offers (h : Held) (call : BoundaryCall) (offered : Except GoalError (Option GoalContext) × Held) : Prop where
  alone : ∀ message, offered.1 = .ok (some message) → h.driver.pendingContinuation = false
  minted : ∀ lastTurn message,
    call = .nextContinuationMessage lastTurn ∨ call = .takeOwedContinuation lastTurn → offered.1 = .ok (some message) →
    h.driver.state.status = .active ∧ offered.2.driver.pendingContinuation = true
  marked : call = .markContinuationOwed → h.driver.pendingContinuation = true → offered.2 = h
  held : ∀ lastTurn, call = .takeOwedContinuation lastTurn →
    h.driver.pendingContinuation = true ∨ h.driver.owedContinuationForRlmWork = false → offered = (.ok none, h)
  taken : ∀ lastTurn message, call = .takeOwedContinuation lastTurn → offered.1 = .ok (some message) →
    offered.2.driver.owedContinuationForRlmWork = false
  dropped : ∀ lastTurn, call = .takeOwedContinuation lastTurn → h.driver.state.status ≠ .active →
    offered.1 = .ok none ∧ offered.2.driver.owedContinuationForRlmWork = false
  beside : offered.2.driver.owedContinuationForRlmWork = true → offered.2.driver.pendingContinuation = true →
    (h.driver.owedContinuationForRlmWork = true ∧ h.driver.pendingContinuation = true) ∨
      ∃ lastTurn, call = .nextContinuationMessage lastTurn ∧ h.driver.owedContinuationForRlmWork = true

/-! ## Steps -/

variable {h h' : Held} {l : MintLedger} {env : OpEnv}

inductive Takes (h : Held) (offered : Except GoalError (Option GoalContext) × Held) : Prop where
  | held (hHeld : h.driver.pendingContinuation = true ∨ h.driver.owedContinuationForRlmWork = false)
      (hSame : offered = (.ok none, h))
  | minted (hOwed : h.driver.owedContinuationForRlmWork = true)
      (hMessage : ∃ message, offered.1 = .ok (some message)) (hMints : Mints (h.owe false) offered.2)
  | kept (hOwed : h.driver.owedContinuationForRlmWork = true)
      (hNone : offered.1 = .ok none ∨ ∃ error, offered.1 = .error error) (hSteady : Steady h offered.2)
      (hDropped : h.driver.state.status ≠ .active →
        offered.1 = .ok none ∧ offered.2.driver.owedContinuationForRlmWork = false)

theorem steady_owe (hOwed : h.driver.owedContinuationForRlmWork = true) (s : Steady (h.owe false) h') (owed : Bool) :
    Steady h (h'.owe owed) ∧ Steady h h' :=
  ⟨⟨fun _ => hOwed, s.used, s.objective, s.pending⟩, ⟨fun _ => hOwed, s.used, s.objective, s.pending⟩⟩

theorem takeOwed_takes (lastTurn : Option SettledTurn) : Takes h (takeOwedContinuation env lastTurn h) := by
  unfold takeOwedContinuation
  split
  next hOwed => exact .held (.inr hOwed) rfl
  next hOwed =>
    have hOwed : h.driver.owedContinuationForRlmWork = true := Bool.not_eq_false _ ▸ hOwed
    split
    next hPending => exact .held (.inl hPending) rfl
    next =>
      have hMinting := @next_minting (h.owe false) env lastTurn
      cases hActive : decide (h.driver.state.status = .active) with
      | false =>
        have hInactive : h.driver.state.status ≠ .active := of_decide_eq_false hActive
        have hNone : nextContinuationMessage env lastTurn (h.owe false) = (.ok none, h.owe false) :=
          if_pos (.inl hInactive)
        have hLeft : ¬ (h.owe false).driver.state.status = .active := hInactive
        simp only [hNone, if_neg hLeft]
        exact .kept hOwed (.inl rfl) (steady_owe hOwed .refl false).2 fun _ => ⟨rfl, rfl⟩
      | true =>
        have hActive := of_decide_eq_true hActive
        have hDropped : ∀ offered : Except GoalError (Option GoalContext) × Held, h.driver.state.status ≠ .active →
            offered.1 = .ok none ∧ offered.2.driver.owedContinuationForRlmWork = false :=
          fun _ hInactive => absurd hActive hInactive
        split
        next hOut =>
          rw [hOut] at hMinting
          obtain ⟨-, hSteady⟩ | ⟨⟨message, hMessage⟩, -⟩ := hMinting
          · split
            next => exact .kept hOwed (.inl rfl) (steady_owe hOwed hSteady true).1 (hDropped _)
            next => exact .kept hOwed (.inl rfl) (steady_owe hOwed hSteady true).2 (hDropped _)
          · cases hMessage
        next hOut =>
          rw [hOut] at hMinting
          obtain ⟨hNone | ⟨error, hError⟩, -⟩ | ⟨hMessage, m⟩ := hMinting
          · cases hNone
          · cases hError
          · exact .minted hOwed hMessage m
        next hOut =>
          rw [hOut] at hMinting
          obtain ⟨-, hSteady⟩ | ⟨⟨message, hMessage⟩, -⟩ := hMinting
          · exact .kept hOwed (.inr ⟨_, rfl⟩) (steady_owe hOwed hSteady true).1 (hDropped _)
          · cases hMessage

theorem resume_kept (hOpen : h.driver.pendingContinuation = true → h.driver.state.status = .active) :
    Steady h (resume env h).2 ∨
      (h.driver.pendingContinuation = false ∧ (resume env h).2.driver.pendingContinuation = false ∧
        (resume env h).2.driver.owedContinuationForRlmWork = h.driver.owedContinuationForRlmWork ∧
        (resume env h).2.driver.state.continuationsUsed = h.driver.state.continuationsUsed) := by
  unfold resume
  split
  next => exact .inl .refl
  next =>
    split
    next => exact .inl .refl
    next hAsleep =>
      have hFree : h.driver.pendingContinuation = false := by
        cases hPending : h.driver.pendingContinuation with
        | false => rfl
        | true =>
          rw [hOpen hPending] at hAsleep
          simp at hAsleep
      have hFree' : ∀ test : Bool, (if test then false else h.driver.pendingContinuation) = false := by
        intro test
        rw [hFree]
        exact ite_self _
      simp only
      split
      next hSet =>
        have hDriver := setState_false hSet
        refine .inr ⟨hFree, ?_, ?_, ?_⟩
        all_goals simp only [hDriver, hFree]
      next hSet =>
        have hDriver := (setState_true hSet).2
        refine .inr ⟨hFree, ?_, ?_, ?_⟩
        · simp only [hDriver, hFree, ite_self]
        · simp only [hDriver]
        · simp only [hDriver, recorded_continuationsUsed]

/-! ## The ledger -/

namespace MintLedger

theorem settle_active (hActive : h.driver.state.status = .active) : l.settle h = l :=
  if_pos hActive

theorem settle_inactive (hInactive : h.driver.state.status ≠ .active) : l.settle h = { l with outstanding := 0 } :=
  if_neg hInactive

theorem settle_counts (h : Held) (l : MintLedger) :
    (l.settle h).base = l.base ∧ (l.settle h).mints = l.mints ∧ (l.settle h).rollbacks = l.rollbacks ∧
      (l.settle h).arms = l.arms ∧ (l.settle h).taken = l.taken := by
  unfold settle
  split
  next => exact ⟨rfl, rfl, rfl, rfl, rfl⟩
  next => exact ⟨rfl, rfl, rfl, rfl, rfl⟩

end MintLedger

theorem single_settle (hPending : h.driver.pendingContinuation = true → h.driver.state.status = .active)
    (hOutstanding : h.driver.state.status = .active → l.outstanding = h.driver.pendingContinuation.toNat)
    (hUsed : h.driver.state.continuationsUsed + l.rollbacks = l.base + l.mints)
    (hTaken : l.taken + h.driver.owedContinuationForRlmWork.toNat ≤ l.arms) : Single (h, l.settle h) := by
  obtain ⟨hBase, hMints, hRollbacks, hArms, hTook⟩ := l.settle_counts h
  constructor
  · cases hActive : decide (h.driver.state.status = .active) with
    | true =>
      have hActive := of_decide_eq_true hActive
      rw [MintLedger.settle_active hActive]
      exact hOutstanding hActive
    | false =>
      have hInactive := of_decide_eq_false hActive
      rw [MintLedger.settle_inactive hInactive]
      cases hFree : h.driver.pendingContinuation with
      | true => exact absurd (hPending hFree) hInactive
      | false => rfl
  · exact hPending
  · show _ + (l.settle h).rollbacks = (l.settle h).base + (l.settle h).mints
    rw [hBase, hMints, hRollbacks]
    exact hUsed
  · show (l.settle h).taken + _ ≤ (l.settle h).arms
    rw [hArms, hTook]
    exact hTaken

theorem toNat_le_of_imp {a b : Bool} (hImp : a = true → b = true) : a.toNat ≤ b.toNat := by
  cases a with
  | false => exact Nat.zero_le _
  | true => rw [hImp rfl]

section

variable (hSingle : Single (h, l))

include hSingle

theorem single_steady (s : Steady h h') : Single (h', l.settle h') := by
  obtain ⟨hOutstanding, hActive, hUsed, hTaken⟩ := hSingle
  simp only at hOutstanding hActive hUsed hTaken
  have hOwed := toNat_le_of_imp s.owed
  refine single_settle ?_ ?_ ?_ ?_
  · intro hPending
    obtain ⟨hSame, hStatus⟩ | ⟨hFree, -⟩ := s.pending
    · exact hStatus.trans (hActive (hSame.symm.trans hPending))
    · rw [hFree] at hPending
      cases hPending
  · intro hStill
    obtain ⟨hSame, -⟩ | ⟨-, hInactive⟩ := s.pending
    · rw [hSame, hOutstanding]
    · exact absurd hStill hInactive
  · rw [s.used, hUsed]
  · omega

theorem single_mints (m : Mints h h') : Single (h', l.minted.settle h') := by
  obtain ⟨hOutstanding, hActive, hUsed, hTaken⟩ := hSingle
  simp only at hOutstanding hActive hUsed hTaken
  have hOwed := toNat_le_of_imp m.owed
  refine single_settle ?_ ?_ ?_ ?_
  · exact fun _ => m.status.trans m.active
  · intro _
    rw [m.pending]
    show l.outstanding + 1 = 1
    rw [hOutstanding, m.free]
    rfl
  · show _ + l.rollbacks = l.base + (l.mints + 1)
    rw [m.used]
    omega
  · show l.taken + _ ≤ l.arms
    omega

theorem single_mark : Single (offerNext (h, l) (env, .markContinuationOwed)) := by
  obtain ⟨hOutstanding, hActive, hUsed, hTaken⟩ := hSingle
  simp only at hOutstanding hActive hUsed hTaken
  show Single (h.markContinuationOwed, (l.record h .markContinuationOwed (.ok none)).settle h.markContinuationOwed)
  unfold markContinuationOwed MintLedger.record
  cases hPending : h.driver.pendingContinuation with
  | true =>
    simp only [if_true, true_or]
    exact single_settle hActive (fun _ => hOutstanding) hUsed hTaken
  | false =>
    cases hOwed : h.driver.owedContinuationForRlmWork with
    | true =>
      simp only [or_true, if_true, Bool.false_eq_true, if_false]
      rw [hOwed] at hTaken
      exact single_settle hActive (fun _ => hOutstanding) hUsed hTaken
    | false =>
      simp only [or_self, Bool.false_eq_true, if_false]
      refine single_settle hActive (fun _ => hOutstanding) hUsed ?_
      show l.taken + 1 ≤ l.arms + 1
      omega

theorem single_take (lastTurn : Option SettledTurn) :
    Single (offerNext (h, l) (env, .takeOwedContinuation lastTurn)) := by
  show Single ((takeOwedContinuation env lastTurn h).2,
    (l.record h (.takeOwedContinuation lastTurn) (takeOwedContinuation env lastTurn h).1).settle
      (takeOwedContinuation env lastTurn h).2)
  cases @takeOwed_takes h env lastTurn with
  | held _ hSame =>
    rw [hSame]
    exact single_steady hSingle .refl
  | kept _ hNone hSteady _ =>
    obtain hNone | ⟨error, hError⟩ := hNone
    · rw [hNone]
      exact single_steady hSingle hSteady
    · rw [hError]
      exact single_steady hSingle hSteady
  | minted hOwed hMessage m =>
    obtain ⟨message, hMessage⟩ := hMessage
    rw [hMessage]
    have hClaimed : Single (h.owe false, { l with taken := l.taken + 1 }) := by
      obtain ⟨hOutstanding, hActive, hUsed, hTaken⟩ := hSingle
      refine ⟨hOutstanding, hActive, hUsed, ?_⟩
      simp only [hOwed] at hTaken
      exact hTaken
    exact single_mints hClaimed m

theorem single_consumed : Single (h.continuationConsumed, l.withdrawn) := by
  obtain ⟨hOutstanding, hActive, hUsed, hTaken⟩ := hSingle
  refine ⟨?_, fun hPending => (by cases hPending), hUsed, hTaken⟩
  show l.outstanding - 1 = 0
  have hOne := Bool.toNat_le h.driver.pendingContinuation
  simp only at hOutstanding
  omega

theorem single_rollback :
    Single (offerNext (h, l) (env, .rollbackContinuationMint)) := by
  have hConsumed := single_consumed hSingle
  show Single ((rollbackContinuationMint env h).2,
    (l.record h .rollbackContinuationMint ((rollbackContinuationMint env h).1.map fun _ => none)).settle
      (rollbackContinuationMint env h).2)
  unfold rollbackContinuationMint
  split
  next hNone =>
    show Single (h.continuationConsumed, MintLedger.settle _ (if _ then _ else _))
    rw [if_pos hNone]
    exact single_steady hConsumed .refl
  next hSome =>
    obtain ⟨hOutstanding, hActive, hUsed, hTaken⟩ := hConsumed
    split
    next hSet =>
      have hDriver := setState_false hSet
      refine single_settle (fun hPending => (by cases hPending)) (fun _ => hOutstanding) ?_ ?_
      · show _ + l.rollbacks = l.base + l.mints
        unfold continuationConsumed
        simp only [hDriver]
        exact hUsed
      · unfold continuationConsumed
        simp only [hDriver]
        exact hTaken
    next hSet =>
      have hDriver := (setState_true hSet).2
      show Single (_, MintLedger.settle _ (if _ then _ else _))
      rw [if_neg hSome]
      refine single_settle (fun hPending => (by cases hPending)) (fun _ => hOutstanding) ?_ ?_
      · show _ + (l.rollbacks + 1) = l.base + l.mints
        unfold continuationConsumed
        simp only [hDriver, recorded_continuationsUsed]
        change h.driver.state.continuationsUsed + l.rollbacks = l.base + l.mints at hUsed
        omega
      · unfold continuationConsumed
        simp only [hDriver]
        exact hTaken

theorem single_resume : Single ((resume env h).2, l.settle (resume env h).2) := by
  obtain hSteady | ⟨hFree, hFree', hOwed, hUsed'⟩ := @resume_kept h env hSingle.active
  · exact single_steady hSingle hSteady
  · obtain ⟨hOutstanding, hActive, hUsed, hTaken⟩ := hSingle
    simp only at hOutstanding hActive hUsed hTaken
    refine single_settle ?_ ?_ ?_ ?_
    · rw [hFree']
      exact fun hPending => (by cases hPending)
    · intro _
      rw [hOutstanding, hFree, hFree']
    · rw [hUsed', hUsed]
    · rw [hOwed]
      exact hTaken

theorem single_clear : Single (offerNext (h, l) (env, .clear)) := by
  show Single ((clear env h).2, (l.record h .clear ((clear env h).1.map fun _ => none)).settle (clear env h).2)
  unfold clear
  split
  next hSet =>
    have hDriver := setState_false hSet
    obtain ⟨hOutstanding, hActive, hUsed, hTaken⟩ := hSingle
    refine single_settle ?_ ?_ ?_ ?_
    · rw [hDriver]
      exact hActive
    · rw [hDriver]
      exact fun _ => hOutstanding
    · rw [hDriver]
      exact hUsed
    · rw [hDriver]
      exact hTaken
  next hSet =>
    have hDriver := (setState_true hSet).2
    have hStatus := setState_status hSet
    refine single_settle (fun hPending => (by cases hPending)) ?_ ?_ ?_
    · intro hActive
      have hIdle : _ = GoalStatus.active := hActive
      simp only at hIdle
      rw [hStatus] at hIdle
      cases hIdle
    · simp only [hDriver, recorded_continuationsUsed]
      rfl
    · have hTaken := hSingle.taken
      exact Nat.le_trans (Nat.le_add_right _ _) hTaken

theorem single_offer (call : BoundaryCall) : Single (offerNext (h, l) (env, call)) := by
  cases call with
  | markContinuationOwed => exact single_mark hSingle
  | nextContinuationMessage lastTurn =>
    show Single ((nextContinuationMessage env lastTurn h).2,
      (l.record h (.nextContinuationMessage lastTurn) (nextContinuationMessage env lastTurn h).1).settle
        (nextContinuationMessage env lastTurn h).2)
    obtain ⟨hNone | ⟨error, hError⟩, hSteady⟩ | ⟨⟨message, hMessage⟩, m⟩ := @next_minting h env lastTurn
    · rw [hNone]
      exact single_steady hSingle hSteady
    · rw [hError]
      exact single_steady hSingle hSteady
    · rw [hMessage]
      exact single_mints hSingle m
  | takeOwedContinuation lastTurn => exact single_take hSingle lastTurn
  | continuationConsumed => exact single_steady (single_consumed hSingle) .refl
  | rollbackContinuationMint => exact single_rollback hSingle
  | pause reason => exact single_steady hSingle (pause_steady reason)
  | resume => exact single_resume hSingle
  | complete => exact single_steady hSingle complete_steady
  | clear => exact single_clear hSingle

end

theorem afterOffers_concat (h : Held) (calls : List (OpEnv × BoundaryCall)) (step : OpEnv × BoundaryCall) :
    afterOffers h (calls ++ [step]) = offerNext (afterOffers h calls) step := by
  unfold afterOffers
  rw [List.foldl_append]
  rfl

theorem single_run (hOpen : h.driver.pendingContinuation = true → h.driver.state.status = .active)
    (calls : List (OpEnv × BoundaryCall)) : Single (afterOffers h calls) := by
  induction calls using List.reverseRecOn with
  | nil => exact ⟨rfl, hOpen, rfl, Nat.le_of_eq (Nat.zero_add _)⟩
  | append_singleton calls step ih =>
    rw [afterOffers_concat]
    exact single_offer ih step.2

/-! ## What a call hands out -/

theorem offers_quiet {call : BoundaryCall} {offered : Except GoalError (Option GoalContext) × Held}
    (hNone : ∀ message, offered.1 ≠ .ok (some message))
    (hTake : ∀ lastTurn, call ≠ .takeOwedContinuation lastTurn) (hMark : call ≠ .markContinuationOwed)
    (hBeside : offered.2.driver.owedContinuationForRlmWork = true → offered.2.driver.pendingContinuation = true →
      h.driver.owedContinuationForRlmWork = true ∧ h.driver.pendingContinuation = true) : Offers h call offered := by
  constructor
  · exact fun message hMessage => absurd hMessage (hNone message)
  · exact fun lastTurn message _ hMessage => absurd hMessage (hNone message)
  · exact fun hCall => absurd hCall hMark
  · exact fun lastTurn hCall => absurd hCall (hTake lastTurn)
  · exact fun lastTurn message hCall => absurd hCall (hTake lastTurn)
  · exact fun lastTurn hCall => absurd hCall (hTake lastTurn)
  · exact fun hOwed hPending => .inl (hBeside hOwed hPending)

theorem Steady.beside (s : Steady h h') (hOwed : h'.driver.owedContinuationForRlmWork = true)
    (hPending : h'.driver.pendingContinuation = true) :
    h.driver.owedContinuationForRlmWork = true ∧ h.driver.pendingContinuation = true := by
  obtain ⟨hSame, -⟩ | ⟨hFree, -⟩ := s.pending
  · exact ⟨s.owed hOwed, hSame.symm.trans hPending⟩
  · rw [hFree] at hPending
    cases hPending

theorem map_none_ne {result : Except GoalError Unit} (message : GoalContext) :
    result.map (fun _ => (none : Option GoalContext)) ≠ .ok (some message) := by
  cases result with
  | error error | ok done => exact fun hMessage => (by cases hMessage)

theorem offers_mark : Offers h .markContinuationOwed (offer env h .markContinuationOwed) := by
  constructor
  · exact fun message hMessage => (by cases hMessage)
  · exact fun lastTurn message _ hMessage => (by cases hMessage)
  · exact fun _ hPending => if_pos hPending
  · exact fun lastTurn hCall => (by cases hCall)
  · exact fun lastTurn message hCall => (by cases hCall)
  · exact fun lastTurn hCall => (by cases hCall)
  · intro hOwed hPending
    change h.markContinuationOwed.driver.owedContinuationForRlmWork = true at hOwed
    change h.markContinuationOwed.driver.pendingContinuation = true at hPending
    unfold markContinuationOwed at hOwed hPending
    split at hPending
    next hBefore =>
      rw [if_pos hBefore] at hOwed
      exact .inl ⟨hOwed, hBefore⟩
    next hBefore => exact absurd hPending hBefore

theorem offers_next (lastTurn : Option SettledTurn) :
    Offers h (.nextContinuationMessage lastTurn) (nextContinuationMessage env lastTurn h) := by
  obtain ⟨hRefused, hSteady⟩ | ⟨-, m⟩ := @next_minting h env lastTurn
  · refine offers_quiet ?_ (fun _ hCall => (by cases hCall)) (fun hCall => (by cases hCall)) hSteady.beside
    intro message hMessage
    obtain hNone | ⟨error, hError⟩ := hRefused
    · rw [hNone] at hMessage
      cases hMessage
    · rw [hError] at hMessage
      cases hMessage
  · constructor
    · exact fun _ _ => m.free
    · exact fun _ _ _ _ => ⟨m.active, m.pending⟩
    · exact fun hCall => (by cases hCall)
    · exact fun _ hCall => (by cases hCall)
    · exact fun _ _ hCall => (by cases hCall)
    · exact fun _ hCall => (by cases hCall)
    · exact fun hOwed _ => .inr ⟨lastTurn, rfl, m.owed hOwed⟩

theorem offers_take (hOpen : h.driver.pendingContinuation = true → h.driver.state.status = .active)
    (lastTurn : Option SettledTurn) :
    Offers h (.takeOwedContinuation lastTurn) (takeOwedContinuation env lastTurn h) := by
  have hHeld : h.driver.pendingContinuation = true ∨ h.driver.owedContinuationForRlmWork = false →
      takeOwedContinuation env lastTurn h = (.ok none, h) := by
    intro hHeld
    unfold takeOwedContinuation
    split
    next => rfl
    next hOwed => exact if_pos (hHeld.resolve_right hOwed)
  cases @takeOwed_takes h env lastTurn with
  | held hHolds hSame =>
    rw [hSame]
    constructor
    · exact fun message hMessage => (by cases hMessage)
    · exact fun _ message _ hMessage => (by cases hMessage)
    · exact fun hCall => (by cases hCall)
    · exact fun _ _ _ => rfl
    · exact fun _ message _ hMessage => (by cases hMessage)
    · intro _ _ hInactive
      refine ⟨rfl, ?_⟩
      obtain hPending | hFree := hHolds
      · exact absurd (hOpen hPending) hInactive
      · exact hFree
    · exact fun hOwed hPending => .inl ⟨hOwed, hPending⟩
  | minted hOwed hMessage m =>
    have hClaimed : (takeOwedContinuation env lastTurn h).2.driver.owedContinuationForRlmWork = false := by
      cases hStill : (takeOwedContinuation env lastTurn h).2.driver.owedContinuationForRlmWork with
      | false => rfl
      | true => cases m.owed hStill
    constructor
    · exact fun _ _ => m.free
    · exact fun _ _ _ _ => ⟨m.active, m.pending⟩
    · exact fun hCall => (by cases hCall)
    · intro lastTurn' hCall
      obtain rfl := BoundaryCall.takeOwedContinuation.inj hCall
      exact hHeld
    · exact fun _ _ _ _ => hClaimed
    · exact fun _ _ hInactive => absurd m.active hInactive
    · intro hOwed'
      rw [hClaimed] at hOwed'
      cases hOwed'
  | kept hOwed hNone hSteady hDropped =>
    have hNothing : ∀ message, (takeOwedContinuation env lastTurn h).1 ≠ .ok (some message) := by
      intro message hMessage
      obtain hNone | ⟨error, hError⟩ := hNone
      · rw [hNone] at hMessage
        cases hMessage
      · rw [hError] at hMessage
        cases hMessage
    constructor
    · exact fun message hMessage => absurd hMessage (hNothing message)
    · exact fun _ message _ hMessage => absurd hMessage (hNothing message)
    · exact fun hCall => (by cases hCall)
    · intro lastTurn' hCall
      obtain rfl := BoundaryCall.takeOwedContinuation.inj hCall
      exact hHeld
    · exact fun _ message _ hMessage => absurd hMessage (hNothing message)
    · exact fun _ _ => hDropped
    · exact fun hOwed' hPending => .inl (hSteady.beside hOwed' hPending)

theorem offers_rollback : Offers h .rollbackContinuationMint (offer env h .rollbackContinuationMint) := by
  refine offers_quiet (fun message => map_none_ne message) (fun _ hCall => (by cases hCall))
    (fun hCall => (by cases hCall)) ?_
  intro _ hPending
  change (rollbackContinuationMint env h).2.driver.pendingContinuation = true at hPending
  unfold rollbackContinuationMint at hPending
  split at hPending
  next => cases hPending
  next =>
    split at hPending
    next => cases hPending
    next => cases hPending

theorem offers_resume (hOpen : h.driver.pendingContinuation = true → h.driver.state.status = .active) :
    Offers h .resume (resume env h) := by
  have hBeside : (resume env h).2.driver.owedContinuationForRlmWork = true →
      (resume env h).2.driver.pendingContinuation = true →
      h.driver.owedContinuationForRlmWork = true ∧ h.driver.pendingContinuation = true := by
    intro hOwed hPending
    obtain hSteady | ⟨-, hFree, -, -⟩ := @resume_kept h env hOpen
    · exact hSteady.beside hOwed hPending
    · rw [hFree] at hPending
      cases hPending
  constructor
  · intro message hMessage
    cases hPending : h.driver.pendingContinuation with
    | false => rfl
    | true =>
      unfold resume at hMessage
      rw [hOpen hPending] at hMessage
      simp at hMessage
  · rintro lastTurn message (hCall | hCall)
    · cases hCall
    · cases hCall
  · exact fun hCall => (by cases hCall)
  · exact fun _ hCall => (by cases hCall)
  · exact fun _ _ hCall => (by cases hCall)
  · exact fun _ hCall => (by cases hCall)
  · exact fun hOwed hPending => .inl (hBeside hOwed hPending)

theorem offers_clear : Offers h .clear (offer env h .clear) := by
  refine offers_quiet (fun message => map_none_ne message) (fun _ hCall => (by cases hCall))
    (fun hCall => (by cases hCall)) ?_
  intro hOwed hPending
  change (clear env h).2.driver.owedContinuationForRlmWork = true at hOwed
  change (clear env h).2.driver.pendingContinuation = true at hPending
  unfold clear at hOwed hPending
  split at hPending
  next hSet =>
    rw [hSet] at hOwed
    have hDriver := setState_false hSet
    simp only [hDriver] at hOwed hPending
    exact ⟨hOwed, hPending⟩
  next => cases hPending

theorem offer_offers (hOpen : h.driver.pendingContinuation = true → h.driver.state.status = .active)
    (env : OpEnv) (call : BoundaryCall) : Offers h call (offer env h call) := by
  cases call with
  | markContinuationOwed => exact offers_mark
  | nextContinuationMessage lastTurn => exact offers_next lastTurn
  | takeOwedContinuation lastTurn => exact offers_take hOpen lastTurn
  | continuationConsumed =>
    exact offers_quiet (fun message hMessage => (by cases hMessage)) (fun _ hCall => (by cases hCall))
      (fun hCall => (by cases hCall)) (fun _ hPending => (by cases hPending))
  | rollbackContinuationMint => exact offers_rollback
  | pause reason =>
    exact offers_quiet (fun message => map_none_ne message) (fun _ hCall => (by cases hCall))
      (fun hCall => (by cases hCall)) (pause_steady reason).beside
  | resume => exact offers_resume hOpen
  | complete =>
    exact offers_quiet (fun message => map_none_ne message) (fun _ hCall => (by cases hCall))
      (fun hCall => (by cases hCall)) complete_steady.beside
  | clear => exact offers_clear

/-! ## Runs -/

theorem continuations_single (h : Held)
    (hOpen : h.driver.pendingContinuation = true → h.driver.state.status = .active)
    (calls : List (OpEnv × BoundaryCall)) :
    Single (afterOffers h calls) ∧
      ∀ env call, Offers (afterOffers h calls).1 call (offer env (afterOffers h calls).1 call) := by
  have hSingle := single_run hOpen calls
  exact ⟨hSingle, offer_offers hSingle.active⟩

def pursuing : Held where
  driver := { GoalDriver.new with state := { emptyGoalState with active := true, status := .active, objective := some "ship".toList } }
  rows := []

def writing : OpEnv := ⟨fun _ => 0, fun _ => .done, "goal"⟩

def armedCalls : List (OpEnv × BoundaryCall) :=
  [(writing, .markContinuationOwed), (writing, .nextContinuationMessage none), (writing, .continuationConsumed),
    (writing, .takeOwedContinuation none)]

theorem armed_single : Single (afterOffers pursuing armedCalls) ∧
    (afterOffers pursuing armedCalls).1.driver.state.continuationsUsed = 2 :=
  ⟨(continuations_single pursuing (fun hPending => (by cases hPending)) armedCalls).1, by decide⟩

theorem owed_beside_pending : ¬ ∀ h calls, (h.driver.pendingContinuation = true → h.driver.state.status = .active) →
    ¬ ((afterOffers h calls).1.driver.owedContinuationForRlmWork = true ∧
      (afterOffers h calls).1.driver.pendingContinuation = true) := by
  intro hExclusive
  refine hExclusive pursuing (armedCalls.take 2) (fun hPending => (by cases hPending)) ?_
  decide

end PrimeAgent.Goal
