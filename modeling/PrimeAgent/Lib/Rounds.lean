import Mathlib.Data.List.Basic

/-! # Loops of fallible rounds

A loop that runs one round after the other until a round returns or fails. With an invariant of the rounds and a measure that
they lower, every run ends, and what it returns meets the postcondition of the last round.
-/
namespace PrimeAgent.Rounds

variable {ε ρ σ α β : Type} {x : Except ε α}

theorem bind_ok {f : α → Except ε β} {b : β} (hBind : (x >>= f) = .ok b) :
    ∃ a, x = .ok a ∧ f a = .ok b := by
  cases x with
  | error error => cases hBind
  | ok a => exact ⟨a, rfl, hBind⟩

theorem bind_pure_ok {f : α → β} {b : β} (hBind : (x >>= fun a => pure (f a)) = .ok b) :
    ∃ a, x = .ok a ∧ f a = b := by
  obtain ⟨a, hFirst, hPure⟩ := bind_ok hBind
  exact ⟨a, hFirst, Except.ok.inj hPure⟩

inductive Next (ρ σ : Type) where
  | done (result : ρ)
  | again (state : σ)

def run (round : σ → Except ε (Next ρ σ)) : Nat → σ → Option (Except ε ρ)
  | 0, _ => none
  | rounds + 1, state =>
    match round state with
    | .error error => some (.error error)
    | .ok (.done result) => some (.ok result)
    | .ok (.again state) => run round rounds state

theorem run_ok {round : σ → Except ε (Next ρ σ)} {inv : σ → Prop} {post : ρ → Prop}
    (hAgain : ∀ state state', inv state → round state = .ok (.again state') → inv state')
    (hDone : ∀ state result, inv state → round state = .ok (.done result) → post result) {rounds : Nat} {state : σ}
    (hInv : inv state) {result : ρ} (hRun : run round rounds state = some (.ok result)) : post result := by
  induction rounds generalizing state with
  | zero => cases hRun
  | succ rounds ih =>
    unfold run at hRun
    split at hRun
    next => cases hRun
    next result' hRound =>
      obtain rfl := Except.ok.inj (Option.some.inj hRun)
      exact hDone state result' hInv hRound
    next state' hRound => exact ih (hAgain state state' hInv hRound) hRun

theorem run_ends {round : σ → Except ε (Next ρ σ)} {inv : σ → Prop} (left : σ → Nat)
    (hAgain : ∀ state state', inv state → round state = .ok (.again state') → inv state' ∧ left state' < left state)
    {rounds : Nat} {state : σ} (hInv : inv state) (hLeft : left state < rounds) :
    ∃ outcome, run round rounds state = some outcome := by
  induction rounds generalizing state with
  | zero => exact absurd hLeft (Nat.not_lt_zero _)
  | succ rounds ih =>
    unfold run
    split
    next => exact ⟨_, rfl⟩
    next => exact ⟨_, rfl⟩
    next state' hRound =>
      obtain ⟨hInv', hLower⟩ := hAgain state state' hInv hRound
      exact ih hInv' (by omega)

end PrimeAgent.Rounds
