import Mathlib.Logic.Basic

/-! # Programs as trees of calls

What a program does outside itself, it does by calls. A program is a result, an error, or a call with what follows
on each answer to it. A loop runs on fuel; a program that has used it up is `spent`: it has not ended.

`R s op answer s'` says that in the state `s` the call `op` may be answered with `answer`, which leaves the state
`s'`. Whoever else acts on the state between two calls acts inside `R`.
-/

inductive Program (Op : Type) (Ans : Op → Type) (ε ρ : Type) where
  | done (result : ρ)
  | fail (error : ε)
  | spent
  | call (op : Op) (next : Ans op → Program Op Ans ε ρ)

namespace Program

variable {Op : Type} {Ans : Op → Type} {ε ε' ρ σ S T : Type}

def bind : Program Op Ans ε ρ → (ρ → Program Op Ans ε σ) → Program Op Ans ε σ
  | done result, f => f result
  | fail error, _ => fail error
  | spent, _ => spent
  | call op next, f => call op fun answer => (next answer).bind f

instance : Monad (Program Op Ans ε) where
  pure := done
  bind := bind

def ask (op : Op) : Program Op Ans ε (Ans op) :=
  call op done

def ofExcept : Except ε ρ → Program Op Ans ε ρ
  | .ok result => done result
  | .error error => fail error

def attempt : Program Op Ans ε ρ → Program Op Ans ε' (Except ε ρ)
  | done result => done (.ok result)
  | fail error => done (.error error)
  | spent => spent
  | call op next => call op fun answer => (next answer).attempt

variable {R : S → (op : Op) → Ans op → S → Prop}

/-- The program ends with `out` in the state `s'`. -/
inductive Ends (R : S → (op : Op) → Ans op → S → Prop) : Program Op Ans ε ρ → S → Except ε ρ → S → Prop
  | done {result : ρ} {s : S} : Ends R (done result) s (.ok result) s
  | fail {error : ε} {s : S} : Ends R (fail error) s (.error error) s
  | call {op : Op} {next : Ans op → Program Op Ans ε ρ} {s s' s'' : S} {answer : Ans op} {out : Except ε ρ} :
      R s op answer s' → Ends R (next answer) s' out s'' → Ends R (call op next) s out s''

/-- However its calls are answered, if the program ends then as `Q` says. -/
def Meets (R : S → (op : Op) → Ans op → S → Prop) :
    Program Op Ans ε ρ → S → (Except ε ρ → S → Prop) → Prop
  | done result, s, Q => Q (.ok result) s
  | fail error, s, Q => Q (.error error) s
  | spent, _, _ => True
  | call op next, s, Q => ∀ answer s', R s op answer s' → (next answer).Meets R s' Q

variable {s s' : S} {Q Q' : Except ε ρ → S → Prop} {p : Program Op Ans ε ρ} {f : ρ → Program Op Ans ε σ}

theorem Meets.ends {out : Except ε ρ} (hMeets : p.Meets R s Q) (hEnds : p.Ends R s out s') : Q out s' := by
  induction hEnds with
  | done | fail => exact hMeets
  | call hAnswer _ ih => exact ih (hMeets _ _ hAnswer)

theorem Meets.mono (hMeets : p.Meets R s Q) (hPost : ∀ out s, Q out s → Q' out s) : p.Meets R s Q' := by
  induction p generalizing s with
  | done result | fail error => exact hPost _ _ hMeets
  | spent => trivial
  | call op next ih => exact fun answer s' hAnswer => ih answer (hMeets answer s' hAnswer)

theorem meets_bind {Q : Except ε σ → S → Prop} :
    (p >>= f).Meets R s Q ↔ p.Meets R s fun
      | .ok result, s' => (f result).Meets R s' Q
      | .error error, s' => Q (.error error) s' := by
  induction p generalizing s with
  | done result => rfl
  | fail error => rfl
  | spent => rfl
  | call op next ih =>
    exact forall_congr' fun answer => forall_congr' fun s' => imp_congr Iff.rfl (ih answer)

theorem Meets.bind {Q' : Except ε σ → S → Prop} (hFirst : p.Meets R s Q)
    (hOk : ∀ result s', Q (.ok result) s' → (f result).Meets R s' Q')
    (hError : ∀ error s', Q (.error error) s' → Q' (.error error) s') : (p >>= f).Meets R s Q' := by
  apply meets_bind.mpr
  apply hFirst.mono
  intro out s' hOut
  cases out with
  | ok result => exact hOk result s' hOut
  | error error => exact hError error s' hOut

/-- The program ends with a result, as `Post` says. -/
def Returns (Post : ρ → S → Prop) : Except ε ρ → S → Prop
  | .ok result, s => Post result s
  | .error _, _ => False

theorem Meets.seq {Post : ρ → S → Prop} {Q' : Except ε σ → S → Prop} (hFirst : p.Meets R s (Returns Post))
    (hNext : ∀ result s', Post result s' → (f result).Meets R s' Q') :
    (p >>= f).Meets R s Q' :=
  hFirst.bind hNext fun _ _ hError => hError.elim

theorem meets_attempt {Q : Except ε' (Except ε ρ) → S → Prop} :
    (p.attempt : Program Op Ans ε' (Except ε ρ)).Meets R s Q ↔ p.Meets R s fun out s' => Q (.ok out) s' := by
  induction p generalizing s with
  | done result => rfl
  | fail error => rfl
  | spent => rfl
  | call op next ih =>
    exact forall_congr' fun answer => forall_congr' fun s' => imp_congr Iff.rfl (ih answer)

/-! ## Programs by the calls they make -/

/-- Every call the program can make is an allowed one, and if it ends then as `P` says. -/
def Within (Allowed : Op → Prop) (P : Except ε ρ → Prop) : Program Op Ans ε ρ → Prop
  | done result => P (.ok result)
  | fail error => P (.error error)
  | spent => True
  | call op next => Allowed op ∧ ∀ answer, (next answer).Within Allowed P

variable {Allowed : Op → Prop} {P P' : Except ε ρ → Prop}

theorem Within.bind {P' : Except ε σ → Prop} (hFirst : p.Within Allowed P)
    (hOk : ∀ result, P (.ok result) → (f result).Within Allowed P')
    (hError : ∀ error, P (.error error) → P' (.error error)) : (p >>= f).Within Allowed P' := by
  induction p with
  | done result => exact hOk result hFirst
  | fail error => exact hError error hFirst
  | spent => trivial
  | call op next ih => exact ⟨hFirst.1, fun answer => ih answer (hFirst.2 answer)⟩

/-- The outcome is a result, as `P` says. -/
def Gives (P : ρ → Prop) : Except ε ρ → Prop
  | .ok result => P result
  | .error _ => False

theorem Within.seq {P : ρ → Prop} {P' : Except ε σ → Prop} (hFirst : p.Within Allowed (Gives P))
    (hNext : ∀ result, P result → (f result).Within Allowed P') :
    (p >>= f).Within Allowed P' :=
  hFirst.bind hNext fun _ hError => hError.elim

theorem Within.attempt (hWithin : p.Within Allowed P) :
    (p.attempt : Program Op Ans ε' (Except ε ρ)).Within Allowed (Gives P) := by
  induction p with
  | done result | fail error => exact hWithin
  | spent => trivial
  | call op next ih => exact ⟨hWithin.1, fun answer => ih answer (hWithin.2 answer)⟩

theorem Within.meets {I : S → Prop} (hWithin : p.Within Allowed P)
    (hKeeps : ∀ s op answer s', Allowed op → I s → R s op answer s' → I s') (hInv : I s) :
    p.Meets R s fun out s' => P out ∧ I s' := by
  induction p generalizing s with
  | done result | fail error => exact ⟨hWithin, hInv⟩
  | spent => trivial
  | call op next ih =>
    exact fun answer s' hAnswer => ih answer (hWithin.2 answer) (hKeeps s op answer s' hWithin.1 hInv hAnswer)

/-! ## Programs side by side -/

def interleave : List Nat → List (Program Op Ans ε ρ) → Program Op Ans ε' (List (Program Op Ans ε ρ))
  | [], pool => done pool
  | i :: turns, pool =>
    match pool[i]? with
    | some (call op next) => call op fun answer => interleave turns (pool.set i (next answer))
    | _ => interleave turns pool

def gather : List (Program Op Ans ε ρ) → Program Op Ans ε (List ρ)
  | [] => done []
  | done result :: rest => (gather rest).bind fun results => done (result :: results)
  | fail error :: _ => fail error
  | spent :: _ | call _ _ :: _ => spent

theorem meets_interleave {turns : List Nat} {I : List (Program Op Ans ε ρ) → S → Prop}
    {pool : List (Program Op Ans ε ρ)}
    (hTurn : ∀ (pool : List (Program Op Ans ε ρ)) (i : Nat) op next s answer s',
      I pool s → pool[i]? = some (call op next) → R s op answer s' → I (pool.set i (next answer)) s')
    (hInv : I pool s) :
    (interleave turns pool : Program Op Ans ε' _).Meets R s (Returns I) := by
  induction turns generalizing pool s with
  | nil => exact hInv
  | cons i turns ih =>
    unfold interleave
    split
    next op next hCall => exact fun answer s' hAnswer => ih (hTurn pool i op next s answer s' hInv hCall hAnswer)
    next => exact ih hInv

/-! ## Answering by a function -/

/-- The run in which `answer`, as far as it knows one, gives each call its answer. -/
def drive (answer : T → (op : Op) → Option (Ans op × T)) : Program Op Ans ε ρ → T → Option (Except ε ρ × T)
  | done result, t => some (.ok result, t)
  | fail error, t => some (.error error, t)
  | spent, _ => none
  | call op next, t =>
    match answer t op with
    | some (a, t') => (next a).drive answer t'
    | none => none

theorem drive_ends {answer : T → (op : Op) → Option (Ans op × T)} {view : T → S} {t t' : T} {out : Except ε ρ}
    (hAnswer : ∀ t op a t', answer t op = some (a, t') → R (view t) op a (view t'))
    (hDrive : p.drive answer t = some (out, t')) : p.Ends R (view t) out (view t') := by
  induction p generalizing t with
  | done result =>
    cases hDrive
    exact .done
  | fail error =>
    cases hDrive
    exact .fail
  | spent => cases hDrive
  | call op next ih =>
    unfold drive at hDrive
    split at hDrive
    next a t₁ hSome => exact .call (hAnswer t op a t₁ hSome) (ih a hDrive)
    next => cases hDrive

end Program
