/-! # Optimistic clients of a shared store

A client reads the store as it goes and ends with a write of what it made of its reads, with an update that is
atomic, or with neither. Between its steps other clients may take theirs.
-/

universe u

inductive Transaction (View Draft Mutation Answer ρ : Type) where
  | done (result : ρ)
  | read (next : View → Transaction View Draft Mutation Answer ρ)
  | write (draft : Draft) (result : ρ)
  | mutate (mutation : Mutation) (finish : Answer → ρ)

structure Store (State View Draft Mutation Answer : Type) where
  view : State → View
  write : Draft → State → State
  mutate : Mutation → State → State × Answer

namespace Transaction

variable {State View Draft Mutation Answer ρ ρ' : Type}

def map (f : ρ → ρ') : Transaction View Draft Mutation Answer ρ → Transaction View Draft Mutation Answer ρ'
  | done result => .done (f result)
  | read next => .read fun view => (next view).map f
  | write draft result => .write draft (f result)
  | mutate mutation finish => .mutate mutation fun answer => f (finish answer)

def exec (store : Store State View Draft Mutation Answer) :
    Transaction View Draft Mutation Answer ρ → State → State × ρ
  | done result, s => (s, result)
  | read next, s => (next (store.view s)).exec store s
  | write draft result, s => (store.write draft s, result)
  | mutate mutation finish, s => ((store.mutate mutation s).1, finish (store.mutate mutation s).2)

/-- Where reads see what `Reads` says, the write is as `Writes` says, and the update as `Mutates` does. -/
def Obeys (Reads : View → Prop) (Writes : Draft → Prop) (Mutates : Mutation → Prop) :
    Transaction View Draft Mutation Answer ρ → Prop
  | done _ => True
  | read next => ∀ view, Reads view → (next view).Obeys Reads Writes Mutates
  | write draft _ => Writes draft
  | mutate mutation _ => Mutates mutation

variable {Reads : View → Prop} {Writes : Draft → Prop} {Mutates : Mutation → Prop}
  {t : Transaction View Draft Mutation Answer ρ}

theorem obeys_map (f : ρ → ρ') :
    (t.map f).Obeys Reads Writes Mutates ↔ t.Obeys Reads Writes Mutates := by
  induction t with
  | done | write | mutate => rfl
  | read next ih => exact forall_congr' fun view => imp_congr_right fun _ => ih view

theorem exec_map (store : Store State View Draft Mutation Answer) (f : ρ → ρ')
    (t : Transaction View Draft Mutation Answer ρ) (s : State) :
    (t.map f).exec store s = ((t.exec store s).1, f (t.exec store s).2) := by
  induction t with
  | done | write | mutate => rfl
  | read next ih => exact ih (store.view s)

theorem exec_cases (store : Store State View Draft Mutation Answer) {s : State}
    (h : t.Obeys (· = store.view s) Writes Mutates) {motive : State → Prop} (hSame : motive s)
    (hWrite : ∀ draft, Writes draft → motive (store.write draft s))
    (hMutate : ∀ mutation, Mutates mutation → motive (store.mutate mutation s).1) : motive (t.exec store s).1 := by
  induction t with
  | done => exact hSame
  | read next ih => exact ih (store.view s) (h _ rfl)
  | write draft => exact hWrite draft h
  | mutate mutation => exact hMutate mutation h

end Transaction

structure Clients (ι State T : Type) where
  state : State
  pending : ι → Option T

namespace Clients

variable {ι State View Draft Mutation Answer ρ : Type} [DecidableEq ι]

def set {T : Type} (c : Clients ι State T) (i : ι) (t : Option T) : Clients ι State T :=
  { c with pending := fun i' => if i' = i then t else c.pending i' }

/-- Steps of the clients in any order: transactions begin as `begins` lets them, and are written on the given terms. -/
inductive Run {Env : Type u} (stores : Env → Store State View Draft Mutation Answer) (initial : State → Prop)
    (begins : State → Transaction View Draft Mutation Answer ρ → State → Prop) (terms : State → Draft → Prop) :
    Clients ι State (Transaction View Draft Mutation Answer ρ) → Prop
  | idle (s : State) (hInitial : initial s) : Run stores initial begins terms ⟨s, fun _ => none⟩
  | begin {c : Clients ι State (Transaction View Draft Mutation Answer ρ)} {s : State} (i : ι)
      (t : Transaction View Draft Mutation Answer ρ) (hRun : Run stores initial begins terms c)
      (hIdle : c.pending i = none) (hBegins : begins c.state t s) :
      Run stores initial begins terms ({ c with state := s }.set i (some t))
  | read {c : Clients ι State (Transaction View Draft Mutation Answer ρ)} (i : ι) (env : Env)
      (next : View → Transaction View Draft Mutation Answer ρ) (hRun : Run stores initial begins terms c)
      (hPending : c.pending i = some (.read next)) :
      Run stores initial begins terms (c.set i (some (next ((stores env).view c.state))))
  | write {c : Clients ι State (Transaction View Draft Mutation Answer ρ)} (i : ι) (env : Env) (draft : Draft)
      (result : ρ) (hRun : Run stores initial begins terms c) (hPending : c.pending i = some (.write draft result))
      (hTerms : terms c.state draft) :
      Run stores initial begins terms ({ c with state := (stores env).write draft c.state }.set i none)
  | mutate {c : Clients ι State (Transaction View Draft Mutation Answer ρ)} (i : ι) (env : Env) (mutation : Mutation)
      (finish : Answer → ρ) (hRun : Run stores initial begins terms c)
      (hPending : c.pending i = some (.mutate mutation finish)) :
      Run stores initial begins terms ({ c with state := ((stores env).mutate mutation c.state).1 }.set i none)
  | done {c : Clients ι State (Transaction View Draft Mutation Answer ρ)} (i : ι) (result : ρ)
      (hRun : Run stores initial begins terms c) (hPending : c.pending i = some (.done result)) :
      Run stores initial begins terms (c.set i none)

variable {Env : Type u} {stores : Env → Store State View Draft Mutation Answer} {initial : State → Prop}
  {begins : State → Transaction View Draft Mutation Answer ρ → State → Prop} {terms : State → Draft → Prop}

theorem pending_set {T : Type} {c : Clients ι State T} {i : ι} {t : Option T} {P : T → Prop}
    (h : ∀ i t, c.pending i = some t → P t) (hSet : ∀ t', t = some t' → P t') :
    ∀ i' t', (c.set i t).pending i' = some t' → P t' := by
  intro i' t' hPending
  simp only [set] at hPending
  split at hPending
  · exact hSet t' hPending
  · exact h i' t' hPending

theorem Run.invariant {Inv : State → Prop} {Writes : Draft → Prop} {Mutates : Mutation → Prop}
    (hInitial : ∀ s, initial s → Inv s)
    (hBegins : ∀ s t s', Inv s → begins s t s' → Inv s' ∧ t.Obeys (fun _ => True) Writes Mutates)
    (hWrite : ∀ env s draft, Inv s → Writes draft → terms s draft → Inv ((stores env).write draft s))
    (hMutate : ∀ env s mutation, Inv s → Mutates mutation → Inv ((stores env).mutate mutation s).1)
    {c : Clients ι State (Transaction View Draft Mutation Answer ρ)} (hRun : Run stores initial begins terms c) :
    Inv c.state := by
  suffices h : Inv c.state ∧ ∀ i t, c.pending i = some t → t.Obeys (fun _ => True) Writes Mutates from h.1
  induction hRun with
  | idle s hFirst =>
    refine ⟨hInitial s hFirst, ?_⟩
    rintro i t ⟨⟩
  | begin i t _ _ hStart ih =>
    obtain ⟨hInv, hObeys⟩ := hBegins _ _ _ ih.1 hStart
    refine ⟨hInv, pending_set ih.2 ?_⟩
    rintro t' ⟨⟩
    exact hObeys
  | read i env next _ hPending ih =>
    refine ⟨ih.1, pending_set ih.2 ?_⟩
    rintro t' ⟨⟩
    exact ih.2 i _ hPending _ trivial
  | write i env draft result _ hPending hTerms ih =>
    refine ⟨hWrite env _ _ ih.1 (ih.2 i _ hPending) hTerms, pending_set ih.2 ?_⟩
    rintro t' ⟨⟩
  | mutate i env mutation finish _ hPending ih =>
    refine ⟨hMutate env _ _ ih.1 (ih.2 i _ hPending), pending_set ih.2 ?_⟩
    rintro t' ⟨⟩
  | done i result _ _ ih =>
    refine ⟨ih.1, pending_set ih.2 ?_⟩
    rintro t' ⟨⟩

end Clients
