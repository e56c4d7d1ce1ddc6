import PrimeAgent.Lib.NamedDir

/-! # Session leases

The lease of one canonical session path at the level of its calls, each of them atomic: a guard directory around every
change, and a lease directory with the record of its owner, which is put in place and taken away by renames.
-/
namespace PrimeAgent.Lease

open NamedDir

structure LeaseOwner where
  token : Nat
  process : Nat
deriving DecidableEq

/-- A `SessionLease` that was handed out. -/
structure SessionLease where
  process : Nat
  released : Bool
deriving DecidableEq

inductive LeaseOp where
  | acquire
  | append (token : Nat)
  | release (token : Nat)
deriving DecidableEq

inductive Fault where
  | none | notFound | error
deriving DecidableEq

/-- Where an agent stands: in `with_lease_guard`, or with its own guard in one of the three actions. -/
inductive Phase where
  | idle
  | entering (op : LeaseOp)
  | contended (op : LeaseOp)
  | aged (op : LeaseOp) (guard : Dir) (time : Nat)
  | checking (op : LeaseOp) (guard : Dir)
  | stealing (op : LeaseOp) (guard : Dir)
  | placing (guard : Dir) (since tries : Nat)
  | inspecting (guard : Dir) (since tries : Nat)
  | reclaiming (guard : Dir) (since tries : Nat)
  | verifying (guard : Dir) (since token : Nat)
  | writing (guard : Dir) (since token : Nat)
  | matching (guard : Dir) (since token : Nat)
  | dropping (guard : Dir) (since token : Nat)
  | leaving (guard : Dir) (since : Nat)
  | crashed
deriving DecidableEq

namespace Phase

def owned : Phase → Option (Dir × Nat)
  | placing guard since _ => some (guard, since)
  | inspecting guard since _ => some (guard, since)
  | reclaiming guard since _ => some (guard, since)
  | verifying guard since _ => some (guard, since)
  | writing guard since _ => some (guard, since)
  | matching guard since _ => some (guard, since)
  | dropping guard since _ => some (guard, since)
  | leaving guard since => some (guard, since)
  | _ => none

def seen : Phase → Option (Dir × Nat)
  | aged _ guard time => some (guard, time)
  | _ => none

def condemned : Phase → Option Dir
  | checking _ guard => some guard
  | stealing _ guard => some guard
  | _ => none

def view (phase : Phase) : View :=
  ⟨phase.owned, phase.seen, phase.condemned⟩

def releasing : Phase → Option Nat
  | entering (.release token) => some token
  | contended (.release token) => some token
  | aged (.release token) _ _ => some token
  | checking (.release token) _ => some token
  | stealing (.release token) _ => some token
  | matching _ _ token => some token
  | dropping _ _ token => some token
  | _ => none

end Phase

/-- `home` is the process of an agent; `appended` is what the appends have written, with the owner recorded then. -/
structure LeaseState where
  guard : Option (Dir × Nat)
  now : Nat
  nextGuard : Nat
  lease : Option LeaseOwner
  nextToken : Nat
  held : Nat → Option SessionLease
  alive : Nat → Bool
  home : Nat → Nat
  phase : Nat → Phase
  appended : List (Nat × Option LeaseOwner)

def staleGuardAfter : Nat := 5000

namespace LeaseState

def initial (home : Nat → Nat) : LeaseState where
  guard := none
  now := 0
  nextGuard := 0
  lease := none
  nextToken := 0
  held _ := none
  alive _ := true
  home := home
  phase _ := .idle
  appended := []

def place (s : LeaseState) : Place :=
  ⟨s.guard, s.now, s.nextGuard⟩

def goto (s : LeaseState) (p : Nat) (phase : Phase) : LeaseState :=
  { s with phase := Function.update s.phase p phase }

/-- `owner_alive`: pids and start identities are what they say. -/
def ownerAlive (s : LeaseState) (owner : LeaseOwner) : Bool :=
  s.alive owner.process

def opened (op : LeaseOp) (guard : Dir) (since : Nat) : Phase :=
  match op with
  | .acquire => .placing guard since 3
  | .append token => .verifying guard since token
  | .release token => .matching guard since token

def again (guard : Dir) (since tries : Nat) : Phase :=
  if 1 < tries then .placing guard since (tries - 1) else .leaving guard since

def act (p : Nat) (fault : Fault) (s : LeaseState) : LeaseState :=
  match s.phase p with
  | .idle => s
  | .entering op =>
    if fault ≠ .none then s.goto p .idle
    else match s.guard with
      | none =>
        let guard : Dir := ⟨p, s.nextGuard⟩
        { s with guard := some (guard, s.now), nextGuard := s.nextGuard + 1 }.goto p (opened op guard s.now)
      | some _ => s.goto p (.contended op)
  | .contended op =>
    match s.guard with
    | some (guard, time) => if fault ≠ .none then s.goto p (.entering op) else s.goto p (.aged op guard time)
    | none => s.goto p (.entering op)
  | .aged op guard time => s.goto p (if staleGuardAfter < s.now - time then .checking op guard else .entering op)
  | .checking op guard =>
    if fault = .error then s.goto p (.entering op)
    else s.goto p (if s.lease.any s.ownerAlive then .entering op else .stealing op guard)
  | .stealing op _ => if fault ≠ .none then s.goto p (.entering op) else { s with guard := none }.goto p (.entering op)
  | .placing guard since tries =>
    match fault with
    | .error => s.goto p (.leaving guard since)
    | .notFound => s.goto p (again guard since tries)
    | .none =>
      match s.lease with
      | none =>
        { s with
          lease := some ⟨s.nextToken, s.home p⟩
          nextToken := s.nextToken + 1
          held := Function.update s.held s.nextToken (some ⟨s.home p, false⟩) }.goto p (.leaving guard since)
      | some _ => s.goto p (.inspecting guard since tries)
  | .inspecting guard since tries =>
    if fault = .error then s.goto p (.leaving guard since)
    else s.goto p (if s.lease.any s.ownerAlive then .leaving guard since else .reclaiming guard since tries)
  | .reclaiming guard since tries =>
    if fault ≠ .none then s.goto p (again guard since tries)
    else { s with lease := none }.goto p (again guard since tries)
  | .verifying guard since token =>
    if fault = .error then s.goto p (.leaving guard since)
    else if s.lease.any (·.token = token) ∧ (s.held token).any (!·.released) then s.goto p (.writing guard since token)
    else s.goto p (.leaving guard since)
  | .writing guard since token =>
    if fault ≠ .none then s.goto p (.leaving guard since)
    else { s with appended := (token, s.lease) :: s.appended }.goto p (.leaving guard since)
  | .matching guard since token =>
    if fault = .error then s.goto p (.leaving guard since)
    else s.goto p (if s.lease.any (·.token = token) then .dropping guard since token else .leaving guard since)
  | .dropping guard since _ =>
    if fault ≠ .none then s.goto p (.leaving guard since) else { s with lease := none }.goto p (.leaving guard since)
  | .leaving _ _ => if fault ≠ .none then s.goto p .idle else { s with guard := none }.goto p .idle
  | .crashed => s

def begin (p : Nat) (op : LeaseOp) (s : LeaseState) : LeaseState :=
  if s.phase p ≠ .idle then s
  else match op with
    | .acquire => s.goto p (.entering .acquire)
    | .append token => if s.held token = some ⟨s.home p, false⟩ then s.goto p (.entering (.append token)) else s
    | .release token =>
      if s.held token = some ⟨s.home p, false⟩ then
        { s with held := Function.update s.held token (some ⟨s.home p, true⟩) }.goto p (.entering (.release token))
      else s

def giveUp (p : Nat) (s : LeaseState) : LeaseState :=
  match s.phase p with
  | .contended _ => s.goto p .idle
  | _ => s

def crash (process : Nat) (s : LeaseState) : LeaseState :=
  { s with
    alive := Function.update s.alive process false
    phase := fun p => if s.home p = process then .crashed else s.phase p }

end LeaseState

inductive LeaseStep where
  | act (p : Nat) (fault : Fault)
  | begin (p : Nat) (op : LeaseOp)
  | giveUp (p : Nat)
  | crash (process : Nat)
  | tick (elapsed : Nat)
deriving DecidableEq

namespace LeaseState

def step (s : LeaseState) : LeaseStep → LeaseState
  | .act p fault => s.act p fault
  | .begin p op => s.begin p op
  | .giveUp p => s.giveUp p
  | .crash process => s.crash process
  | .tick elapsed => { s with now := s.now + elapsed }

def Punctual (s : LeaseState) : LeaseStep → Prop
  | .tick elapsed => ∀ p guard since, (s.phase p).owned = some (guard, since) → s.now + elapsed ≤ since + staleGuardAfter
  | _ => True

def Aimed (s : LeaseState) : LeaseStep → Prop
  | .act p _ =>
    match s.phase p with
    | .stealing _ guard => ∀ guard' time, s.guard = some (guard', time) → guard' = guard
    | _ => True
  | _ => True

end LeaseState

/-- The states of the runs whose guarded actions are punctual and whose steals are aimed. -/
inductive Reached (home : Nat → Nat) : LeaseState → Prop where
  | initial : Reached home (.initial home)
  | step {s : LeaseState} (step : LeaseStep) (hBefore : Reached home s) (hPunctual : s.Punctual step)
      (hAimed : s.Aimed step) : Reached home (s.step step)

end PrimeAgent.Lease

/-! ## The lease and its guard

Under one guard at a time, a live lease that was not released is the recorded one, and what an agent has read of the
record still holds when it acts on it.
-/
namespace PrimeAgent.Lease

open NamedDir LeaseState

variable {s : LeaseState} {p q : Nat} {phase : Phase} {token : Nat} {guard : Dir} {since time : Nat}

def LeaseState.Owning (s : LeaseState) (token : Nat) : Prop :=
  ∃ process, s.held token = some ⟨process, false⟩ ∧ s.alive process = true

def LeaseState.Released (s : LeaseState) (token : Nat) : Prop :=
  ∃ process, s.held token = some ⟨process, true⟩

def Reads (s : LeaseState) : Phase → Prop
  | .reclaiming _ _ _ => ∀ owner, s.lease = some owner → s.alive owner.process = false
  | .writing _ _ token => ∃ process, s.lease = some ⟨token, process⟩
  | .dropping _ _ token => ∃ process, s.lease = some ⟨token, process⟩
  | _ => True

structure Inv (s : LeaseState) : Prop where
  guard : NamedDir.Inv staleGuardAfter s.place fun p => (s.phase p).view
  recorded : ∀ token process, s.held token = some ⟨process, false⟩ → s.alive process = true →
    s.lease = some ⟨token, process⟩
  tokens : ∀ token, s.nextToken ≤ token → s.held token = none
  reads : ∀ p, Reads s (s.phase p)
  releasing : ∀ p token, (s.phase p).releasing = some token → s.Released token
  appended : ∀ write ∈ s.appended, write.2.map (·.token) = some write.1
  crashed : ∀ p, s.alive (s.home p) = false → s.phase p = .crashed

theorem inv_initial (home : Nat → Nat) : Inv (.initial home) := by
  constructor
  · exact inv_start 0 0
  · intro token process hHeld
    cases hHeld
  · exact fun token _ => rfl
  · exact fun p => trivial
  · intro p token hReleasing
    cases hReleasing
  · intro write hMem
    cases hMem
  · intro p hDead
    cases hDead

theorem view_goto (s : LeaseState) (p : Nat) (phase : Phase) :
    (fun q => ((s.goto p phase).phase q).view) = Function.update (fun q => (s.phase q).view) p phase.view := by
  funext q
  by_cases hSame : q = p
  · subst hSame
    rw [Function.update_self]
    exact congrArg Phase.view (Function.update_self ..)
  · rw [Function.update_of_ne hSame]
    exact congrArg Phase.view (Function.update_of_ne hSame ..)

theorem reads_owned (hPhase : phase.owned = none) : Reads s phase := by
  cases phase with
  | reclaiming | writing | dropping => cases hPhase
  | _ => trivial

structure Move (s : LeaseState) (p : Nat) (phase : Phase) (s' : LeaseState) : Prop where
  guard : NamedDir.Inv staleGuardAfter s'.place (Function.update (fun q => (s.phase q).view) p phase.view)
  recorded : ∀ token process, s'.held token = some ⟨process, false⟩ → s'.alive process = true →
    s'.lease = some ⟨token, process⟩
  tokens : ∀ token, s'.nextToken ≤ token → s'.held token = none
  lease : s'.lease = s.lease ∨ ∃ guard since, (s.phase p).owned = some (guard, since)
  reads : Reads s' phase
  kept : ∀ token, s.Released token → s'.Released token
  releasing : ∀ token, phase.releasing = some token → s'.Released token
  appended : ∀ write ∈ s'.appended, write.2.map (·.token) = some write.1
  alive : s'.alive = s.alive
  home : s'.home = s.home
  phases : s'.phase = s.phase
  moves : s.phase p ≠ .crashed

theorem Inv.move (i : Inv s) {s' : LeaseState} (m : Move s p phase s') : Inv (s'.goto p phase) := by
  have hHere : (s'.goto p phase).phase p = phase := Function.update_self ..
  have hThere : ∀ q, q ≠ p → (s'.goto p phase).phase q = s.phase q := by
    intro q hNe
    rw [← m.phases]
    exact Function.update_of_ne hNe ..
  constructor
  · have hView := view_goto s' p phase
    rw [m.phases] at hView
    rw [hView]
    exact m.guard
  · exact m.recorded
  · exact m.tokens
  · intro q
    by_cases hSame : q = p
    · subst hSame
      rw [hHere]
      exact m.reads
    · rw [hThere q hSame]
      obtain hLease | ⟨guard, since, hOwned⟩ := m.lease
      · have hReads := i.reads q
        revert hReads
        cases s.phase q with
        | reclaiming guard since tries =>
          intro hDead owner hOwner
          rw [show (s'.goto p phase).lease = s.lease from hLease] at hOwner
          show s'.alive owner.process = false
          rw [m.alive]
          exact hDead owner hOwner
        | writing guard since token | dropping guard since token =>
          rintro ⟨process, hOwner⟩
          exact ⟨process, hLease.trans hOwner⟩
        | _ => exact fun _ => trivial
      · refine reads_owned ?_
        cases hOther : (s.phase q).owned with
        | none => rfl
        | some other =>
          exact absurd (@NamedDir.Inv.alone _ _ _ _ _ _ _ _ _ i.guard hOther hOwned) hSame
  · intro q token hReleasing
    by_cases hSame : q = p
    · subst hSame
      rw [hHere] at hReleasing
      exact m.releasing token hReleasing
    · rw [hThere q hSame] at hReleasing
      exact m.kept token (i.releasing q token hReleasing)
  · exact m.appended
  · intro q hDead
    have hCrashed := i.crashed q (by rw [← m.alive, ← m.home]; exact hDead)
    by_cases hSame : q = p
    · subst hSame
      exact absurd hCrashed m.moves
    · rw [hThere q hSame]
      exact hCrashed

theorem Inv.step (i : Inv s) {guard : Option (Dir × Nat)} {nextGuard : Nat}
    (hGuard : NamedDir.Inv staleGuardAfter ⟨guard, s.now, nextGuard⟩
      (Function.update (fun q => (s.phase q).view) p phase.view))
    (hReads : Reads s phase) (hReleasing : ∀ token, phase.releasing = some token → s.Released token)
    (hMoves : s.phase p ≠ .crashed) : Inv ({ s with guard := guard, nextGuard := nextGuard }.goto p phase) := by
  refine @Inv.move s p phase i _ ⟨hGuard, i.recorded, i.tokens, .inl rfl, ?_, fun _ hKept => hKept, hReleasing, i.appended,
    rfl, rfl, rfl, hMoves⟩
  cases phase with
  | reclaiming | writing | dropping => exact hReads
  | _ => trivial

theorem Inv.look (i : Inv s) (hOwned : ∀ dir since, phase.owned = some (dir, since) →
      (s.phase p).owned = some (dir, since))
    (hSeen : ∀ dir time, phase.seen = some (dir, time) → s.guard = some (dir, time))
    (hCondemned : ∀ dir, phase.condemned = some dir → (s.phase p).condemned = some dir ∨
      ∃ time, (s.phase p).seen = some (dir, time) ∧ staleGuardAfter < s.now - time)
    (hReads : Reads s phase) (hReleasing : ∀ token, phase.releasing = some token → s.Released token)
    (hMoves : s.phase p ≠ .crashed) : Inv (s.goto p phase) :=
  i.step (i.guard.look hOwned hSeen hCondemned) hReads hReleasing hMoves

end PrimeAgent.Lease
