import PrimeAgent.Session.Timestamp

/-! # The mutation queue of a file

A registry has a fair mutex for each file that is being changed. A call finds the mutex by a name of its file, runs while
it holds it, and takes the entry out of the registry when nobody else has a handle on it; a call can be cancelled while it
waits and while it runs.
-/
namespace PrimeAgent.MutationQueue

/-- The file system when a call starts. `location` is where a path leads, through links and dot segments, whether or not
there is a file; a path that can be canonicalized has it as its canonical form. -/
structure FileSystem where
  absolute : Text → Option Text
  canonicalize : Text → Option Text
  location : Text → Text
  canonicalize_eq : ∀ path real, canonicalize path = some real → real = location path

def resolvedPath (fs : FileSystem) (filePath : Text) : Text :=
  (fs.absolute filePath).getD filePath

def getMutationQueueKey (fs : FileSystem) (filePath : Text) : Text :=
  let resolved := resolvedPath fs filePath
  match fs.canonicalize resolved with
  | some real => real
  | none => resolved

structure Call where
  key : Text
  /-- Where the path leads. -/
  file : Text
  /-- The resolved path as it is spelled. -/
  spelled : Text
  /-- The file is there when the call starts. -/
  found : Bool

def Call.start (fs : FileSystem) (filePath : Text) : Call where
  key := getMutationQueueKey fs filePath
  file := fs.location (resolvedPath fs filePath)
  spelled := resolvedPath fs filePath
  found := (fs.canonicalize (resolvedPath fs filePath)).isSome

def Call.name (call : Call) : Text :=
  if call.found then call.file else call.spelled

/-- How far a call has come; `queue` is the mutex it has a handle on. -/
inductive Phase where
  | keyed
  | registered (queue : Nat)
  | waiting (queue arrival : Nat)
  | running (queue : Nat)
  | released (queue : Nat)
  | dropped

def Phase.handle : Phase → Option Nat
  | .keyed | .dropped => none
  | .registered queue | .waiting queue _ | .running queue | .released queue => some queue

/-- `calls` are the calls in progress, the one that moved last at the end. -/
structure State where
  registry : Text → Option Nat
  nextQueue : Nat
  clock : Nat
  calls : List (Call × Phase)

def State.new : State :=
  ⟨fun _ => none, 0, 0, []⟩

/-- `Arc::strong_count` of the queue of an entry: the registry's own handle and those of the calls. -/
def State.strongCount (s : State) (queue : Nat) : Nat :=
  1 + s.calls.countP (·.2.handle = some queue)

inductive Action where
  | start (call : Call)
  | acquire (call : Call) (arrival : Nat)
  | cancel
  | other

inductive Step (s : State) : Action → State → Prop where
  | start (fs : FileSystem) (filePath : Text) :
    Step s (.start (.start fs filePath)) { s with calls := s.calls ++ [(.start fs filePath, .keyed)] }
  | find {before after : List (Call × Phase)} {call : Call} {queue : Nat}
      (hCalls : s.calls = before ++ (call, .keyed) :: after) (hEntry : s.registry call.key = some queue) :
    Step s .other { s with calls := before ++ after ++ [(call, .registered queue)] }
  | enter {before after : List (Call × Phase)} {call : Call}
      (hCalls : s.calls = before ++ (call, .keyed) :: after) (hEntry : s.registry call.key = none) :
    Step s .other { s with
      registry := Function.update s.registry call.key (some s.nextQueue)
      nextQueue := s.nextQueue + 1
      calls := before ++ after ++ [(call, .registered s.nextQueue)] }
  | arrive {before after : List (Call × Phase)} {call : Call} {queue : Nat}
      (hCalls : s.calls = before ++ (call, .registered queue) :: after) :
    Step s .other { s with clock := s.clock + 1, calls := before ++ after ++ [(call, .waiting queue s.clock)] }
  -- the mutex is free, and nobody on it has waited longer
  | acquire {before after : List (Call × Phase)} {call : Call} {queue arrival : Nat}
      (hCalls : s.calls = before ++ (call, .waiting queue arrival) :: after)
      (hFree : ∀ other, (other, .running queue) ∉ s.calls)
      (hFirst : ∀ other arrival, (other, .waiting queue arrival) ∉ before) :
    Step s (.acquire call arrival) { s with calls := before ++ after ++ [(call, .running queue)] }
  | finish {before after : List (Call × Phase)} {call : Call} {queue : Nat}
      (hCalls : s.calls = before ++ (call, .running queue) :: after) :
    Step s .other { s with calls := before ++ after ++ [(call, .released queue)] }
  | drop {before after : List (Call × Phase)} {call : Call} {queue : Nat}
      (hCalls : s.calls = before ++ (call, .released queue) :: after) :
    Step s .other { s with calls := before ++ after ++ [(call, .dropped)] }
  | remove {before after : List (Call × Phase)} {call : Call} {queue : Nat}
      (hCalls : s.calls = before ++ (call, .dropped) :: after) (hEntry : s.registry call.key = some queue)
      (hLast : s.strongCount queue = 1) :
    Step s .other { s with registry := Function.update s.registry call.key none, calls := before ++ after }
  | leave {before after : List (Call × Phase)} {call : Call} (hCalls : s.calls = before ++ (call, .dropped) :: after)
      (hStays : ∀ queue, s.registry call.key = some queue → s.strongCount queue ≠ 1) :
    Step s .other { s with calls := before ++ after }
  -- the future is dropped at one of its two awaits, with the guard and the handle it has
  | cancel {before after : List (Call × Phase)} {call : Call} {phase : Phase}
      (hCalls : s.calls = before ++ (call, phase) :: after)
      (hAwaits : (∃ queue arrival, phase = .waiting queue arrival) ∨ ∃ queue, phase = .running queue) :
    Step s .cancel { s with calls := before ++ after }

inductive Run (allowed : State → Action → Prop) : State → Prop where
  | new : Run allowed .new
  | step {s s' : State} {action : Action} (hRun : Run allowed s) (hAllowed : allowed s action)
      (hStep : Step s action s') : Run allowed s'

variable {s s' : State} {action : Action} {before after calls : List (Call × Phase)} {call other : Call} {phase : Phase}
  {queue arrival : Nat} {key : Text} {allowed : State → Action → Prop}

/-- The handles of the calls are on the entries of the registry, a mutex has one holder, and its waiters stand in the
order in which they came. -/
structure Held (s : State) : Prop where
  entry : ∀ call phase queue, (call, phase) ∈ s.calls → phase.handle = some queue → s.registry call.key = some queue
  old : ∀ key queue, s.registry key = some queue → queue < s.nextQueue
  apart : ∀ key key' queue, s.registry key = some queue → s.registry key' = some queue → key = key'
  one : s.calls.Pairwise fun x y => ∀ queue, x.2 = .running queue → y.2 ≠ .running queue
  past : ∀ call queue arrival, (call, .waiting queue arrival) ∈ s.calls → arrival < s.clock
  sorted : s.calls.Pairwise fun x y => ∀ queue arrival queue' arrival', x.2 = .waiting queue arrival →
    y.2 = .waiting queue' arrival' → arrival < arrival'

namespace Held

theorem new : Held .new where
  entry := by simp [State.new]
  old := by simp [State.new]
  apart := by simp [State.new]
  one := .nil
  past := by simp [State.new]
  sorted := .nil

theorem sublist (h : Held s) (hSub : calls.Sublist s.calls) : Held { s with calls := calls } where
  entry call phase queue hMem := h.entry call phase queue (hSub.subset hMem)
  old := h.old
  apart := h.apart
  one := h.one.sublist hSub
  past call queue arrival hMem := h.past call queue arrival (hSub.subset hMem)
  sorted := h.sorted.sublist hSub

theorem append (h : Held s) (hEntry : ∀ queue, phase.handle = some queue → s.registry call.key = some queue)
    (hRuns : ∀ queue, phase = .running queue → ∀ other, (other, .running queue) ∉ s.calls)
    (hWaits : ∀ queue arrival, phase = .waiting queue arrival → arrival < s.clock ∧
      ∀ other queue' arrival', (other, .waiting queue' arrival') ∈ s.calls → arrival' < arrival) :
    Held { s with calls := s.calls ++ [(call, phase)] } where
  entry call' phase' queue hMem hHandle := by
    obtain hOld | hNew := List.mem_append.mp hMem
    · exact h.entry call' phase' queue hOld hHandle
    · obtain ⟨rfl, rfl⟩ := Prod.mk.inj (List.mem_singleton.mp hNew)
      exact hEntry queue hHandle
  old := h.old
  apart := h.apart
  one := by
    refine List.pairwise_append.mpr ⟨h.one, List.pairwise_singleton _ _, fun x hX y hY queue hRunX hRunY => ?_⟩
    obtain rfl := List.mem_singleton.mp hY
    exact hRuns queue hRunY x.1 (hRunX ▸ hX)
  past call' queue arrival hMem := by
    obtain hOld | hNew := List.mem_append.mp hMem
    · exact h.past call' queue arrival hOld
    · exact (hWaits queue arrival (Prod.mk.inj (List.mem_singleton.mp hNew)).2.symm).1
  sorted := by
    refine List.pairwise_append.mpr ⟨h.sorted, List.pairwise_singleton _ _, fun x hX y hY => ?_⟩
    obtain rfl := List.mem_singleton.mp hY
    intro queue arrival queue' arrival' hWaitX hWaitY
    exact (hWaits queue' arrival' hWaitY).2 x.1 queue arrival (hWaitX ▸ hX)

theorem append_idle (h : Held s) (hIdle : ∀ queue arrival, phase ≠ .running queue ∧ phase ≠ .waiting queue arrival)
    (hEntry : ∀ queue, phase.handle = some queue → s.registry call.key = some queue) :
    Held { s with calls := s.calls ++ [(call, phase)] } :=
  h.append hEntry (fun queue hRun => absurd hRun (hIdle queue 0).1) fun queue arrival hWait =>
    absurd hWait (hIdle queue arrival).2

theorem tick (h : Held s) : Held { s with clock := s.clock + 1 } :=
  { h with past := fun call queue arrival hMem => Nat.lt_succ_of_lt (h.past call queue arrival hMem) }

theorem register (h : Held s) (hNone : s.registry key = none) : Held { s with
    registry := Function.update s.registry key (some s.nextQueue)
    nextQueue := s.nextQueue + 1 } := by
  have hKey : ∀ key' queue, Function.update s.registry key (some s.nextQueue) key' = some queue →
      key' = key ∧ queue = s.nextQueue ∨ s.registry key' = some queue := fun key' queue hEntry => by
    rcases eq_or_ne key' key with rfl | hNe
    · rw [Function.update_self] at hEntry
      exact Or.inl ⟨rfl, (Option.some.inj hEntry).symm⟩
    · rw [Function.update_of_ne hNe] at hEntry
      exact Or.inr hEntry
  refine { h with entry := fun call phase queue hMem hHandle => ?_, old := fun key' queue hEntry => ?_,
                  apart := fun key' key'' queue hEntry hEntry' => ?_ }
  · have hOld := h.entry call phase queue hMem hHandle
    show Function.update s.registry key (some s.nextQueue) call.key = some queue
    rwa [Function.update_of_ne]
    rintro rfl
    rw [hNone] at hOld
    cases hOld
  · obtain ⟨-, rfl⟩ | hOld := hKey key' queue hEntry
    · exact Nat.lt_succ_self _
    · exact Nat.lt_succ_of_lt (h.old key' queue hOld)
  · obtain ⟨rfl, rfl⟩ | hOld := hKey key' queue hEntry <;> obtain ⟨rfl, hQueue⟩ | hOld' := hKey key'' _ hEntry'
    · rfl
    · exact absurd (h.old key'' _ hOld') (Nat.lt_irrefl _)
    · rw [hQueue] at hOld
      exact absurd (h.old key' _ hOld) (Nat.lt_irrefl _)
    · exact h.apart key' key'' queue hOld hOld'

theorem unregister (h : Held s) (hNobody : ∀ call phase queue, (call, phase) ∈ s.calls → phase.handle = some queue →
    call.key ≠ key) : Held { s with registry := Function.update s.registry key none } := by
  have hKey : ∀ key' queue, Function.update s.registry key none key' = some queue → s.registry key' = some queue :=
    fun key' queue hEntry => by
      rcases eq_or_ne key' key with rfl | hNe
      · rw [Function.update_self] at hEntry
        cases hEntry
      · rwa [Function.update_of_ne hNe] at hEntry
  refine { h with entry := fun call phase queue hMem hHandle => ?_, old := fun key' queue hEntry =>
                    h.old key' queue (hKey key' queue hEntry),
                  apart := fun key' key'' queue hEntry hEntry' =>
                    h.apart key' key'' queue (hKey _ _ hEntry) (hKey _ _ hEntry') }
  show Function.update s.registry key none call.key = some queue
  rw [Function.update_of_ne (hNobody call phase queue hMem hHandle)]
  exact h.entry call phase queue hMem hHandle

theorem holders (h : Held s) (hEntry : s.registry key = some queue) :
    s.strongCount queue = 1 ↔ ∀ call phase queue, (call, phase) ∈ s.calls → phase.handle = some queue →
      call.key ≠ key := by
  rw [State.strongCount, Nat.add_eq_left, List.countP_eq_zero]
  simp only [decide_eq_true_eq]
  constructor
  · rintro hNobody call phase queue' hMem hHandle rfl
    have hSame := h.entry call phase queue' hMem hHandle
    rw [hEntry] at hSame
    exact hNobody (call, phase) hMem (hHandle.trans hSame.symm)
  · rintro hNobody ⟨call, phase⟩ hMem hHandle
    exact hNobody call phase queue hMem hHandle (h.apart _ _ queue (h.entry call phase queue hMem hHandle) hEntry)

end Held

theorem taken_sublist (hCalls : s.calls = before ++ (call, phase) :: after) : (before ++ after).Sublist s.calls := by
  rw [hCalls]
  exact (List.Sublist.refl before).append (List.sublist_cons_self _ after)

theorem mem_taken (hCalls : s.calls = before ++ (call, phase) :: after) : (call, phase) ∈ s.calls := by
  simp [hCalls]

theorem held_step (h : Held s) (hStep : Step s action s') : Held s' := by
  cases hStep with
  | start fs filePath => exact h.append_idle (by simp) (by simp [Phase.handle])
  | find hCalls hEntry =>
    refine (h.sublist (taken_sublist hCalls)).append_idle (by simp) fun _ hHandle => ?_
    obtain rfl := Option.some.inj hHandle
    exact hEntry
  | enter hCalls hEntry =>
    refine ((h.sublist (taken_sublist hCalls)).register hEntry).append_idle (by simp) fun _ hHandle => ?_
    obtain rfl := Option.some.inj hHandle
    exact Function.update_self ..
  | arrive hCalls =>
    have hSub := taken_sublist hCalls
    refine (h.sublist hSub).tick.append (fun _ hHandle => h.entry _ _ _ (mem_taken hCalls) hHandle) (by simp)
      fun _ _ hWait => ?_
    obtain ⟨rfl, rfl⟩ := Phase.waiting.inj hWait
    exact ⟨Nat.lt_succ_self _, fun other queue' arrival' hMem => h.past other queue' arrival' (hSub.subset hMem)⟩
  | acquire hCalls hFree hFirst =>
    have hSub := taken_sublist hCalls
    refine (h.sublist hSub).append (fun _ hHandle => h.entry _ _ _ (mem_taken hCalls) hHandle)
      (fun _ hRun other hMem => ?_) (by simp)
    obtain rfl := Phase.running.inj hRun
    exact hFree other (hSub.subset hMem)
  | finish hCalls =>
    refine (h.sublist (taken_sublist hCalls)).append_idle (by simp) fun _ hHandle => ?_
    exact h.entry _ _ _ (mem_taken hCalls) hHandle
  | drop hCalls => exact (h.sublist (taken_sublist hCalls)).append_idle (by simp) (by simp [Phase.handle])
  | remove hCalls hEntry hLast =>
    have hSub := taken_sublist hCalls
    refine (h.sublist hSub).unregister fun call phase queue hMem => ?_
    exact (h.holders hEntry).mp hLast call phase queue (hSub.subset hMem)
  | leave hCalls _ | cancel hCalls _ => exact h.sublist (taken_sublist hCalls)

theorem Run.held (hRun : Run allowed s) : Held s := by
  induction hRun with
  | new => exact .new
  | step _ _ hStep ih => exact held_step ih hStep

/-! ## One file at a time -/

theorem mem_step (hStep : Step s action s') (hMem : (call, phase) ∈ s'.calls) :
    (∃ phase, (call, phase) ∈ s.calls) ∨ action = .start call := by
  have hMoved : ∀ {before after : List (Call × Phase)} {moved : Call} {phase' next : Phase},
      s.calls = before ++ (moved, phase') :: after → (call, phase) ∈ before ++ after ++ [(moved, next)] →
        ∃ phase, (call, phase) ∈ s.calls := fun hCalls hIn => by
    obtain hOld | hNew := List.mem_append.mp hIn
    · exact ⟨phase, (taken_sublist hCalls).subset hOld⟩
    · obtain ⟨rfl, rfl⟩ := Prod.mk.inj (List.mem_singleton.mp hNew)
      exact ⟨_, mem_taken hCalls⟩
  cases hStep with
  | start fs filePath =>
    obtain hOld | hNew := List.mem_append.mp hMem
    · exact Or.inl ⟨phase, hOld⟩
    · rw [(Prod.mk.inj (List.mem_singleton.mp hNew)).1]
      exact Or.inr rfl
  | find hCalls _ | enter hCalls _ | arrive hCalls | acquire hCalls _ _ | finish hCalls | drop hCalls =>
    exact Or.inl (hMoved hCalls hMem)
  | remove hCalls _ _ | leave hCalls _ | cancel hCalls _ =>
    exact Or.inl ⟨phase, (taken_sublist hCalls).subset hMem⟩

theorem key_start (fs : FileSystem) (filePath : Text) : (Call.start fs filePath).key = (Call.start fs filePath).name := by
  simp only [Call.start, Call.name, getMutationQueueKey]
  split
  next real hReal => simpa [hReal] using fs.canonicalize_eq _ _ hReal
  next hNone => simp [hNone]

theorem Run.key_eq (hRun : Run allowed s) (hMem : (call, phase) ∈ s.calls) : call.key = call.name := by
  induction hRun generalizing phase with
  | new => cases hMem
  | step _ _ hStep ih =>
    obtain ⟨phase', hOld⟩ | rfl := mem_step hStep hMem
    · exact ih hOld
    · cases hStep
      exact key_start _ _

def StartsAlike (s : State) (action : Action) : Prop :=
  ∀ call, action = .start call → ∀ other phase, (other, phase) ∈ s.calls → other.file = call.file → other.name = call.name

theorem Run.name_eq {phase' : Phase} (hRun : Run StartsAlike s) (hMem : (call, phase) ∈ s.calls)
    (hOther : (other, phase') ∈ s.calls) (hFile : other.file = call.file) : other.name = call.name := by
  induction hRun generalizing call other phase phase' with
  | new => cases hMem
  | step _ hAlike hStep ih =>
    obtain ⟨phase, hOld⟩ | rfl := mem_step hStep hMem <;> obtain ⟨phase', hOld'⟩ | hStart := mem_step hStep hOther
    · exact ih hOld hOld' hFile
    · exact (hAlike other hStart call phase hOld hFile.symm).symm
    · exact hAlike call rfl other phase' hOld' hFile
    · rw [Action.start.inj hStart]

def Phase.Runs (phase : Phase) : Prop :=
  ∃ queue, phase = .running queue

/-- Calls with one label run one at a time, and the one that has waited longest runs next. -/
structure InTurn (label : Call → Text) (s : State) : Prop where
  apart : s.calls.Pairwise fun x y => x.2.Runs → y.2.Runs → label x.1 ≠ label y.1
  next : ∀ call arrival s', Step s (.acquire call arrival) s' → ∀ other queue arrival',
    (other, .waiting queue arrival') ∈ s.calls → label other = label call → arrival ≤ arrival'

theorem Held.inTurn (h : Held s) {label : Call → Text} (hLabel : ∀ call phase other phase', (call, phase) ∈ s.calls →
    (other, phase') ∈ s.calls → label other = label call → other.key = call.key) : InTurn label s where
  apart := by
    refine h.one.imp_of_mem fun {x y} hX hY hOne hRunX hRunY hSame => ?_
    obtain ⟨queue, hRunX⟩ := hRunX
    obtain ⟨queue', hRunY⟩ := hRunY
    have hEntry := h.entry x.1 x.2 queue hX (by rw [hRunX]; rfl)
    have hEntry' := h.entry y.1 y.2 queue' hY (by rw [hRunY]; rfl)
    rw [hLabel y.1 y.2 x.1 x.2 hY hX hSame, hEntry'] at hEntry
    rw [Option.some.inj hEntry] at hRunY
    exact hOne queue hRunX hRunY
  next call arrival s' hStep other queue' arrival' hOther hSame := by
    cases hStep with
    | @acquire before after _ queue _ hCalls hFree hFirst =>
      have hEntry := h.entry other _ queue' hOther rfl
      rw [hLabel call _ other _ (mem_taken hCalls) hOther hSame, h.entry call _ queue (mem_taken hCalls) rfl] at hEntry
      obtain rfl := Option.some.inj hEntry
      have hSorted := h.sorted
      rw [hCalls] at hOther hSorted
      obtain hBefore | hRest := List.mem_append.mp hOther
      · exact absurd hBefore (hFirst other arrival')
      · obtain hSelf | hAfter := List.mem_cons.mp hRest
        · exact (Phase.waiting.inj (Prod.mk.inj hSelf).2).2.ge
        · exact (List.rel_of_pairwise_cons (List.pairwise_append.mp hSorted).2.1 hAfter _ _ _ _ rfl rfl).le

/-! ## The registry is emptied -/

def NoCancel (_ : State) (action : Action) : Prop :=
  action ≠ .cancel

def Attended (s : State) : Prop :=
  ∀ key queue, s.registry key = some queue → ∃ call phase, (call, phase) ∈ s.calls ∧ call.key = key ∧ phase ≠ .keyed

theorem Attended.move (h : Attended s) (hCalls : s.calls = before ++ (call, phase) :: after) {next : Phase}
    (hNext : next ≠ .keyed) (hEntry : s.registry key = some queue) :
    ∃ other phase, (other, phase) ∈ before ++ after ++ [(call, next)] ∧ other.key = key ∧ phase ≠ .keyed := by
  obtain ⟨other, phase', hMem, hKey, hMoved⟩ := h key queue hEntry
  rw [hCalls] at hMem
  obtain hBefore | hRest := List.mem_append.mp hMem
  · exact ⟨other, phase', by simp [hBefore], hKey, hMoved⟩
  · obtain hSelf | hAfter := List.mem_cons.mp hRest
    · obtain ⟨rfl, -⟩ := Prod.mk.inj hSelf
      exact ⟨other, next, by simp, hKey, hNext⟩
    · exact ⟨other, phase', by simp [hAfter], hKey, hMoved⟩

theorem mem_rest (hCalls : s.calls = before ++ (call, .dropped) :: after) (hMem : (other, phase) ∈ s.calls)
    (hApart : other.key ≠ call.key ∨ phase ≠ .dropped) : (other, phase) ∈ before ++ after := by
  rw [hCalls, List.mem_append, List.mem_cons] at hMem
  obtain hBefore | hSelf | hAfter := hMem
  · exact List.mem_append_left _ hBefore
  · obtain ⟨rfl, rfl⟩ := Prod.mk.inj hSelf
    simp at hApart
  · exact List.mem_append_right _ hAfter

theorem attended_step (hHeld : Held s) (h : Attended s) (hStep : Step s action s') (hKept : action ≠ .cancel) :
    Attended s' := by
  cases hStep with
  | start fs filePath =>
    intro key queue hEntry
    obtain ⟨call, phase, hMem, hKey, hPhase⟩ := h key queue hEntry
    exact ⟨call, phase, List.mem_append_left _ hMem, hKey, hPhase⟩
  | find hCalls _ | arrive hCalls | acquire hCalls _ _ | finish hCalls | drop hCalls =>
    exact fun key queue hEntry => h.move hCalls (by simp) hEntry
  | @enter before after call hCalls hNone =>
    intro key queue hEntry
    rcases eq_or_ne key call.key with rfl | hNe
    · exact ⟨call, _, List.mem_append_right _ (List.mem_singleton.mpr rfl), rfl, by simp⟩
    · exact h.move hCalls (by simp) ((Function.update_of_ne hNe _ _).symm.trans hEntry)
  | @remove before after call _ hCalls _ _ =>
    intro key queue hEntry
    rcases eq_or_ne key call.key with rfl | hNe
    · exact absurd ((Function.update_self ..).symm.trans hEntry) (by simp)
    · obtain ⟨other, phase, hMem, hKey, hPhase⟩ := h key queue ((Function.update_of_ne hNe _ _).symm.trans hEntry)
      exact ⟨other, phase, mem_rest hCalls hMem (Or.inl (hKey ▸ hNe)), hKey, hPhase⟩
  | @leave before after call hCalls hStays =>
    intro key queue hEntry
    rcases eq_or_ne key call.key with rfl | hNe
    · have hOthers := mt (hHeld.holders hEntry).mpr (hStays queue hEntry)
      simp only [not_forall, not_not] at hOthers
      obtain ⟨other, phase, queue', hMem, hHandle, hKey⟩ := hOthers
      refine ⟨other, phase, mem_rest hCalls hMem (Or.inr ?_), hKey, ?_⟩ <;> rintro rfl <;> cases hHandle
    · obtain ⟨other, phase, hMem, hKey, hPhase⟩ := h key queue hEntry
      exact ⟨other, phase, mem_rest hCalls hMem (Or.inl (hKey ▸ hNe)), hKey, hPhase⟩
  | cancel => exact absurd rfl hKept

theorem Run.attended (hRun : Run NoCancel s) : Attended s := by
  induction hRun with
  | new => exact fun key queue hEntry => by cases hEntry
  | step hRun hKept hStep ih => exact attended_step hRun.held ih hStep hKept

theorem mutation_queue_runs (s : State) :
    (Run StartsAlike s → InTurn Call.file s) ∧
    (Run NoCancel s → s.calls = [] → ∀ key, s.registry key = none) ∧
    ∀ allowed, Run allowed s → InTurn Call.key s := by
  refine ⟨fun hRun => hRun.held.inTurn fun call phase other phase' hMem hOther hFile => ?_,
    fun hRun hDone key => ?_, fun allowed hRun => hRun.held.inTurn fun _ _ _ _ _ _ hKey => hKey⟩
  · rw [hRun.key_eq hMem, hRun.key_eq hOther]
    exact hRun.name_eq hMem hOther hFile
  · refine Option.eq_none_iff_forall_not_mem.mpr fun queue hEntry => ?_
    obtain ⟨call, phase, hMem, -⟩ := hRun.attended key queue hEntry
    rw [hDone] at hMem
    cases hMem

def linkedDir (there : Bool) : FileSystem where
  absolute := some
  canonicalize path := if there then some (if path = "/link/f".toList then "/d/f".toList else path) else none
  location path := if path = "/link/f".toList then "/d/f".toList else path
  canonicalize_eq path real hReal := by
    cases there with
    | false => cases hReal
    | true => exact (Option.some.inj hReal).symm

theorem Run.start_running (hRun : Run (fun _ _ => True) s) (fs : FileSystem) (filePath : Text)
    (hNone : s.registry (Call.start fs filePath).key = none) :
    ∃ s', Run (fun _ _ => True) s' ∧ s'.calls = s.calls ++ [(Call.start fs filePath, .running s.nextQueue)] ∧
      s'.registry = Function.update s.registry (Call.start fs filePath).key (some s.nextQueue) := by
  have hNew : ∀ call phase, phase.handle = some s.nextQueue → (call, phase) ∉ s.calls := fun call phase hHandle hMem =>
    absurd (hRun.held.old _ _ (hRun.held.entry call phase _ hMem hHandle)) (Nat.lt_irrefl _)
  have hKeyed := hRun.step trivial (.start fs filePath)
  have hEntered := hKeyed.step trivial (@Step.enter _ s.calls [] _ rfl hNone)
  have hArrived := hEntered.step trivial (@Step.arrive _ (s.calls ++ []) [] _ _ rfl)
  refine ⟨_, hArrived.step trivial (@Step.acquire _ (s.calls ++ [] ++ []) [] _ _ _ rfl (fun other hMem => ?_) ?_),
    by simp, rfl⟩
  · simp only [List.append_nil, List.mem_append, List.mem_singleton, Prod.mk.injEq, reduceCtorEq, and_false, or_false] at hMem
    exact hNew other _ rfl hMem
  · simp only [List.append_nil]
    exact fun other arrival => hNew other _ rfl

theorem cancelled_entry_stays_and_calls_overlap :
    (∃ s, Run (fun _ _ => True) s ∧ s.calls = [] ∧ s.registry "/link/f".toList ≠ none) ∧
      ∃ s, Run (fun _ _ => True) s ∧ ¬ InTurn Call.file s := by
  obtain ⟨s, hRun, hCalls, hRegistry⟩ := Run.new.start_running (linkedDir false) "/link/f".toList rfl
  have hKey : (Call.start (linkedDir false) "/link/f".toList).key = "/link/f".toList := rfl
  have hKey' : (Call.start (linkedDir true) "/link/f".toList).key = "/d/f".toList := rfl
  rw [hKey] at hRegistry
  constructor
  · refine ⟨_, hRun.step trivial (@Step.cancel _ [] [] _ _ hCalls (Or.inr ⟨_, rfl⟩)), rfl, ?_⟩
    rw [hRegistry, Function.update_self]
    simp
  · obtain ⟨s', hRun', hCalls', -⟩ := hRun.start_running (linkedDir true) "/link/f".toList (by rw [hKey', hRegistry]; rfl)
    refine ⟨s', hRun', fun hTurn => ?_⟩
    have hApart := hTurn.apart
    rw [hCalls', hCalls] at hApart
    exact List.rel_of_pairwise_cons hApart (List.mem_singleton.mpr rfl) ⟨_, rfl⟩ ⟨_, rfl⟩ rfl

/-! ## Every call comes to its end -/

def Phase.left : Phase → Nat
  | .keyed => 6
  | .registered _ => 5
  | .waiting _ _ => 4
  | .running _ => 3
  | .released _ => 2
  | .dropped => 1

def State.left (s : State) : Nat :=
  (s.calls.map (·.2.left)).sum

def Action.Own (action : Action) : Prop :=
  action ≠ .cancel ∧ ∀ call, action ≠ .start call

/-- Steps that the calls in progress take themselves, as their operations end. -/
inductive OwnSteps : Nat → State → State → Prop where
  | refl (s : State) : OwnSteps 0 s s
  | step {n : Nat} {s s' s'' : State} {action : Action} (hStep : Step s action s') (hOwn : action.Own)
      (hSteps : OwnSteps n s' s'') : OwnSteps (n + 1) s s''

theorem left_step (hStep : Step s action s') (hOwn : action.Own) : s'.left + 1 = s.left := by
  cases hStep with
  | start fs filePath => exact absurd rfl (hOwn.2 _)
  | cancel => exact absurd rfl hOwn.1
  | find hCalls _ | enter hCalls _ | arrive hCalls | acquire hCalls _ _ | finish hCalls | drop hCalls
  | remove hCalls _ _ | leave hCalls _ =>
    simp only [State.left, hCalls, List.map_append, List.map_cons, List.sum_append, List.sum_cons, List.map_nil,
      List.sum_nil, Phase.left]
    omega

theorem exists_own_step (hBusy : s.calls ≠ []) : ∃ action s', Step s action s' ∧ action.Own := by
  by_cases hWait : ∀ x ∈ s.calls, ∃ queue arrival, x.2 = .waiting queue arrival
  · obtain ⟨⟨call, phase⟩, after, hCalls⟩ := List.exists_cons_of_ne_nil hBusy
    obtain ⟨queue, arrival, rfl⟩ := hWait (call, phase) (hCalls ▸ List.mem_cons_self)
    -- nobody runs, so the first of the line does
    refine ⟨_, _, @Step.acquire s [] after call queue arrival hCalls (fun other hMem => ?_) (by simp), by simp [Action.Own]⟩
    obtain ⟨_, _, hPhase⟩ := hWait _ hMem
    cases hPhase
  · simp only [not_forall, not_exists] at hWait
    obtain ⟨⟨call, phase⟩, hMem, hMoves⟩ := hWait
    obtain ⟨before, after, hCalls⟩ := List.append_of_mem hMem
    have hOther : Action.other.Own := by simp [Action.Own]
    cases phase with
    | keyed =>
      cases hEntry : s.registry call.key with
      | none => exact ⟨_, _, .enter hCalls hEntry, hOther⟩
      | some queue => exact ⟨_, _, .find hCalls hEntry, hOther⟩
    | registered queue => exact ⟨_, _, .arrive hCalls, hOther⟩
    | waiting queue arrival => exact absurd rfl (hMoves queue arrival)
    | running queue => exact ⟨_, _, .finish hCalls, hOther⟩
    | released queue => exact ⟨_, _, .drop hCalls, hOther⟩
    | dropped =>
      by_cases hStays : ∀ queue, s.registry call.key = some queue → s.strongCount queue ≠ 1
      · exact ⟨_, _, .leave hCalls hStays, hOther⟩
      · simp only [not_forall, not_not] at hStays
        obtain ⟨queue, hEntry, hLast⟩ := hStays
        exact ⟨_, _, .remove hCalls hEntry hLast, hOther⟩

/-- Whatever the calls do in whatever order, none is stuck for good, and after `left` of their own steps all are done. -/
theorem calls_come_to_their_end (s : State) :
    (∀ n s', OwnSteps n s s' → n + s'.left = s.left ∧ (s'.calls ≠ [] → ∃ action s'', Step s' action s'' ∧ action.Own)) ∧
      ∃ s', OwnSteps s.left s s' ∧ s'.calls = [] := by
  constructor
  · intro n s' hSteps
    refine ⟨?_, exists_own_step⟩
    induction hSteps with
    | refl s => exact Nat.zero_add _
    | step hStep hOwn _ ih => rw [← left_step hStep hOwn, ← ih, Nat.add_right_comm]
  · generalize hLeft : s.left = left
    induction left generalizing s with
    | zero =>
      refine ⟨s, .refl s, by_contra fun hBusy => ?_⟩
      obtain ⟨action, s', hStep, hOwn⟩ := exists_own_step hBusy
      exact Nat.succ_ne_zero _ ((left_step hStep hOwn).trans hLeft)
    | succ left ih =>
      have hBusy : s.calls ≠ [] := fun hDone => by simp [State.left, hDone] at hLeft
      obtain ⟨action, s', hStep, hOwn⟩ := exists_own_step hBusy
      obtain ⟨s'', hSteps, hDone⟩ := ih s' (Nat.succ.inj ((left_step hStep hOwn).trans hLeft))
      exact ⟨s'', .step hStep hOwn hSteps, hDone⟩

end PrimeAgent.MutationQueue
