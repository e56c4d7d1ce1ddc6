import PrimeAgent.InputPause.Lease
import PrimeAgent.Lib.Pool
import Mathlib.Logic.Relation
import Mathlib.Data.List.Nodup

/-! # A client that has left

Every pause on a worker is recorded as a lease or is about to be. The cleanup of a connection releases the leases that
it finds, so nothing of the connection stays if no acquisition is recorded after that.
-/
namespace PrimeAgent.InputPause

variable {residents : List String} {s s' : Supervisor} {connectionId : String} {task : Task} {next : Next}
  {lease : String × SupervisorPauseEntry} {pauseId : String} {pauses : InputPauseTable} {entry : SupervisorPauseEntry}
  {chance : Chance}

/-! ## What the tables hold -/

def HeldFor (s : Supervisor) (pauseId workerId ownerClientId activeSessionId : String) : Prop :=
  ∃ leaseKey, (pauseId, workerId, ({ activeSessionId, ownerClientId, leaseKey } : InputPauseEntry)) ∈ s.held

def Backed (residents : List String) (s : Supervisor) (lease : String × SupervisorPauseEntry) : Prop :=
  lease.2.workerId ∈ residents ∧
    HeldFor s lease.1 lease.2.workerId lease.2.ownerConnectionId lease.2.activeSessionId

def Gone (s : Supervisor) (pauseId : String) : Prop :=
  pauseId ∈ s.held.map (·.1) ∧ ∀ workerId entry, (pauseId, entry) ∉ (s.workers workerId).pauses

structure Tables (residents : List String) (s : Supervisor) : Prop where
  unique : (s.held.map (·.1)).Nodup
  paused : ∀ workerId pauseId entry, (pauseId, entry) ∈ (s.workers workerId).pauses →
    (pauseId, workerId, entry) ∈ s.held
  leased : ∀ lease ∈ s.leases, Backed residents s lease
  created : ∀ pauseId workerId entry, (pauseId, workerId, entry) ∈ s.held → (s.workers workerId).created = true

structure Evolves (s s' : Supervisor) : Prop where
  held : ∀ pause ∈ s.held, pause ∈ s'.held
  pauses : ∀ workerId pauseId entry, (pauseId, entry) ∈ (s'.workers workerId).pauses →
    (pauseId, entry) ∈ (s.workers workerId).pauses ∨ pauseId ∉ s.held.map (·.1)

theorem HeldFor.evolves {pauseId workerId ownerClientId activeSessionId : String}
    (hHeld : HeldFor s pauseId workerId ownerClientId activeSessionId) (hEvolves : Evolves s s') :
    HeldFor s' pauseId workerId ownerClientId activeSessionId := by
  obtain ⟨leaseKey, hMem⟩ := hHeld
  exact ⟨leaseKey, hEvolves.held _ hMem⟩

theorem Backed.evolves (hBacked : Backed residents s lease) (hEvolves : Evolves s s') : Backed residents s' lease :=
  ⟨hBacked.1, hBacked.2.evolves hEvolves⟩

theorem Gone.evolves (hGone : Gone s pauseId) (hEvolves : Evolves s s') : Gone s' pauseId := by
  constructor
  · obtain ⟨pause, hMem, rfl⟩ := List.mem_map.mp hGone.1
    exact List.mem_map_of_mem (hEvolves.held pause hMem)
  · intro workerId entry hMem
    obtain hOld | hNew := hEvolves.pauses workerId pauseId entry hMem
    · exact hGone.2 workerId entry hOld
    · exact hNew hGone.1

theorem Tables.same (hTables : Tables residents s) {pauseId workerId workerId' : String} {entry entry' : InputPauseEntry}
    (hMem : (pauseId, workerId, entry) ∈ s.held) (hMem' : (pauseId, workerId', entry') ∈ s.held) :
    workerId = workerId' ∧ entry = entry' := by
  have hSame := List.inj_on_of_nodup_map hTables.unique hMem hMem' rfl
  exact ⟨congrArg (·.2.1) hSame, congrArg (·.2.2) hSame⟩

/-! ## Tasks -/

def Task.Sound (residents : List String) (s : Supervisor) (connectionId : String) : Task → Prop
  | .acquireDedupe _ _ _ workerId => workerId ∈ residents
  | .acquireRouted _ _ _ workerId _ => workerId ∈ residents
  | .acquireAnswered _ _ workerId pauseId _ =>
    workerId ∈ residents ∧ HeldFor s pauseId workerId connectionId workerId
  | .acquireRecord _ _ workerId pauseId _ => workerId ∈ residents ∧ HeldFor s pauseId workerId connectionId workerId
  | .releaseRouted pauseId entry => entry.ownerConnectionId = connectionId ∧ Backed residents s (pauseId, entry)
  | .releaseAnswered pauseId none => Gone s pauseId
  | .releasing entries => ∀ lease ∈ entries, lease.2.ownerConnectionId = connectionId ∧ Backed residents s lease
  | .released pauseId rest =>
    Gone s pauseId ∧ ∀ lease ∈ rest, lease.2.ownerConnectionId = connectionId ∧ Backed residents s lease
  | _ => True

theorem Task.Sound.evolves (hSound : task.Sound residents s connectionId) (hEvolves : Evolves s s') :
    task.Sound residents s' connectionId := by
  cases task with
  | acquireAnswered _ _ workerId pauseId _ | acquireRecord _ _ workerId pauseId _ | releaseRouted pauseId entry =>
    exact ⟨hSound.1, hSound.2.evolves hEvolves⟩
  | releaseAnswered pauseId error =>
    cases error with
    | none => exact Gone.evolves hSound hEvolves
    | some error => trivial
  | releasing entries => exact fun lease hMem => ⟨(hSound lease hMem).1, (hSound lease hMem).2.evolves hEvolves⟩
  | released pauseId rest =>
    exact ⟨hSound.1.evolves hEvolves,
      fun lease hMem => ⟨(hSound.2 lease hMem).1, (hSound.2 lease hMem).2.evolves hEvolves⟩⟩
  | acquireDedupe _ _ _ workerId | acquireRouted _ _ _ workerId _ => exact hSound
  | _ => trivial

def Task.Holds (pauseId : String) : Task → Prop
  | .acquireAnswered _ _ _ held _ => held = pauseId
  | .acquireRecord _ _ _ held _ => held = pauseId
  | _ => False

def Task.Clears (pauseId : String) : Task → Prop
  | .releasing entries => pauseId ∈ entries.map (·.1)
  | .released first rest => pauseId = first ∨ pauseId ∈ rest.map (·.1)
  | _ => False

def Task.Records : Task → Prop
  | .acquireRecord .. => True
  | _ => False

def Next.Sound (residents : List String) (s : Supervisor) (connectionId : String) : Next → Prop
  | .task task => task.Sound residents s connectionId
  | _ => True

def Next.Holds (pauseId : String) : Next → Prop
  | .task task => task.Holds pauseId
  | _ => False

def Next.Clears (pauseId : String) : Next → Prop
  | .task task => task.Clears pauseId
  | _ => False

structure Moves (residents : List String) (s : Supervisor) (connectionId : String) (task : Task) (s' : Supervisor)
    (next : Next) : Prop where
  tables : Tables residents s'
  evolves : Evolves s s'
  sound : next.Sound residents s' connectionId
  newPause : ∀ workerId pauseId entry, (pauseId, entry) ∈ (s'.workers workerId).pauses →
    (pauseId, entry) ∈ (s.workers workerId).pauses ∨ next.Holds pauseId
  holds : ∀ pauseId, task.Holds pauseId → pauseId ∈ s'.leases.map (·.1) ∨ next.Holds pauseId
  oldLease : ∀ pauseId ∈ s.leases.map (·.1), pauseId ∈ s'.leases.map (·.1) ∨ Gone s' pauseId
  newLease : ∀ lease ∈ s'.leases, lease ∈ s.leases ∨ (lease.2.ownerConnectionId = connectionId ∧ task.Records)
  phase : ∀ other, (s'.connections other).phase = .swept → (s.connections other).phase = .swept ∨
    (other = connectionId ∧ ∀ lease ∈ s'.leases, lease.2.ownerConnectionId = connectionId → next.Clears lease.1)
  clears : ∀ pauseId, task.Clears pauseId → next.Clears pauseId ∨ pauseId ∉ s'.leases.map (·.1)

/-! ## Moves that only take pauses away -/

/-- Pauses may go, and nothing else changes but the sessions and the epoch of a connection. -/
structure Shrinks (s s' : Supervisor) : Prop where
  held : s'.held = s.held
  leases : s'.leases = s.leases
  created : ∀ workerId, (s'.workers workerId).created = (s.workers workerId).created
  phase : ∀ other, (s'.connections other).phase = (s.connections other).phase
  pauses : ∀ workerId pauseId entry, (pauseId, entry) ∈ (s'.workers workerId).pauses →
    (pauseId, entry) ∈ (s.workers workerId).pauses

theorem Shrinks.refl (s : Supervisor) : Shrinks s s :=
  ⟨rfl, rfl, fun _ => rfl, fun _ => rfl, fun _ _ _ hMem => hMem⟩

theorem Shrinks.evolves (hShrinks : Shrinks s s') : Evolves s s' := by
  constructor
  · rw [hShrinks.held]
    exact fun _ hMem => hMem
  · exact fun workerId pauseId entry hMem => .inl (hShrinks.pauses workerId pauseId entry hMem)

theorem Shrinks.tables (hShrinks : Shrinks s s') (hTables : Tables residents s) : Tables residents s' := by
  constructor
  · rw [hShrinks.held]
    exact hTables.unique
  · intro workerId pauseId entry hMem
    rw [hShrinks.held]
    exact hTables.paused _ _ _ (hShrinks.pauses workerId pauseId entry hMem)
  · rw [hShrinks.leases]
    exact fun lease hMem => (hTables.leased lease hMem).evolves hShrinks.evolves
  · rw [hShrinks.held]
    intro pauseId workerId entry hMem
    rw [hShrinks.created]
    exact hTables.created pauseId workerId entry hMem

theorem moves_shrinks (hTables : Tables residents s) (hShrinks : Shrinks s s')
    (hSound : next.Sound residents s' connectionId) (hHolds : ∀ pauseId, task.Holds pauseId → next.Holds pauseId)
    (hClears : ∀ pauseId, task.Clears pauseId → next.Clears pauseId) :
    Moves residents s connectionId task s' next where
  tables := hShrinks.tables hTables
  evolves := hShrinks.evolves
  sound := hSound
  newPause workerId pauseId entry hMem := .inl (hShrinks.pauses workerId pauseId entry hMem)
  holds pauseId hHeld := .inr (hHolds pauseId hHeld)
  oldLease pauseId hMem := by
    rw [hShrinks.leases]
    exact .inl hMem
  newLease lease hMem := by
    rw [hShrinks.leases] at hMem
    exact .inl hMem
  phase other hSwept := by
    rw [hShrinks.phase] at hSwept
    exact .inl hSwept
  clears pauseId hClear := .inl (hClears pauseId hClear)

theorem mem_setPauses {workerId other : String} {pause : String × InputPauseEntry} :
    pause ∈ ((s.setPauses workerId pauses).workers other).pauses ↔
      if other = workerId then pause ∈ pauses else pause ∈ (s.workers other).pauses := by
  unfold Supervisor.setPauses Supervisor.setWorker
  dsimp only
  split <;> rfl

theorem created_setPauses (workerId other : String) (pauses : InputPauseTable) :
    ((s.setPauses workerId pauses).workers other).created = (s.workers other).created := by
  unfold Supervisor.setPauses Supervisor.setWorker
  dsimp only
  split
  next hSame => rw [hSame]
  next => rfl

theorem shrinks_setPauses {workerId : String} (hSubset : ∀ pause ∈ pauses, pause ∈ (s.workers workerId).pauses) :
    Shrinks s (s.setPauses workerId pauses) := by
  refine ⟨rfl, rfl, fun other => created_setPauses workerId other pauses, fun _ => rfl, fun other pauseId entry hMem => ?_⟩
  rw [mem_setPauses] at hMem
  split at hMem
  next hSame =>
    rw [hSame]
    exact hSubset _ hMem
  next => exact hMem

theorem shrinks_setConnection {connection : ClientConnectionState}
    (hPhase : connection.phase = (s.connections connectionId).phase) :
    Shrinks s (s.setConnection connectionId connection) := by
  refine ⟨rfl, rfl, fun _ => rfl, fun other => ?_, fun _ _ _ hMem => hMem⟩
  unfold Supervisor.setConnection
  dsimp only
  split
  next hSame => rw [hSame, hPhase]
  next => rfl

theorem shrinks_detachOnWorker (clientId workerId : String) : Shrinks s (s.detachOnWorker clientId workerId) :=
  shrinks_setPauses fun _ hMem => List.mem_of_mem_filter hMem

theorem shrinks_releaseOnWorker (pauseId : String) (entry : SupervisorPauseEntry) :
    Shrinks s (s.releaseOnWorker pauseId entry).2 :=
  shrinks_setPauses fun _ hMem => InputPauseTable.release_subset hMem

theorem releaseOnWorker_gone (hTables : Tables residents s) (hBacked : Backed residents s lease) :
    (s.releaseOnWorker lease.1 lease.2).1 ≠ .ownedByAnotherClient ∧ Gone (s.releaseOnWorker lease.1 lease.2).2 lease.1 := by
  obtain ⟨leaseKey, hHeld⟩ := hBacked.2
  have hOwner : ∀ held, (lease.1, held) ∈ (s.workers lease.2.workerId).pauses →
      held.ownerClientId = lease.2.ownerConnectionId ∧ held.activeSessionId = lease.2.activeSessionId := by
    intro held hMem
    obtain ⟨-, rfl⟩ := hTables.same (hTables.paused _ _ _ hMem) hHeld
    exact ⟨rfl, rfl⟩
  obtain ⟨hOutcome, hNone⟩ := InputPauseTable.release_gone hOwner
  refine ⟨hOutcome, List.mem_map.mpr ⟨_, hHeld, rfl⟩, fun workerId entry hMem => ?_⟩
  unfold Supervisor.releaseOnWorker at hMem
  rw [mem_setPauses] at hMem
  split at hMem
  next => exact hNone entry hMem
  next hOther => exact hOther (hTables.same (hTables.paused _ _ _ hMem) hHeld).1

/-! ## The other moves -/

theorem mem_leases_removeLease :
    lease ∈ (s.removeLease pauseId).leases ↔ lease ∈ s.leases ∧ lease.1 ≠ pauseId := by
  unfold Supervisor.removeLease
  rw [List.mem_filter, decide_eq_true_eq]

section

variable (hTables : Tables residents s)

include hTables

theorem moves_removeLease (hGone : Gone s pauseId) (hSound : next.Sound residents (s.removeLease pauseId) connectionId)
    (hHolds : ∀ held, ¬task.Holds held)
    (hClears : ∀ cleared, task.Clears cleared → cleared ≠ pauseId → next.Clears cleared) :
    Moves residents s connectionId task (s.removeLease pauseId) next where
  tables := {
    unique := hTables.unique
    paused := hTables.paused
    leased := fun lease hMem => hTables.leased lease (mem_leases_removeLease.mp hMem).1
    created := hTables.created }
  evolves := ⟨fun _ hMem => hMem, fun _ _ _ hMem => .inl hMem⟩
  sound := hSound
  newPause workerId id entry hMem := .inl hMem
  holds held hHeld := absurd hHeld (hHolds held)
  oldLease old hMem := by
    by_cases hSame : old = pauseId
    · rw [hSame]
      exact .inr hGone
    · obtain ⟨lease, hLease, rfl⟩ := List.mem_map.mp hMem
      exact .inl (List.mem_map_of_mem (mem_leases_removeLease.mpr ⟨hLease, hSame⟩))
  newLease lease hMem := .inl (mem_leases_removeLease.mp hMem).1
  phase other hSwept := .inl hSwept
  clears cleared hClear := by
    by_cases hSame : cleared = pauseId
    · refine .inr fun hMem => ?_
      obtain ⟨lease, hLease, hId⟩ := List.mem_map.mp hMem
      exact (mem_leases_removeLease.mp hLease).2 (hId.trans hSame)
    · exact .inl (hClears cleared hClear hSame)

theorem moves_insertLease (hOwner : entry.ownerConnectionId = connectionId)
    (hBacked : Backed residents s (pauseId, entry)) (hRecords : task.Records)
    (hHolds : ∀ held, task.Holds held → held = pauseId) (hClears : ∀ cleared, ¬task.Clears cleared) (reply : Reply) :
    Moves residents s connectionId task (s.insertLease pauseId entry) (.reply reply) := by
  have hMem : ∀ lease, lease ∈ (s.insertLease pauseId entry).leases ↔
      (lease ∈ s.leases ∧ lease.1 ≠ pauseId) ∨ lease = (pauseId, entry) := by
    intro lease
    unfold Supervisor.insertLease
    rw [List.mem_append, List.mem_filter, decide_eq_true_eq, List.mem_singleton]
  have hNew : pauseId ∈ (s.insertLease pauseId entry).leases.map (·.1) :=
    List.mem_map_of_mem (f := (·.1)) ((hMem (pauseId, entry)).mpr (.inr rfl))
  exact {
    tables := {
      unique := hTables.unique
      paused := hTables.paused
      leased := by
        intro lease hLease
        obtain ⟨hOld, -⟩ | rfl := (hMem lease).mp hLease
        · exact hTables.leased lease hOld
        · exact hBacked
      created := hTables.created }
    evolves := ⟨fun _ hOld => hOld, fun _ _ _ hOld => .inl hOld⟩
    sound := trivial
    newPause := fun _ _ _ hOld => .inl hOld
    holds := by
      intro held hHeld
      rw [hHolds held hHeld]
      exact .inl hNew
    oldLease := by
      intro old hOld
      by_cases hSame : old = pauseId
      · rw [hSame]
        exact .inl hNew
      · obtain ⟨lease, hLease, rfl⟩ := List.mem_map.mp hOld
        exact .inl (List.mem_map_of_mem ((hMem lease).mpr (.inl ⟨hLease, hSame⟩)))
    newLease := by
      intro lease hLease
      obtain ⟨hOld, -⟩ | rfl := (hMem lease).mp hLease
      · exact .inl hOld
      · exact .inr ⟨hOwner, hRecords⟩
    phase := fun _ hSwept => .inl hSwept
    clears := fun cleared hClear => absurd hClear (hClears cleared) }

theorem moves_acquire {workerId newId : String} {leaseKey : List String} (hResident : workerId ∈ residents)
    (hCreated : (s.workers workerId).created = true) (hNew : newId ∉ s.held.map (·.1)) (activeSessionId key : String)
    (epoch : Nat) (hHolds : ∀ held, ¬task.Holds held) (hClears : ∀ cleared, ¬task.Clears cleared) :
    let entry : InputPauseEntry := { activeSessionId := workerId, ownerClientId := connectionId, leaseKey }
    let acquired := (s.workers workerId).pauses.acquire newId entry
    Moves residents s connectionId task
      { s.setPauses workerId acquired.2 with held := s.held ++ [(newId, workerId, entry)] }
      (.task (.acquireAnswered activeSessionId key workerId acquired.1 epoch)) := by
  intro entry acquired
  have hCases := InputPauseTable.acquire_cases (s.workers workerId).pauses newId entry
  have hGrows : ∀ other pauseId held, (pauseId, held) ∈ ((s.setPauses workerId acquired.2).workers other).pauses →
      (pauseId, held) ∈ (s.workers other).pauses ∨
        (other = workerId ∧ pauseId = newId ∧ held = entry ∧ acquired.1 = newId) := by
    intro other pauseId held hMem
    rw [mem_setPauses] at hMem
    split at hMem
    next hSame =>
      subst hSame
      obtain ⟨known, -, hKnown⟩ | hMinted := hCases
      · have hPauses : acquired.2 = (s.workers other).pauses := congrArg Prod.snd hKnown
        rw [hPauses] at hMem
        exact .inl hMem
      · have hPauses : acquired.2 = (s.workers other).pauses ++ [(newId, entry)] := congrArg Prod.snd hMinted
        rw [hPauses] at hMem
        obtain hOld | hLast := List.mem_append.mp hMem
        · exact .inl hOld
        · obtain ⟨rfl, rfl⟩ := Prod.mk.inj (List.mem_singleton.mp hLast)
          exact .inr ⟨rfl, rfl, rfl, congrArg Prod.fst hMinted⟩
    next => exact .inl hMem
  have hEvolves : Evolves s
      { s.setPauses workerId acquired.2 with held := s.held ++ [(newId, workerId, entry)] } := by
    refine ⟨fun pause hMem => List.mem_append_left _ hMem, fun other pauseId held hMem => ?_⟩
    obtain hOld | ⟨-, rfl, -⟩ := hGrows other pauseId held hMem
    · exact .inl hOld
    · exact .inr hNew
  have hAnswered : ∃ held, (acquired.1, workerId, held) ∈ s.held ++ [(newId, workerId, entry)] ∧ held = entry := by
    obtain ⟨known, hMem, hKnown⟩ | hMinted := hCases
    · have hId : acquired.1 = known := congrArg Prod.fst hKnown
      rw [hId]
      exact ⟨entry, List.mem_append_left _ (hTables.paused _ _ _ hMem), rfl⟩
    · have hId : acquired.1 = newId := congrArg Prod.fst hMinted
      rw [hId]
      exact ⟨entry, List.mem_append_right _ (List.mem_singleton_self _), rfl⟩
  exact {
    tables := {
      unique := by
        rw [List.map_append]
        apply hTables.unique.append (List.nodup_singleton _)
        intro pauseId hOld hSame
        rw [List.mem_singleton.mp hSame] at hOld
        exact hNew hOld
      paused := by
        intro other pauseId held hMem
        obtain hOld | ⟨rfl, rfl, rfl, -⟩ := hGrows other pauseId held hMem
        · exact List.mem_append_left _ (hTables.paused other pauseId held hOld)
        · exact List.mem_append_right _ (List.mem_singleton_self _)
      leased := fun lease hMem => (hTables.leased lease hMem).evolves hEvolves
      created := by
        intro pauseId other held hMem
        obtain hOld | hLast := List.mem_append.mp hMem
        · exact (created_setPauses workerId other acquired.2).trans (hTables.created pauseId other held hOld)
        · obtain ⟨-, hRest⟩ := Prod.mk.inj (List.mem_singleton.mp hLast)
          rw [(Prod.mk.inj hRest).1]
          exact (created_setPauses workerId workerId acquired.2).trans hCreated }
    evolves := hEvolves
    sound := by
      obtain ⟨held, hMem, rfl⟩ := hAnswered
      exact ⟨hResident, leaseKey, hMem⟩
    newPause := by
      intro other pauseId held hMem
      obtain hOld | ⟨-, rfl, -, hId⟩ := hGrows other pauseId held hMem
      · exact .inl hOld
      · exact .inr hId
    holds := fun held hHeld => absurd hHeld (hHolds held)
    oldLease := fun _ hOld => .inl hOld
    newLease := fun _ hOld => .inl hOld
    phase := fun _ hSwept => .inl hSwept
    clears := fun cleared hClear => absurd hClear (hClears cleared) }

theorem moves_sweep (sessions : List String) (final : Bool) (hFinal : final = true → sessions = []) :
    let entries := s.leases.filter fun lease => lease.2.ownerConnectionId = connectionId ∧
      (sessions = [] ∨ lease.2.activeSessionId ∈ sessions ∨ lease.2.requestedActiveSessionId ∈ sessions)
    let phase := if final then .swept else (s.connections connectionId).phase
    Moves residents s connectionId (.sweep sessions final)
      (s.setConnection connectionId { s.connections connectionId with phase }) (.task (.releasing entries)) := by
  intro entries phase
  exact {
    tables := ⟨hTables.unique, hTables.paused, hTables.leased, hTables.created⟩
    evolves := ⟨fun _ hOld => hOld, fun _ _ _ hOld => .inl hOld⟩
    sound := by
      intro lease hMem
      obtain ⟨hLease, hTest⟩ := List.mem_filter.mp hMem
      exact ⟨(of_decide_eq_true hTest).1, hTables.leased lease hLease⟩
    newPause := fun _ _ _ hOld => .inl hOld
    holds := fun _ hHeld => absurd hHeld id
    oldLease := fun _ hOld => .inl hOld
    newLease := fun _ hOld => .inl hOld
    phase := by
      intro other hSwept
      by_cases hSame : other = connectionId
      · subst hSame
        cases final with
        | false =>
          refine .inl ?_
          simpa [Supervisor.setConnection, phase] using hSwept
        | true =>
          refine .inr ⟨rfl, fun lease hMem hOwner => List.mem_map_of_mem (List.mem_filter.mpr ⟨hMem, ?_⟩)⟩
          exact decide_eq_true ⟨hOwner, .inl (hFinal rfl)⟩
      · refine .inl ?_
        simpa [Supervisor.setConnection, hSame] using hSwept
    clears := fun _ hClear => absurd hClear id }

end

def Task.Whole : Task → Prop
  | .sweep sessions final => final = true → sessions = []
  | _ => True

section

variable (hTables : Tables residents s)

include hTables

theorem moves_acquireRouted {activeSessionId leaseKey clientId workerId : String} {epoch : Nat}
    (hResident : workerId ∈ residents)
    (hAdvance : (Task.acquireRouted activeSessionId leaseKey clientId workerId epoch).advance residents connectionId
      chance s = some (s', next)) :
    Moves residents s connectionId (.acquireRouted activeSessionId leaseKey clientId workerId epoch) s' next := by
  rw [Task.advance] at hAdvance
  split at hAdvance
  next =>
    cases hAdvance
    exact moves_shrinks hTables (.refl s) trivial (fun _ => id) (fun _ => id)
  next =>
    split at hAdvance
    next =>
      cases hAdvance
      exact moves_shrinks hTables (.refl s) trivial (fun _ => id) (fun _ => id)
    next hCreated =>
      split at hAdvance
      next => cases hAdvance
      next hFresh =>
        cases hAdvance
        refine moves_acquire hTables hResident (by simpa using hCreated) ?_ activeSessionId leaseKey epoch
          (fun _ => id) (fun _ => id)
        intro hMem
        obtain ⟨pause, hPause, hId⟩ := List.mem_map.mp hMem
        exact hFresh (List.any_eq_true.mpr ⟨pause, hPause, decide_eq_true hId⟩)

theorem moves_release {activeSessionId pauseId : String}
    (hAdvance : (Task.release activeSessionId pauseId).advance residents connectionId chance s = some (s', next)) :
    Moves residents s connectionId (.release activeSessionId pauseId) s' next := by
  have hQuiet : ∀ {next : Next}, next.Sound residents s connectionId →
      Moves residents s connectionId (.release activeSessionId pauseId) s next :=
    fun hSound => moves_shrinks hTables (.refl s) hSound (fun _ hHeld => absurd hHeld id)
      (fun _ hClear => absurd hClear id)
  rw [Task.advance] at hAdvance
  split at hAdvance
  next => cases hAdvance
  next =>
    split at hAdvance
    next =>
      cases hAdvance
      exact hQuiet trivial
    next entry hFind =>
      have hLease : (pauseId, entry) ∈ s.leases := by
        obtain ⟨lease, hLease, rfl⟩ := Option.map_eq_some_iff.mp hFind
        have hId : lease.1 = pauseId := by simpa using List.find?_some hLease
        rw [← hId]
        exact List.mem_of_find?_eq_some hLease
      have hBacked := hTables.leased _ hLease
      split at hAdvance
      next =>
        cases hAdvance
        exact hQuiet trivial
      next hOwner =>
        split at hAdvance
        next =>
          cases hAdvance
          exact hQuiet trivial
        next =>
          split at hAdvance
          next hAbsent => exact absurd hBacked.1 hAbsent
          next =>
            cases hAdvance
            exact hQuiet ⟨not_not.mp hOwner, hBacked⟩

theorem moves_releaseRouted (hBacked : Backed residents s (pauseId, entry))
    (hAdvance : (Task.releaseRouted pauseId entry).advance residents connectionId chance s = some (s', next)) :
    Moves residents s connectionId (.releaseRouted pauseId entry) s' next := by
  rw [Task.advance] at hAdvance
  split at hAdvance
  next =>
    cases hAdvance
    exact moves_shrinks hTables (.refl s) trivial (fun _ hHeld => absurd hHeld id) (fun _ hClear => absurd hClear id)
  next =>
    split at hAdvance
    next =>
      cases hAdvance
      exact moves_shrinks hTables (.refl s) trivial (fun _ hHeld => absurd hHeld id) (fun _ hClear => absurd hClear id)
    next =>
      obtain ⟨hOutcome, hGone⟩ := releaseOnWorker_gone hTables hBacked
      simp only [if_neg hOutcome] at hAdvance
      cases hAdvance
      exact moves_shrinks hTables (shrinks_releaseOnWorker pauseId entry) hGone (fun _ hHeld => absurd hHeld id)
        (fun _ hClear => absurd hClear id)

theorem moves_releasing {rest : List (String × SupervisorPauseEntry)}
    (hSound : (Task.releasing (lease :: rest)).Sound residents s connectionId)
    (hAdvance : (Task.releasing (lease :: rest)).advance residents connectionId chance s = some (s', next)) :
    Moves residents s connectionId (.releasing (lease :: rest)) s' next := by
  have hBacked := (hSound lease (List.mem_cons_self ..)).2
  have hReady : lease.2.workerId ∈ residents ∧ (s.workers lease.2.workerId).created = true := by
    obtain ⟨hResident, leaseKey, hHeld⟩ := hBacked
    exact ⟨hResident, hTables.created _ _ _ hHeld⟩
  rw [Task.advance, if_pos hReady] at hAdvance
  cases hAdvance
  have hShrinks := shrinks_releaseOnWorker (s := s) lease.1 lease.2
  refine moves_shrinks hTables hShrinks ?_ (fun _ hHeld => absurd hHeld id) (fun cleared hClear => ?_)
  · refine ⟨(releaseOnWorker_gone hTables hBacked).2, fun other hMem => ?_⟩
    obtain ⟨hOwner, hOther⟩ := hSound other (List.mem_cons_of_mem _ hMem)
    exact ⟨hOwner, hOther.evolves hShrinks.evolves⟩
  · exact List.mem_cons.mp hClear

theorem advance_moves (hSound : task.Sound residents s connectionId) (hWhole : task.Whole)
    (hAdvance : task.advance residents connectionId chance s = some (s', next)) :
    Moves residents s connectionId task s' next := by
  cases task with
  | acquire activeSessionId leaseKey clientId =>
    rw [Task.advance] at hAdvance
    split at hAdvance <;> cases hAdvance <;>
      exact moves_shrinks hTables (.refl s) trivial (fun _ => id) (fun _ => id)
  | acquireResolving activeSessionId leaseKey clientId =>
    rw [Task.advance] at hAdvance
    split at hAdvance
    next =>
      cases hAdvance
      exact moves_shrinks hTables (.refl s) trivial (fun _ => id) (fun _ => id)
    next workerId _ =>
      split at hAdvance
      next => cases hAdvance
      next hResident =>
        split at hAdvance <;> cases hAdvance
        · exact moves_shrinks hTables (.refl s) trivial (fun _ => id) (fun _ => id)
        · exact moves_shrinks hTables (.refl s) (not_not.mp hResident) (fun _ => id) (fun _ => id)
  | acquireDedupe activeSessionId leaseKey clientId workerId =>
    rw [Task.advance] at hAdvance
    split at hAdvance
    next => cases hAdvance
    next =>
      split at hAdvance <;> cases hAdvance
      · exact moves_shrinks hTables (.refl s) trivial (fun _ => id) (fun _ => id)
      · exact moves_shrinks hTables (.refl s) hSound (fun _ => id) (fun _ => id)
  | acquireRouted activeSessionId leaseKey clientId workerId epoch =>
    exact moves_acquireRouted hTables hSound hAdvance
  | acquireAnswered activeSessionId leaseKey workerId pauseId epoch =>
    cases hAdvance
    exact moves_shrinks hTables (.refl s) hSound (fun _ => id) (fun _ => id)
  | acquireRecord activeSessionId leaseKey workerId pauseId invalidated =>
    rw [Task.advance] at hAdvance
    split at hAdvance
    next => cases hAdvance
    next =>
      cases hAdvance
      have hBacked : Backed residents s (pauseId, ⟨connectionId, workerId, workerId, activeSessionId, leaseKey⟩) :=
        hSound
      refine moves_insertLease hTables rfl hBacked ?_ ?_ ?_ _
      · trivial
      · exact fun _ hHeld => Eq.symm hHeld
      · exact fun _ => id
  | release activeSessionId pauseId => exact moves_release hTables hAdvance
  | releaseRouted pauseId entry => exact moves_releaseRouted hTables hSound.2 hAdvance
  | releaseAnswered pauseId error =>
    cases error with
    | none =>
      cases hAdvance
      exact moves_removeLease hTables hSound trivial (fun _ => id) (fun _ hClear => absurd hClear id)
    | some error =>
      cases hAdvance
      exact moves_shrinks hTables (.refl s) trivial (fun _ => id) (fun _ => id)
  | detach activeSessionId clientId =>
    cases hAdvance
    exact moves_shrinks hTables (shrinks_setConnection rfl) trivial (fun _ => id) (fun _ => id)
  | detachRouted clientId workers sessions =>
    cases workers with
    | nil =>
      rw [Task.advance] at hAdvance
      split at hAdvance <;> cases hAdvance <;>
        exact moves_shrinks hTables (.refl s) trivial (fun _ => id) (fun _ => id)
    | cons workerId workers =>
      cases hAdvance
      exact moves_shrinks hTables (shrinks_detachOnWorker clientId workerId) trivial (fun _ => id) (fun _ => id)
  | reattach activeSessionId targetActiveSessionId =>
    cases hAdvance
    exact moves_shrinks hTables (.refl s) trivial (fun _ => id) (fun _ => id)
  | reattachRouted activeSessionId targetActiveSessionId =>
    cases hAdvance
    exact moves_shrinks hTables (shrinks_setConnection rfl) trivial (fun _ => id) (fun _ => id)
  | disconnect clientId workers =>
    cases workers with
    | nil =>
      cases hAdvance
      exact moves_shrinks hTables (shrinks_setConnection rfl) trivial (fun _ => id) (fun _ => id)
    | cons workerId workers =>
      cases hAdvance
      exact moves_shrinks hTables (shrinks_detachOnWorker clientId workerId) trivial (fun _ => id) (fun _ => id)
  | sweep sessions final =>
    rw [Task.advance] at hAdvance
    split at hAdvance
    next => cases hAdvance
    next =>
      cases hAdvance
      exact moves_sweep hTables sessions final hWhole
  | releasing entries =>
    cases entries with
    | nil =>
      cases hAdvance
      exact moves_shrinks hTables (.refl s) trivial (fun _ => id) (fun _ hClear => absurd hClear List.not_mem_nil)
    | cons lease rest => exact moves_releasing hTables hSound hAdvance
  | released pauseId rest =>
    rw [Task.advance] at hAdvance
    split at hAdvance
    next => cases hAdvance
    next =>
      cases hAdvance
      refine moves_removeLease hTables hSound.1 hSound.2 (fun _ => id) (fun cleared hClear hOther => ?_)
      exact hClear.resolve_left hOther

end

/-! ## Whole runs -/

structure Invariant (residents : List String) (s : Supervisor) : Prop extends Tables residents s where
  sound : ∀ connectionId task, (connectionId, task) ∈ s.tasks → task.Sound residents s connectionId
  whole : ∀ connectionId task, (connectionId, task) ∈ s.tasks → task.Whole
  /-- Every pause on a worker is recorded, or about to be. -/
  covered : ∀ workerId pauseId entry, (pauseId, entry) ∈ (s.workers workerId).pauses →
    pauseId ∈ s.leases.map (·.1) ∨ ∃ connectionId task, (connectionId, task) ∈ s.tasks ∧ task.Holds pauseId
  /-- Every lease of a connection whose leases have been swept is about to be dropped. -/
  swept : ∀ connectionId, (s.connections connectionId).phase = .swept → ∀ lease ∈ s.leases,
    lease.2.ownerConnectionId = connectionId → ∃ task, (connectionId, task) ∈ s.tasks ∧ task.Clears lease.1

def InTime (s : Supervisor) (connectionId : String) : Task → Prop
  | .acquireRecord .. => (s.connections connectionId).phase ≠ .swept
  | _ => True

theorem invariant_start : Invariant residents .start where
  unique := List.nodup_nil
  paused _ _ _ hMem := absurd hMem List.not_mem_nil
  leased _ hMem := absurd hMem List.not_mem_nil
  created _ _ _ hMem := absurd hMem List.not_mem_nil
  sound _ _ hMem := absurd hMem List.not_mem_nil
  whole _ _ hMem := absurd hMem List.not_mem_nil
  covered _ _ _ hMem := absurd hMem List.not_mem_nil
  swept _ hSwept := by cases hSwept

theorem whole_next (hAdvance : task.advance residents connectionId chance s = some (s', .task other)) :
    other.Whole := by
  cases other with
  | sweep sessions final =>
    intro hFinal
    subst hFinal
    unfold Task.advance at hAdvance
    repeat' split at hAdvance
    all_goals simp_all
  | _ => trivial

section

variable (hInv : Invariant residents s)

include hInv

theorem invariant_task {pool : List (String × Task)}
    (hPool : Pool.Replaced s.tasks (connectionId, task) (next.tasks connectionId) pool)
    (hInTime : InTime s connectionId task) (hAdvance : task.advance residents connectionId chance s = some (s', next)) :
    Invariant residents { s' with tasks := pool } := by
  have hOld := hPool.mem_old
  have hMoves := advance_moves hInv.toTables (hInv.sound _ _ hOld) (hInv.whole _ _ hOld) hAdvance
  have hNext : ∀ other task', (other, task') ∈ pool →
      (other = connectionId ∧ next = .task task') ∨ (other, task') ∈ s.tasks := by
    intro other task' hMem
    obtain hNew | hStays := hPool.mem_new hMem
    · cases next with
      | task following =>
        obtain ⟨rfl, rfl⟩ := Prod.mk.inj (List.mem_singleton.mp hNew)
        exact .inl ⟨rfl, rfl⟩
      | reply reply | done => exact absurd hNew List.not_mem_nil
    · exact .inr hStays
  have hNow : ∀ P : Task → Prop, (∃ task', next = .task task' ∧ P task') →
      ∃ task', (connectionId, task') ∈ pool ∧ P task' := by
    rintro P ⟨task', rfl, hP⟩
    exact ⟨task', hPool.mem_next (List.mem_singleton_self _), hP⟩
  have hHoldsNow : ∀ pauseId, next.Holds pauseId → ∃ task', (connectionId, task') ∈ pool ∧ task'.Holds pauseId := by
    intro pauseId hHolds
    cases next with
    | task following => exact hNow (Task.Holds pauseId) ⟨following, rfl, hHolds⟩
    | reply reply | done => exact absurd hHolds id
  have hClearsNow : ∀ pauseId, next.Clears pauseId → ∃ task', (connectionId, task') ∈ pool ∧ task'.Clears pauseId := by
    intro pauseId hClears
    cases next with
    | task following => exact hNow (Task.Clears pauseId) ⟨following, rfl, hClears⟩
    | reply reply | done => exact absurd hClears id
  refine { toTables := ⟨hMoves.tables.unique, hMoves.tables.paused, hMoves.tables.leased, hMoves.tables.created⟩
           sound := ?_, whole := ?_, covered := ?_, swept := ?_ }
  · intro other task' hMem
    obtain ⟨rfl, rfl⟩ | hStays := hNext other task' hMem
    · have hSound : task'.Sound residents s' other := hMoves.sound
      exact hSound.evolves ⟨fun _ hHeld => hHeld, fun _ _ _ hPause => .inl hPause⟩
    · exact (hInv.sound other task' hStays).evolves ⟨hMoves.evolves.held, hMoves.evolves.pauses⟩
  · intro other task' hMem
    obtain ⟨rfl, rfl⟩ | hStays := hNext other task' hMem
    · exact whole_next hAdvance
    · exact hInv.whole other task' hStays
  · intro workerId pauseId entry hMem
    obtain hBefore | hNew := hMoves.newPause workerId pauseId entry hMem
    · obtain hLease | ⟨other, task', hTask, hHolds⟩ := hInv.covered workerId pauseId entry hBefore
      · obtain hKept | hGone := hMoves.oldLease pauseId hLease
        · exact .inl hKept
        · exact absurd hMem (hGone.2 workerId entry)
      · obtain hHere | hStays := hPool.mem_stays hTask
        · obtain ⟨rfl, rfl⟩ := Prod.mk.inj hHere
          obtain hRecorded | hStill := hMoves.holds pauseId hHolds
          · exact .inl hRecorded
          · exact .inr ⟨_, hHoldsNow pauseId hStill⟩
        · exact .inr ⟨other, task', hStays, hHolds⟩
    · exact .inr ⟨connectionId, hHoldsNow pauseId hNew⟩
  · intro other hSwept lease hMem hOwner
    obtain hBefore | ⟨rfl, hAll⟩ := hMoves.phase other hSwept
    · obtain hLease | ⟨hMine, hRecords⟩ := hMoves.newLease lease hMem
      · obtain ⟨task', hTask, hClears⟩ := hInv.swept other hBefore lease hLease hOwner
        obtain hHere | hStays := hPool.mem_stays hTask
        · obtain ⟨rfl, rfl⟩ := Prod.mk.inj hHere
          obtain hStill | hDropped := hMoves.clears lease.1 hClears
          · exact hClearsNow lease.1 hStill
          · exact absurd (List.mem_map_of_mem hMem) hDropped
        · exact ⟨task', hStays, hClears⟩
      · have hSame : other = connectionId := hOwner.symm.trans hMine
        subst hSame
        cases task with
        | acquireRecord _ _ _ _ _ => exact absurd hBefore hInTime
        | _ => exact absurd hRecords id
    · exact hClearsNow lease.1 (hAll lease hMem hOwner)

theorem invariant_spawn {other : Supervisor} (hWorkers : other.workers = s.workers) (hLeases : other.leases = s.leases)
    (hHeld : other.held = s.held)
    (hPhase : ∀ id, (other.connections id).phase = .swept → (s.connections id).phase = .swept)
    (hTasks : other.tasks = s.tasks ++ [(connectionId, task)]) (hSound : task.Sound residents other connectionId)
    (hWhole : task.Whole) : Invariant residents other := by
  have hEvolves : Evolves s other := by
    refine ⟨?_, ?_⟩
    · rw [hHeld]
      exact fun _ hMem => hMem
    · rw [hWorkers]
      exact fun _ _ _ hMem => .inl hMem
  refine { unique := ?_, paused := ?_, leased := ?_, created := ?_, sound := ?_, whole := ?_, covered := ?_, swept := ?_ }
  · rw [hHeld]
    exact hInv.unique
  · rw [hHeld, hWorkers]
    exact hInv.paused
  · rw [hLeases]
    exact fun lease hMem => (hInv.leased lease hMem).evolves hEvolves
  · rw [hHeld, hWorkers]
    exact hInv.created
  · intro id task' hMem
    rw [hTasks] at hMem
    obtain hOld | hNew := List.mem_append.mp hMem
    · exact (hInv.sound id task' hOld).evolves hEvolves
    · obtain ⟨rfl, rfl⟩ := Prod.mk.inj (List.mem_singleton.mp hNew)
      exact hSound
  · intro id task' hMem
    rw [hTasks] at hMem
    obtain hOld | hNew := List.mem_append.mp hMem
    · exact hInv.whole id task' hOld
    · obtain ⟨rfl, rfl⟩ := Prod.mk.inj (List.mem_singleton.mp hNew)
      exact hWhole
  · intro workerId pauseId entry hMem
    rw [hWorkers] at hMem
    rw [hLeases, hTasks]
    obtain hLease | ⟨id, task', hTask, hHolds⟩ := hInv.covered workerId pauseId entry hMem
    · exact .inl hLease
    · exact .inr ⟨id, task', List.mem_append_left _ hTask, hHolds⟩
  · intro id hSwept lease hMem hOwner
    rw [hLeases] at hMem
    obtain ⟨task', hTask, hClears⟩ := hInv.swept id (hPhase id hSwept) lease hMem hOwner
    rw [hTasks]
    exact ⟨task', List.mem_append_left _ hTask, hClears⟩

theorem invariant_created (workerId : String) :
    Invariant residents (s.setWorker workerId { s.workers workerId with created := true }) := by
  have hPauses : ∀ other, ((s.setWorker workerId { s.workers workerId with created := true }).workers other).pauses =
      (s.workers other).pauses := by
    intro other
    unfold Supervisor.setWorker
    dsimp only
    split
    next hSame => rw [hSame]
    next => rfl
  have hEvolves : Evolves s (s.setWorker workerId { s.workers workerId with created := true }) := by
    refine ⟨fun _ hMem => hMem, fun other pauseId entry hMem => ?_⟩
    rw [hPauses] at hMem
    exact .inl hMem
  refine { unique := hInv.unique, paused := ?_, leased := ?_, created := ?_, sound := ?_, whole := hInv.whole
           covered := ?_, swept := hInv.swept }
  · intro other pauseId entry hMem
    rw [hPauses] at hMem
    exact hInv.paused other pauseId entry hMem
  · exact fun lease hMem => (hInv.leased lease hMem).evolves hEvolves
  · intro pauseId other entry hMem
    unfold Supervisor.setWorker
    dsimp only
    split
    next => rfl
    next => exact hInv.created pauseId other entry hMem
  · exact fun id task' hMem => (hInv.sound id task' hMem).evolves hEvolves
  · intro other pauseId entry hMem
    rw [hPauses] at hMem
    exact hInv.covered other pauseId entry hMem

theorem invariant_step (hStep : Step residents InTime s s') : Invariant residents s' := by
  cases hStep with
  | command connectionId command _ =>
    refine invariant_spawn hInv rfl rfl rfl (fun _ hSwept => hSwept) rfl ?_ ?_
    · cases command <;> trivial
    · cases command <;> trivial
  | disconnect connectionId clientId workers _ =>
    refine invariant_spawn hInv rfl rfl rfl (fun id hSwept => ?_) rfl trivial trivial
    unfold Supervisor.setConnection at hSwept
    dsimp only at hSwept
    split at hSwept
    next => cases hSwept
    next => exact hSwept
  | created workerId => exact invariant_created hInv workerId
  | task chance hTasks hAllowed hAdvance => exact invariant_task hInv ⟨_, _, hTasks, rfl⟩ hAllowed hAdvance

end

theorem invariant_run (hRun : Relation.ReflTransGen (Step residents InTime) .start s) : Invariant residents s := by
  induction hRun with
  | refl => exact invariant_start
  | tail _ hStep ih => exact invariant_step ih hStep

def Task.Releases : Task → Prop
  | .releaseRouted .. => True
  | .releasing .. => True
  | _ => False

theorem releaseOnWorker_keeps (hTables : Tables residents s) (hOwner : lease.2.ownerConnectionId = connectionId)
    {workerId pauseId : String} {entry : InputPauseEntry} (hMem : (pauseId, entry) ∈ (s.workers workerId).pauses)
    (hOther : entry.ownerClientId ≠ connectionId) :
    (pauseId, entry) ∈ ((s.releaseOnWorker lease.1 lease.2).2.workers workerId).pauses := by
  unfold Supervisor.releaseOnWorker
  rw [mem_setPauses]
  split
  next hSame =>
    subst hSame
    rw [← hOwner] at hOther
    refine InputPauseTable.release_keeps hMem (fun held hHeld => ?_) hOther
    exact (hTables.same (hTables.paused _ _ _ hHeld) (hTables.paused _ _ _ hMem)).2
  next => exact hMem

theorem releases_keeps (hTables : Tables residents s) (hSound : task.Sound residents s connectionId)
    (hReleases : task.Releases) (hAdvance : task.advance residents connectionId chance s = some (s', next))
    {workerId pauseId : String} {entry : InputPauseEntry} (hMem : (pauseId, entry) ∈ (s.workers workerId).pauses)
    (hOther : entry.ownerClientId ≠ connectionId) : (pauseId, entry) ∈ (s'.workers workerId).pauses := by
  cases task with
  | releaseRouted id lease =>
    rw [Task.advance] at hAdvance
    split at hAdvance
    next =>
      cases hAdvance
      exact hMem
    next =>
      split at hAdvance <;> cases hAdvance
      · exact hMem
      · exact releaseOnWorker_keeps hTables (show (id, lease).2.ownerConnectionId = connectionId from hSound.1) hMem hOther
  | releasing entries =>
    cases entries with
    | nil =>
      cases hAdvance
      exact hMem
    | cons lease rest =>
      rw [Task.advance] at hAdvance
      split at hAdvance <;> cases hAdvance
      · exact releaseOnWorker_keeps hTables (hSound lease (List.mem_cons_self ..)).1 hMem hOther
      · exact hMem
  | _ => exact absurd hReleases id

/-- Nothing of a connection that has left is held once its tasks are over, if its acquisitions were recorded in time. -/
theorem departed_releases (hRun : Relation.ReflTransGen (Step residents InTime) .start s) :
    (∀ connectionId, (s.connections connectionId).phase = .swept →
      (∀ task, (connectionId, task) ∉ s.tasks) →
      (∀ workerId, ∀ pause ∈ (s.workers workerId).pauses, pause.2.ownerClientId ≠ connectionId) ∧
        ∀ lease ∈ s.leases, lease.2.ownerConnectionId ≠ connectionId) ∧
    ∀ connectionId task chance s' next, (connectionId, task) ∈ s.tasks → task.Releases →
      task.advance residents connectionId chance s = some (s', next) →
      ∀ workerId, ∀ pause ∈ (s.workers workerId).pauses, pause.2.ownerClientId ≠ connectionId →
        pause ∈ (s'.workers workerId).pauses := by
  have hInv := invariant_run hRun
  constructor
  · intro connectionId hSwept hOver
    have hLeases : ∀ lease ∈ s.leases, lease.2.ownerConnectionId ≠ connectionId := by
      intro lease hMem hOwner
      obtain ⟨task, hTask, -⟩ := hInv.swept connectionId hSwept lease hMem hOwner
      exact hOver task hTask
    refine ⟨fun workerId pause hMem hOwner => ?_, hLeases⟩
    have hHeld := hInv.paused workerId pause.1 pause.2 hMem
    obtain hLease | ⟨other, task, hTask, hHolds⟩ := hInv.covered workerId pause.1 pause.2 hMem
    · obtain ⟨lease, hLease, hId⟩ := List.mem_map.mp hLease
      obtain ⟨-, leaseKey, hBacked⟩ := hInv.leased lease hLease
      rw [hId] at hBacked
      obtain ⟨-, hEntry⟩ := hInv.same hHeld hBacked
      rw [hEntry] at hOwner
      exact hLeases lease hLease hOwner
    · have hFor : ∃ workerId, HeldFor s pause.1 workerId other workerId := by
        cases task with
        | acquireAnswered _ _ workerId pauseId _ | acquireRecord _ _ workerId pauseId _ =>
          exact ⟨workerId, hHolds ▸ (hInv.sound other _ hTask).2⟩
        | _ => exact absurd hHolds id
      obtain ⟨_, leaseKey, hBacked⟩ := hFor
      obtain ⟨-, hEntry⟩ := hInv.same hHeld hBacked
      rw [hEntry] at hOwner
      subst hOwner
      exact hOver task hTask
  · intro connectionId task chance s' next hTask hReleases hAdvance workerId pause hMem hOther
    exact releases_keeps hInv.toTables (hInv.sound connectionId task hTask) hReleases hAdvance hMem hOther

/-! ## A client that leaves while it acquires -/

def firstChance : Chance :=
  { resolved := some "w1", workers := ["w1"], refused := false, newId := "p1" }

variable {allowed : Supervisor → String → Task → Prop} {after : List (String × Task)}

theorem step_first (hTasks : s.tasks = (connectionId, task) :: after) (hAllowed : allowed s connectionId task)
    (hAdvance : task.advance residents connectionId firstChance s = some (s', next)) :
    Step residents allowed s { s' with tasks := next.tasks connectionId ++ after } :=
  @Step.task residents allowed s s' connectionId task next [] after firstChance hTasks hAllowed hAdvance

theorem step_second {first : String × Task} (hTasks : s.tasks = first :: (connectionId, task) :: after)
    (hAllowed : allowed s connectionId task)
    (hAdvance : task.advance residents connectionId firstChance s = some (s', next)) :
    Step residents allowed s { s' with tasks := first :: (next.tasks connectionId ++ after) } :=
  @Step.task residents allowed s s' connectionId task next [first] after firstChance hTasks hAllowed hAdvance

theorem departed_releases_recorded : ∃ s, Relation.ReflTransGen (Step ["w1"] InTime) .start s ∧
    (s.connections "c1").phase = .swept ∧ s.held ≠ [] ∧
    (∀ pause ∈ (s.workers "w1").pauses, pause.2.ownerClientId ≠ "c1") ∧
    ∀ lease ∈ s.leases, lease.2.ownerConnectionId ≠ "c1" := by
  have hRun : ∃ s, Relation.ReflTransGen (Step ["w1"] InTime) .start s ∧
      (s.connections "c1").phase = .swept ∧ s.held ≠ [] ∧ s.tasks = [] := by
    refine ⟨_, .head (.created "w1") <| .head (.command "c1" (.acquireSessionInputPause "w1" "k" "tui") rfl) <|
      .head (step_first rfl trivial rfl) <| .head (step_first rfl trivial rfl) <|
      .head (step_first rfl trivial rfl) <| .head (step_first rfl trivial rfl) <|
      .head (step_first rfl trivial rfl) <| .head (step_first rfl (show Phase.connected ≠ .swept by decide) rfl) <|
      .head (.disconnect "c1" "tui" [] rfl) <|
      .head (step_first rfl trivial rfl) <| .head (step_first rfl trivial rfl) <|
      .head (step_first rfl trivial rfl) <| .head (step_first rfl trivial rfl) <|
      .head (step_first rfl trivial rfl) .refl, rfl, ?_, rfl⟩
    exact List.cons_ne_nil _ _
  obtain ⟨s, hRun, hSwept, hHeld, hOver⟩ := hRun
  have hClear := (departed_releases hRun).1 "c1" hSwept fun task hTask => by
    rw [hOver] at hTask
    exact absurd hTask List.not_mem_nil
  exact ⟨s, hRun, hSwept, hHeld, hClear.1 "w1", hClear.2⟩

theorem departed_keepsPause : ∃ s, Relation.ReflTransGen (Step ["w1"] fun _ _ _ => True) .start s ∧
    (s.connections "c1").phase = .swept ∧ s.tasks = [] ∧
    (s.workers "w1").pauses = [("p1", { activeSessionId := "w1", ownerClientId := "c1", leaseKey := ["c1", "tui", "k"] })] ∧
    s.leases = [("p1", ⟨"c1", "w1", "w1", "w1", "k"⟩)] := by
  refine ⟨_, .head (.created "w1") <| .head (.command "c1" (.acquireSessionInputPause "w1" "k" "tui") rfl) <|
    .head (step_first rfl trivial rfl) <| .head (step_first rfl trivial rfl) <|
    .head (step_first rfl trivial rfl) <| .head (.disconnect "c1" "tui" [] rfl) <|
    .head (step_second rfl trivial rfl) <| .head (step_second rfl trivial rfl) <|
    .head (step_second rfl trivial rfl) <| .head (step_first rfl trivial rfl) <|
    .head (step_first rfl trivial rfl) <| .head (step_first rfl trivial rfl) .refl, rfl, rfl, rfl, rfl⟩

end PrimeAgent.InputPause
