import Mathlib.Data.List.Basic

/-! # The pause table of a worker

Any pause held keeps the queued input of the session. A pause is leased to one owner under one key.
-/
namespace PrimeAgent.InputPause

structure InputPauseEntry where
  activeSessionId : String
  ownerClientId : String
  /-- The members of the lease key, which is an array. -/
  leaseKey : List String
deriving DecidableEq

abbrev InputPauseTable := List (String × InputPauseEntry)

inductive ReleaseOutcome where
  | released | unknown | ownedByAnotherClient
deriving DecidableEq

namespace InputPauseTable

def acquire (pauses : InputPauseTable) (newId : String) (entry : InputPauseEntry) : String × InputPauseTable :=
  match pauses.find? (·.2 = entry) with
  | some (pauseId, _) => (pauseId, pauses)
  | none => (newId, pauses ++ [(newId, entry)])

def release (pauses : InputPauseTable) (pauseId ownerClientId activeSessionId : String) :
    ReleaseOutcome × InputPauseTable :=
  match pauses.lookup pauseId with
  | none => (.unknown, pauses)
  | some entry =>
    if entry.ownerClientId ≠ ownerClientId ∨ entry.activeSessionId ≠ activeSessionId then
      (.ownedByAnotherClient, pauses)
    else (.released, pauses.filter (·.1 ≠ pauseId))

def releaseAllForOwner (pauses : InputPauseTable) (ownerClientId : String) : InputPauseTable :=
  pauses.filter (·.2.ownerClientId ≠ ownerClientId)

variable {pauses : InputPauseTable} {pauseId : String} {entry : InputPauseEntry} {l : List (String × InputPauseEntry)}

/-! ## What each operation leaves -/

theorem acquire_cases (pauses : InputPauseTable) (newId : String) (entry : InputPauseEntry) :
    (∃ pauseId, (pauseId, entry) ∈ pauses ∧ pauses.acquire newId entry = (pauseId, pauses)) ∨
      pauses.acquire newId entry = (newId, pauses ++ [(newId, entry)]) := by
  unfold acquire
  cases hFind : pauses.find? (·.2 = entry) with
  | some found =>
    obtain ⟨pauseId, held⟩ := found
    have hSame : held = entry := by simpa using List.find?_some hFind
    subst hSame
    exact .inl ⟨pauseId, List.mem_of_find?_eq_some hFind, rfl⟩
  | none => exact .inr rfl

theorem release_subset {releasedId ownerClientId activeSessionId : String}
    (hMem : (pauseId, entry) ∈ (pauses.release releasedId ownerClientId activeSessionId).2) : (pauseId, entry) ∈ pauses := by
  unfold release at hMem
  split at hMem
  next => exact hMem
  next =>
    split at hMem
    next => exact hMem
    next => exact List.mem_of_mem_filter hMem

theorem mem_of_lookup (hLookup : l.lookup pauseId = some entry) :
    (pauseId, entry) ∈ l := by
  induction l with
  | nil => cases hLookup
  | cons first rest ih =>
    obtain ⟨firstId, held⟩ := first
    rw [List.lookup_cons] at hLookup
    by_cases hSame : pauseId = firstId
    · subst hSame
      rw [beq_self_eq_true] at hLookup
      cases hLookup
      exact List.mem_cons_self ..
    · rw [beq_false_of_ne hSame] at hLookup
      exact List.mem_cons_of_mem _ (ih hLookup)

theorem lookup_ne_none (hMem : (pauseId, entry) ∈ l) :
    l.lookup pauseId ≠ none := by
  intro hNone
  have hAll := List.lookup_eq_none_iff.mp hNone (pauseId, entry) hMem
  simp at hAll

theorem release_keeps {ownerClientId activeSessionId releasedId : String} (hMem : (pauseId, entry) ∈ pauses)
    (hAlone : ∀ other, (pauseId, other) ∈ pauses → other = entry) (hOther : entry.ownerClientId ≠ ownerClientId) :
    (pauseId, entry) ∈ (pauses.release releasedId ownerClientId activeSessionId).2 := by
  unfold release
  split
  next => exact hMem
  next held hLookup =>
    split
    next => exact hMem
    next hOwned =>
      refine List.mem_filter.mpr ⟨hMem, ?_⟩
      simp only [decide_eq_true_eq]
      rintro rfl
      have hSame := hAlone held (mem_of_lookup hLookup)
      subst hSame
      exact hOwned (.inl hOther)

theorem release_gone {ownerClientId activeSessionId : String}
    (hOwner : ∀ held, (pauseId, held) ∈ pauses →
      held.ownerClientId = ownerClientId ∧ held.activeSessionId = activeSessionId) :
    (pauses.release pauseId ownerClientId activeSessionId).1 ≠ .ownedByAnotherClient ∧
      ∀ held, (pauseId, held) ∉ (pauses.release pauseId ownerClientId activeSessionId).2 := by
  unfold release
  split
  next hNone => exact ⟨by simp, fun held hMem => lookup_ne_none hMem hNone⟩
  next held hLookup =>
    obtain ⟨hSame, hSession⟩ := hOwner held (mem_of_lookup hLookup)
    rw [if_neg (by simp [hSame, hSession])]
    exact ⟨by simp, fun other hMem => by simpa using (List.mem_filter.mp hMem).2⟩

end InputPauseTable

end PrimeAgent.InputPause

/-! ## The input-pause leases of the supervisor

The supervisor records which connection holds which pause on which worker. Every command of a connection is a task of
its own, which other tasks may overtake wherever it awaits; so is the cleanup when the connection has left.
-/
namespace PrimeAgent.InputPause

structure SupervisorPauseEntry where
  ownerConnectionId : String
  workerId : String
  activeSessionId : String
  requestedActiveSessionId : String
  leaseKey : String
deriving DecidableEq

/-- How far a connection is in leaving: its commands are read, or no longer, or its leases are being released. -/
inductive Phase where
  | connected | leaving | swept
deriving DecidableEq

structure ClientConnectionState where
  pauseEpoch : Nat
  detachingSessions : List String
  phase : Phase

def ClientConnectionState.isDetaching (connection : ClientConnectionState) (activeSessionId : String) : Bool :=
  activeSessionId ∈ connection.detachingSessions

def ClientConnectionState.markDetaching (connection : ClientConnectionState) (sessions : List String) :
    ClientConnectionState :=
  { connection with detachingSessions := connection.detachingSessions ++ sessions }

def ClientConnectionState.clearDetaching (connection : ClientConnectionState) (sessions : List String) :
    ClientConnectionState :=
  { connection with detachingSessions := connection.detachingSessions.filter (· ∉ sessions) }

def ClientConnectionState.bumpPauseEpoch (connection : ClientConnectionState) : ClientConnectionState :=
  { connection with pauseEpoch := connection.pauseEpoch + 1 }

structure Worker where
  created : Bool
  pauses : InputPauseTable

inductive Reply where
  | failure (error : String)
  | paused (pauseId : String)
  | success

/-! ## Tasks -/

inductive Task where
  | acquire (activeSessionId leaseKey clientId : String)
  | acquireResolving (activeSessionId leaseKey clientId : String)
  | acquireDedupe (activeSessionId leaseKey clientId workerId : String)
  | acquireRouted (activeSessionId leaseKey clientId workerId : String) (epoch : Nat)
  | acquireAnswered (activeSessionId leaseKey workerId pauseId : String) (epoch : Nat)
  | acquireRecord (activeSessionId leaseKey workerId pauseId : String) (invalidated : Bool)
  | release (activeSessionId pauseId : String)
  | releaseRouted (pauseId : String) (entry : SupervisorPauseEntry)
  | releaseAnswered (pauseId : String) (error : Option String)
  | detach (activeSessionId : Option String) (clientId : String)
  | detachRouted (clientId : String) (workers sessions : List String)
  | reattach (activeSessionId targetActiveSessionId : String)
  | reattachRouted (activeSessionId targetActiveSessionId : String)
  | disconnect (clientId : String) (workers : List String)
  | sweep (sessions : List String) (final : Bool)
  | releasing (entries : List (String × SupervisorPauseEntry))
  | released (pauseId : String) (rest : List (String × SupervisorPauseEntry))

def Task.holdsLeases : Task → Bool
  | .releaseRouted .. => true
  | .releaseAnswered .. => true
  | _ => false

inductive Command where
  | acquireSessionInputPause (activeSessionId leaseKey clientId : String)
  | releaseSessionInputPause (activeSessionId pauseId : String)
  | detach (activeSessionId : Option String) (clientId : String)
  | reattach (activeSessionId targetActiveSessionId : String)

def Command.task : Command → Task
  | .acquireSessionInputPause activeSessionId leaseKey clientId => .acquire activeSessionId leaseKey clientId
  | .releaseSessionInputPause activeSessionId pauseId => .release activeSessionId pauseId
  | .detach activeSessionId clientId => .detach activeSessionId clientId
  | .reattach activeSessionId targetActiveSessionId => .reattach activeSessionId targetActiveSessionId

structure Supervisor where
  workers : String → Worker
  leases : List (String × SupervisorPauseEntry)
  connections : String → ClientConnectionState
  tasks : List (String × Task)
  /-- Every pause that was ever held, its id, worker and lease. Ids are unique. -/
  held : List (String × String × InputPauseEntry)

def Supervisor.start : Supervisor :=
  { workers := fun _ => { created := false, pauses := [] }, leases := []
    connections := fun _ => { pauseEpoch := 0, detachingSessions := [], phase := .connected }, tasks := [], held := [] }

namespace Supervisor

def setWorker (s : Supervisor) (workerId : String) (worker : Worker) : Supervisor :=
  { s with workers := fun id => if id = workerId then worker else s.workers id }

def setPauses (s : Supervisor) (workerId : String) (pauses : InputPauseTable) : Supervisor :=
  s.setWorker workerId { s.workers workerId with pauses }

def setConnection (s : Supervisor) (connectionId : String) (connection : ClientConnectionState) : Supervisor :=
  { s with connections := fun id => if id = connectionId then connection else s.connections id }

def leasesLocked (s : Supervisor) : Bool :=
  s.tasks.any (·.2.holdsLeases)

def insertLease (s : Supervisor) (pauseId : String) (entry : SupervisorPauseEntry) : Supervisor :=
  { s with leases := s.leases.filter (·.1 ≠ pauseId) ++ [(pauseId, entry)] }

def removeLease (s : Supervisor) (pauseId : String) : Supervisor :=
  { s with leases := s.leases.filter (·.1 ≠ pauseId) }

def findLease (s : Supervisor) (pauseId : String) : Option SupervisorPauseEntry :=
  (s.leases.find? (·.1 = pauseId)).map (·.2)

def releaseOnWorker (s : Supervisor) (pauseId : String) (entry : SupervisorPauseEntry) : ReleaseOutcome × Supervisor :=
  let (outcome, pauses) :=
    (s.workers entry.workerId).pauses.release pauseId entry.ownerConnectionId entry.activeSessionId
  (outcome, s.setPauses entry.workerId pauses)

def detachOnWorker (s : Supervisor) (clientId workerId : String) : Supervisor :=
  s.setPauses workerId ((s.workers workerId).pauses.releaseAllForOwner clientId)

end Supervisor

/-! ## The handlers -/

/-- What the code of the task leaves open: which worker a selector resolves to and which a detach is routed to, whether a
client's request is refused, and the next unique id. -/
structure Chance where
  resolved : Option String
  workers : List String
  refused : Bool
  newId : String

inductive Next where
  | task (task : Task)
  | reply (reply : Reply)
  | done

def Next.tasks (connectionId : String) : Next → List (String × Task)
  | .task next => [(connectionId, next)]
  | _ => []

def detachingError (activeSessionId : String) : String :=
  "Session is detaching: " ++ activeSessionId

def overloadedError (workerId : String) : String :=
  "Session worker " ++ workerId ++ " is overloaded; retry later"

def initializingError : String :=
  "Session is still initializing"

def ownershipError (pauseId : String) : String :=
  "Session input pause is owned by another client: " ++ pauseId

/-- `none` where the task cannot go on. -/
def Task.advance (residents : List String) (connectionId : String) (chance : Chance) (s : Supervisor) :
    Task → Option (Supervisor × Next)
  | .acquire activeSessionId leaseKey clientId =>
    if (s.connections connectionId).isDetaching activeSessionId then
      some (s, .reply (.failure (detachingError activeSessionId)))
    else some (s, .task (.acquireResolving activeSessionId leaseKey clientId))
  | .acquireResolving activeSessionId leaseKey clientId =>
    match chance.resolved with
    | none => some (s, .reply (.failure ("Unknown active session: " ++ activeSessionId)))
    | some workerId =>
      if workerId ∉ residents then none
      else if (s.connections connectionId).isDetaching activeSessionId ∨
          (s.connections connectionId).isDetaching workerId then
        some (s, .reply (.failure (detachingError activeSessionId)))
      else some (s, .task (.acquireDedupe activeSessionId leaseKey clientId workerId))
  | .acquireDedupe activeSessionId leaseKey clientId workerId =>
    if s.leasesLocked then none
    else match s.leases.find? fun lease => lease.2.ownerConnectionId = connectionId ∧ lease.2.workerId = workerId ∧
        lease.2.activeSessionId = workerId ∧ lease.2.leaseKey = leaseKey with
    | some (pauseId, _) => some (s, .reply (.paused pauseId))
    | none => some (s,
        .task (.acquireRouted activeSessionId leaseKey clientId workerId (s.connections connectionId).pauseEpoch))
  | .acquireRouted activeSessionId leaseKey clientId workerId epoch =>
    if chance.refused then
      some (s, .reply (.failure (overloadedError workerId)))
    else if (s.workers workerId).created = false then some (s, .reply (.failure initializingError))
    else if s.held.any (·.1 = chance.newId) then none
    else
      let entry : InputPauseEntry :=
        { activeSessionId := workerId, ownerClientId := connectionId, leaseKey := [connectionId, clientId, leaseKey] }
      let (pauseId, pauses) := (s.workers workerId).pauses.acquire chance.newId entry
      some ({ s.setPauses workerId pauses with held := s.held ++ [(chance.newId, workerId, entry)] },
        .task (.acquireAnswered activeSessionId leaseKey workerId pauseId epoch))
  | .acquireAnswered activeSessionId leaseKey workerId pauseId epoch =>
    some (s, .task (.acquireRecord activeSessionId leaseKey workerId pauseId
      ((s.connections connectionId).pauseEpoch ≠ epoch)))
  | .acquireRecord activeSessionId leaseKey workerId pauseId invalidated =>
    if s.leasesLocked then none
    else
      some (s.insertLease pauseId
          { ownerConnectionId := connectionId, workerId, activeSessionId := workerId
            requestedActiveSessionId := activeSessionId, leaseKey },
        .reply (if invalidated then
          .failure "Session input pause acquisition was invalidated before completion" else .paused pauseId))
  | .release activeSessionId pauseId =>
    if s.leasesLocked then none
    else match s.findLease pauseId with
    | none => some (s, .reply .success)
    | some entry =>
      if entry.ownerConnectionId ≠ connectionId then
        some (s, .reply (.failure (ownershipError pauseId)))
      else if activeSessionId ≠ entry.activeSessionId ∧ activeSessionId ≠ entry.requestedActiveSessionId then
        some (s, .reply (.failure ("Session input pause belongs to another session: " ++ pauseId)))
      else if entry.workerId ∉ residents then some (s.removeLease pauseId, .reply .success)
      else some (s, .task (.releaseRouted pauseId entry))
  | .releaseRouted pauseId entry =>
    if chance.refused then some (s, .task (.releaseAnswered pauseId (some (overloadedError entry.workerId))))
    else if (s.workers entry.workerId).created = false then
      some (s, .task (.releaseAnswered pauseId (some initializingError)))
    else
      let (outcome, s) := s.releaseOnWorker pauseId entry
      some (s, .task (.releaseAnswered pauseId
        (if outcome = .ownedByAnotherClient then some (ownershipError pauseId) else none)))
  | .releaseAnswered pauseId none => some (s.removeLease pauseId, .reply .success)
  | .releaseAnswered _ (some error) => some (s, .reply (.failure error))
  | .detach activeSessionId clientId =>
    let sessions := match activeSessionId with
      | some selector => [selector]
      | none => chance.workers
    some (s.setConnection connectionId (((s.connections connectionId).markDetaching sessions).bumpPauseEpoch),
      .task (.detachRouted clientId chance.workers sessions))
  | .detachRouted clientId (workerId :: workers) sessions =>
    some (s.detachOnWorker clientId workerId, .task (.detachRouted clientId workers sessions))
  | .detachRouted _ [] sessions =>
    if chance.refused then some (s, .reply .success) else some (s, .task (.sweep sessions false))
  | .reattach activeSessionId targetActiveSessionId =>
    some (s, .task (.reattachRouted activeSessionId targetActiveSessionId))
  | .reattachRouted activeSessionId targetActiveSessionId =>
    some (s.setConnection connectionId ((s.connections connectionId).clearDetaching
        ([activeSessionId, targetActiveSessionId] ++ chance.resolved.toList)), .reply .success)
  | .disconnect clientId (workerId :: workers) =>
    some (s.detachOnWorker clientId workerId, .task (.disconnect clientId workers))
  | .disconnect _ [] =>
    some (s.setConnection connectionId (s.connections connectionId).bumpPauseEpoch, .task (.sweep [] true))
  | .sweep sessions final =>
    if s.leasesLocked then none
    else
      let entries := s.leases.filter fun lease => lease.2.ownerConnectionId = connectionId ∧
        (sessions = [] ∨ lease.2.activeSessionId ∈ sessions ∨ lease.2.requestedActiveSessionId ∈ sessions)
      let phase := if final then .swept else (s.connections connectionId).phase
      some (s.setConnection connectionId { s.connections connectionId with phase }, .task (.releasing entries))
  | .releasing [] => some (s, .done)
  | .releasing ((pauseId, entry) :: rest) =>
    -- The record goes whatever the worker answers, and also where there is no worker.
    if entry.workerId ∈ residents ∧ (s.workers entry.workerId).created then
      some ((s.releaseOnWorker pauseId entry).2, .task (.released pauseId rest))
    else some (s, .task (.released pauseId rest))
  | .released pauseId rest =>
    if s.leasesLocked then none else some (s.removeLease pauseId, .task (.releasing rest))

/-! ## Runs -/

/-- One step: a connected client sends a command or leaves, a worker's session is created, or an allowed task moves. -/
inductive Step (residents : List String) (allowed : Supervisor → String → Task → Prop) :
    Supervisor → Supervisor → Prop where
  | command {s : Supervisor} (connectionId : String) (command : Command)
      (hConnected : (s.connections connectionId).phase = .connected) :
      Step residents allowed s { s with tasks := s.tasks ++ [(connectionId, command.task)] }
  | disconnect {s : Supervisor} (connectionId clientId : String) (workers : List String)
      (hConnected : (s.connections connectionId).phase = .connected) :
      Step residents allowed s
        { s.setConnection connectionId { s.connections connectionId with phase := .leaving } with
          tasks := s.tasks ++ [(connectionId, .disconnect clientId workers)] }
  | created {s : Supervisor} (workerId : String) :
      Step residents allowed s (s.setWorker workerId { s.workers workerId with created := true })
  | task {s s' : Supervisor} {connectionId : String} {task : Task} {next : Next}
      {before after : List (String × Task)} (chance : Chance) (hTasks : s.tasks = before ++ (connectionId, task) :: after)
      (hAllowed : allowed s connectionId task)
      (hAdvance : task.advance residents connectionId chance s = some (s', next)) :
      Step residents allowed s { s' with tasks := before ++ (next.tasks connectionId ++ after) }

end PrimeAgent.InputPause
