import PrimeAgent.Cron.Schedule
import PrimeAgent.Lib.HashMap
import PrimeAgent.Lib.Transaction

/-! # The state of the cron jobs

Jobs and the dispatches of those that have been claimed, as one state file holds them, and what claiming,
recording and recovering make of them.
-/
namespace PrimeAgent

inductive JobStatus where
  | active
  | paused
  | completed
  | cancelled
deriving DecidableEq

/-- `Active | Paused`. -/
def JobStatus.isLive : JobStatus → Bool
  | active | paused => true
  | completed | cancelled => false

inductive DeliveryMode where
  | steer
  | followUp
deriving DecidableEq

structure AgentCronJob where
  id : String
  status : JobStatus
  source : Option String
  runtimeKind : Option String
  deliveryMode : Option DeliveryMode
  activeSessionId : String
  sessionId : String
  sessionFile : String
  cwd : String
  label : Option String
  prompt : String
  schedule : AgentCronSchedule
  createdAt : String
  updatedAt : String
  nextRunAt : Option String
  lastRunAt : Option String
  lastSkippedAt : Option String
  lastError : Option String
  runCount : Nat
deriving DecidableEq

structure AgentCronDispatchRecord where
  id : String
  jobId : String
  claimedAt : String
  scheduledFor : String
deriving DecidableEq

structure AgentCronDispatch where
  id : String
  job : AgentCronJob

structure CronJobsState where
  jobs : List AgentCronJob
  dispatches : List AgentCronDispatchRecord

def isHeartbeatCronJob (job : AgentCronJob) : Bool :=
  job.source = some "heartbeat" || job.source = some "rlm_heartbeat"

def isDueJob (job : AgentCronJob) (now : Nat) : Bool :=
  job.status = .active && (job.nextRunAt.bind parseIsoMillis).any (· ≤ now)

def isAtLeastAsFresh (candidate current : AgentCronJob) : Bool :=
  match parseIsoMillis current.updatedAt with
  | none => true
  | some currentTime => match parseIsoMillis candidate.updatedAt with
    | none => false
    | some candidateTime => currentTime ≤ candidateTime

def mergeFreshJob (merged : HashMap String AgentCronJob) (job : AgentCronJob) : HashMap String AgentCronJob :=
  if (merged.lookup job.id).all (isAtLeastAsFresh job) then merged.insert job.id job else merged

def mergeFreshJobs (order : IterationOrder) (currentJobs nextJobs : List AgentCronJob) : List AgentCronJob :=
  HashMap.values order
    (nextJobs.foldl mergeFreshJob (currentJobs.foldl (fun merged job => merged.insert job.id job) ∅))

/-- What a mutation of a state has its caller know: the dispatches it returns and the jobs it has changed. -/
structure Answer where
  dispatches : List AgentCronDispatch
  jobs : List AgentCronJob

abbrev Mutation := CronJobsState → CronJobsState × Answer

/-- The job and its new dispatch, where it is due and has none; `uuid` is the fresh id that is drawn for it. -/
def claimJob (uuid : String) (claimedJobIds : List String) (dueAt claimedAt : Nat) (job : AgentCronJob) :
    AgentCronJob × Option AgentCronDispatchRecord :=
  if isDueJob job dueAt then
    let claimedIso := isoFromMillis claimedAt
    let rolled := { job with nextRunAt := rolledRunAt job.schedule claimedAt, updatedAt := claimedIso }
    if claimedJobIds.contains job.id then ({ rolled with lastSkippedAt := some claimedIso }, none)
    else (rolled, some ⟨uuid, job.id, claimedIso, job.nextRunAt.getD ""⟩)
  else (job, none)

def claimDueInState (uuids : String → String) (dueAt claimedAt : Nat) : Mutation := fun state =>
  let claimedJobIds := state.dispatches.map (·.jobId)
  let claimed := state.jobs.map fun job => claimJob (uuids job.id) claimedJobIds dueAt claimedAt job
  (⟨claimed.map (·.1), state.dispatches ++ claimed.filterMap (·.2)⟩,
    ⟨claimed.filterMap fun (job, dispatch) => dispatch.map fun dispatch => ⟨dispatch.id, job⟩, []⟩)

def interruptedJob (now : Nat) (job : AgentCronJob) : AgentCronJob :=
  { job with
    status := if job.schedule.kind = .once then .completed else job.status
    lastError := some "Interrupted before scheduled operation completion"
    updatedAt := isoFromMillis now }

def recoverInterruptedInState (dispatchIds : Option (List String)) (now : Nat) : Mutation := fun state =>
  let isInterrupted (dispatch : AgentCronDispatchRecord) := dispatchIds.all (·.contains dispatch.id)
  let interruptedIds := (state.dispatches.filter isInterrupted).map (·.jobId)
  let recovers (job : AgentCronJob) := interruptedIds.contains job.id && job.status = .active
  (⟨state.jobs.map fun job => if recovers job then interruptedJob now job else job,
      state.dispatches.filter fun dispatch => !isInterrupted dispatch⟩,
    ⟨[], (state.jobs.filter recovers).map (interruptedJob now)⟩)

structure DispatchResultOptions where
  now : Nat
  outcome : String
  error : Option String

def DispatchResultOptions.isSkip (result : DispatchResultOptions) : Bool :=
  result.outcome = "skipped" && result.error = none

def dispatchedJob (result : DispatchResultOptions) (job : AgentCronJob) : AgentCronJob :=
  let nowIso := isoFromMillis result.now
  let status := if job.schedule.kind = .once then .completed else job.status
  if result.isSkip then
    { job with
      status := status
      nextRunAt := rolledRunAt job.schedule result.now
      lastSkippedAt := some nowIso
      updatedAt := nowIso }
  else
    { job with
      status := status
      lastRunAt := some nowIso
      lastError := result.error
      runCount := job.runCount + 1
      updatedAt := nowIso }

/-- The mutation of `record_dispatch_result`: the first dispatch of the id decides on the job, all of it go. -/
def recordDispatchInState (dispatchId : String) (result : DispatchResultOptions) : Mutation := fun state =>
  match state.dispatches.find? (·.id == dispatchId) with
  | none => (state, ⟨[], []⟩)
  | some dispatch =>
    let records (job : AgentCronJob) := job.id = dispatch.jobId && job.status = .active
    (⟨state.jobs.map fun job => if records job then dispatchedJob result job else job,
        state.dispatches.filter (·.id != dispatchId)⟩,
      ⟨[], (state.jobs.filter records).map (dispatchedJob result)⟩)

def defers (id : String) (untilMs : Nat) (job : AgentCronJob) : Bool :=
  job.id = id && job.status = .active && !(job.nextRunAt.bind parseIsoMillis).any (untilMs ≤ ·)

def deferredJob (untilMs now : Nat) (job : AgentCronJob) : AgentCronJob :=
  { job with nextRunAt := some (isoFromMillis untilMs), updatedAt := isoFromMillis now }

/-- The mutation of `defer_next_run`. -/
def deferInState (id : String) (untilMs now : Nat) : Mutation := fun state =>
  ({ state with jobs := state.jobs.map fun job => if defers id untilMs job then deferredJob untilMs now job else job },
    ⟨[], (state.jobs.filter (defers id untilMs)).map (deferredJob untilMs now)⟩)

end PrimeAgent
