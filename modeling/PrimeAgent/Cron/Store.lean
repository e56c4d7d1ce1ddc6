import PrimeAgent.Cron.State

/-! # The cron job store

`AgentCronJobStore`: each operation as a client of the store. Most read the jobs, change them and write them back
unlocked; the others are one mutation under the lock.
-/
namespace PrimeAgent

abbrev StoreTransaction (ρ : Type) :=
  Transaction (List AgentCronJob) (List AgentCronJob) Mutation Answer ρ

structure CreateAgentCronJobInput where
  activeSessionId : String
  sessionId : String
  sessionFile : String
  cwd : String
  label : Option String
  prompt : String
  scheduleText : String
  source : Option String
  runtimeKind : Option String
  deliveryMode : Option DeliveryMode
  /-- The time that is given, or else the clock's. -/
  now : Nat

structure SessionBinding where
  activeSessionId : String
  sessionId : String
  sessionFile : String
  cwd : String

structure CancelJobsFilter where
  activeSessionId : Option String
  sessionId : Option String
  sessionFile : Option String

inductive HeartbeatManagementAction where
  | pause
  | resume
  | stop
deriving DecidableEq

inductive RlmHeartbeatStatusUpdate where
  | pause
  | resume

structure RlmHeartbeatUpdate where
  label : Option String
  prompt : Option String
  scheduleText : Option String
  status : Option RlmHeartbeatStatusUpdate
  deliveryMode : Option DeliveryMode
  now : Nat

structure RecordRunOptions where
  now : Nat
  error : Option String

def defaultHeartbeatDeliveryMode : DeliveryMode :=
  .steer

/-- The components of a path, joined again without `.` and `..`. -/
def resolvePath (path : String) : String :=
  let components := (path.toList.splitOn '/').foldl (fun components component =>
    if component = [] ∨ component = ['.'] then components
    else if component = ['.', '.'] then components.dropLast
    else components ++ [component]) []
  String.ofList ('/' :: (List.intersperse ['/'] components).flatten)

def normalizeOptionalLabel (label : Option String) : Option String :=
  (label.map fun label => trim label.toList).bind fun trimmed =>
    if trimmed.isEmpty then none else some (String.ofList trimmed)

namespace AgentCronJob

def cancelledAt (now : Nat) (job : AgentCronJob) : AgentCronJob :=
  { job with status := .cancelled, nextRunAt := none, updatedAt := isoFromMillis now }

def pausedAt (now : Nat) (job : AgentCronJob) : AgentCronJob :=
  { job with status := .paused, nextRunAt := none, updatedAt := isoFromMillis now }

def activeAt (now : Nat) (job : AgentCronJob) : AgentCronJob :=
  { job with status := .active, updatedAt := isoFromMillis now }

def runningAt (nextRunAt : Nat) (job : AgentCronJob) : AgentCronJob :=
  { job with nextRunAt := some (isoFromMillis nextRunAt) }

def boundTo (input : SessionBinding) (job : AgentCronJob) : AgentCronJob :=
  { job with
    activeSessionId := input.activeSessionId
    sessionId := input.sessionId
    sessionFile := input.sessionFile
    cwd := input.cwd }

def isLiveHeartbeat (activeSessionId : String) (job : AgentCronJob) : Bool :=
  job.activeSessionId = activeSessionId && job.source = some "heartbeat" && job.status.isLive

def isRlmHeartbeat (activeSessionId : String) (job : AgentCronJob) : Bool :=
  job.activeSessionId = activeSessionId && job.source = some "rlm_heartbeat"

end AgentCronJob

def rewriteJobs (p : AgentCronJob → Bool) (f : AgentCronJob → AgentCronJob) (jobs : List AgentCronJob) :
    List AgentCronJob × List AgentCronJob :=
  (jobs.map fun job => if p job then f job else job, (jobs.filter p).map f)

namespace AgentCronJobStore

def updateWhere (p : AgentCronJob → Bool) (f : AgentCronJob → AgentCronJob) : StoreTransaction (List AgentCronJob) :=
  .read fun jobs =>
    let (jobs, changed) := rewriteJobs p f jobs
    if changed.isEmpty then .done [] else .write jobs changed

section Jobs

def newJob (uuid : String) (input : CreateAgentCronJobInput) (source : String) (deliveryMode : Option DeliveryMode)
    (parsed : AgentCronSchedule × Nat) : AgentCronJob where
  id := uuid
  status := .active
  source := some source
  runtimeKind := input.runtimeKind
  deliveryMode := deliveryMode
  activeSessionId := input.activeSessionId
  sessionId := input.sessionId
  sessionFile := input.sessionFile
  cwd := input.cwd
  label := normalizeOptionalLabel input.label
  prompt := String.ofList (trim input.prompt.toList)
  schedule := parsed.1
  createdAt := isoFromMillis input.now
  updatedAt := isoFromMillis input.now
  nextRunAt := some (isoFromMillis parsed.2)
  lastRunAt := none
  lastSkippedAt := none
  lastError := none
  runCount := 0

def create (uuid : String) (input : CreateAgentCronJobInput) : StoreTransaction (Except String AgentCronJob) :=
  if (trim input.prompt.toList).isEmpty then .done (.error "Cron job prompt cannot be empty")
  else match parseAgentCronSchedule input.scheduleText input.now with
    | .error message => .done (.error message)
    | .ok parsed =>
      let job := newJob uuid input (input.source.getD "cron") none parsed
      .read fun jobs => .write (jobs ++ [job]) (.ok job)

def rebinds (input : SessionBinding) (job : AgentCronJob) : Bool :=
  let sameFile := resolvePath job.sessionFile = resolvePath input.sessionFile
  (job.activeSessionId = input.activeSessionId || sameFile) &&
    !(job.activeSessionId = input.activeSessionId && job.sessionId = input.sessionId && sameFile && job.cwd = input.cwd)

def rebindSessionJobs (input : SessionBinding) : StoreTransaction (List AgentCronJob) :=
  updateWhere (rebinds input) (·.boundTo input)

def CancelJobsFilter.matches (input : CancelJobsFilter) (job : AgentCronJob) : Bool :=
  input.activeSessionId.any (· = job.activeSessionId) || input.sessionId.any (· = job.sessionId) ||
    input.sessionFile.any fun file => resolvePath job.sessionFile = resolvePath file

def cancelJobsForSession (input : CancelJobsFilter) (now : Nat) : StoreTransaction (List AgentCronJob) :=
  updateWhere (fun job => CancelJobsFilter.matches input job && job.status.isLive) (·.cancelledAt now)

def cancel (id : String) (now : Nat) : StoreTransaction (Option AgentCronJob) :=
  (updateWhere (fun job => job.id = id && job.status ≠ .cancelled) (·.cancelledAt now)).map List.getLast?

def ranJob (result : RecordRunOptions) (job : AgentCronJob) : AgentCronJob :=
  if job.status ≠ .active then job
  else
    { job with
      status := if job.schedule.kind = .once then .completed else .active
      nextRunAt := match job.schedule.kind with
        | .cron => rolledRunAt job.schedule (asU64 (result.now + 1))
        | .interval => rolledRunAt job.schedule result.now
        | .once => none
      lastRunAt := some (isoFromMillis result.now)
      lastError := result.error
      runCount := job.runCount + 1
      updatedAt := isoFromMillis result.now }

def recordRunResult (id : String) (result : RecordRunOptions) : StoreTransaction (Option AgentCronJob) :=
  (updateWhere (·.id = id) (ranJob result)).map List.getLast?

def skippedJob (now : Nat) (job : AgentCronJob) : AgentCronJob :=
  if job.status ≠ .active then job
  else
    { job with
      nextRunAt := rolledRunAt job.schedule now
      lastSkippedAt := some (isoFromMillis now)
      updatedAt := isoFromMillis now }

def recordSkipResult (id : String) (now : Nat) : StoreTransaction (Option AgentCronJob) :=
  (updateWhere (·.id = id) (skippedJob now)).map List.getLast?

/-- `clock` is what `now_millis` reads. -/
def deferNextRun (id : String) (untilMs clock : Nat) : StoreTransaction (Option AgentCronJob) :=
  .mutate (deferInState id untilMs clock) fun answer => answer.jobs.getLast?

def claimDue (uuids : String → String) (dueAt claimedAt : Nat) : StoreTransaction (List AgentCronDispatch) :=
  .mutate (claimDueInState uuids dueAt claimedAt) Answer.dispatches

def recordDispatchResult (dispatchId : String) (result : DispatchResultOptions) :
    StoreTransaction (Option AgentCronJob) :=
  .mutate (recordDispatchInState dispatchId result) fun answer => answer.jobs.getLast?

def recoverInterruptedDispatches (now : Nat) : StoreTransaction (List AgentCronJob) :=
  .mutate (recoverInterruptedInState none now) Answer.jobs

def recoverInterruptedDispatchesById (dispatchIds : List String) (now : Nat) : StoreTransaction (List AgentCronJob) :=
  .mutate (recoverInterruptedInState (some dispatchIds) now) Answer.jobs

end Jobs

section Heartbeats

/-- `max_by_key` over the session's live heartbeats: the last one of the latest stamp. -/
def getHeartbeat (activeSessionId : String) (jobs : List AgentCronJob) : Option AgentCronJob :=
  (jobs.filter (·.isLiveHeartbeat activeSessionId)).foldl (fun best? job =>
    match best? with
    | none => some job
    | some best =>
      if (parseIsoMillis best.updatedAt).getD 0 ≤ (parseIsoMillis job.updatedAt).getD 0 then some job else some best) none

def createHeartbeat (uuid : String) (input : CreateAgentCronJobInput) : StoreTransaction (Except String AgentCronJob) :=
  match parseAgentCronSchedule input.scheduleText input.now with
  | .error message => .done (.error message)
  | .ok parsed =>
    if parsed.1.kind = .once then .done (.error "Heartbeat schedule must be recurring")
    else if (trim input.prompt.toList).isEmpty then .done (.error "Heartbeat instruction cannot be empty")
    else
      let job := newJob uuid input "heartbeat" (some (input.deliveryMode.getD defaultHeartbeatDeliveryMode)) parsed
      .read fun jobs =>
        let (existing, _) := rewriteJobs (·.isLiveHeartbeat input.activeSessionId) (·.cancelledAt input.now) jobs
        .write (existing ++ [job]) (.ok job)

/-- The session's heartbeat is looked up in one read and changed in a second one, whatever has become of it. -/
def changeHeartbeat (activeSessionId : String) (f : AgentCronJob → AgentCronJob) :
    StoreTransaction (Option AgentCronJob) :=
  .read fun jobs =>
    match getHeartbeat activeSessionId jobs with
    | none => .done none
    | some current => .read fun jobs =>
      let (jobs, changed) := rewriteJobs (·.id = current.id) f jobs
      .write jobs changed.getLast?

def pauseHeartbeat (activeSessionId : String) (now : Nat) : StoreTransaction (Option AgentCronJob) :=
  changeHeartbeat activeSessionId (·.pausedAt now)

def resumeHeartbeat (activeSessionId : String) (now : Nat) : StoreTransaction (Except String (Option AgentCronJob)) :=
  .read fun jobs =>
    match getHeartbeat activeSessionId jobs with
    | none => .done (.ok none)
    | some current =>
      match nextRunAtForSchedule current.schedule now with
      | .error message => .done (.error message)
      | .ok none => .done (.error "Heartbeat schedule must be recurring")
      | .ok (some nextRunAt) => .read fun jobs =>
        let (jobs, resumed) := rewriteJobs (·.id = current.id) (fun job => (job.activeAt now).runningAt nextRunAt) jobs
        .write jobs (.ok resumed.getLast?)

def clearHeartbeat (activeSessionId : String) (now : Nat) : StoreTransaction (Option AgentCronJob) :=
  changeHeartbeat activeSessionId (·.cancelledAt now)

def managedJob (action : HeartbeatManagementAction) (now : Nat) (job : AgentCronJob) : AgentCronJob :=
  match action with
  | .pause => job.pausedAt now
  | .stop => job.cancelledAt now
  | .resume => job.activeAt now

def manages (activeSessionId id : String) (job : AgentCronJob) : Bool :=
  job.id = id && job.activeSessionId = activeSessionId && isHeartbeatCronJob job && job.status.isLive

def manageHeartbeat (activeSessionId id : String) (action : HeartbeatManagementAction) (now : Nat) :
    StoreTransaction (Except String (Option AgentCronJob)) :=
  .read fun jobs =>
    let (jobs, updated) := rewriteJobs (manages activeSessionId id) (managedJob action now) jobs
    match updated.getLast? with
    | none => .done (.ok none)
    | some updatedJob =>
      if action = .resume then
        match nextRunAtForSchedule updatedJob.schedule now with
        | .error message => .done (.error message)
        | .ok none => .done (.error "Heartbeat schedule must be recurring")
        | .ok (some nextRunAt) =>
          let updatedJob := updatedJob.runningAt nextRunAt
          .write (jobs.map fun job => if job.id = updatedJob.id then updatedJob else job) (.ok (some updatedJob))
      else .write jobs (.ok (some updatedJob))

end Heartbeats

section RlmHeartbeats

def createRlmHeartbeat (uuid : String) (input : CreateAgentCronJobInput) :
    StoreTransaction (Except String AgentCronJob) :=
  match parseAgentCronSchedule input.scheduleText input.now with
  | .error message => .done (.error message)
  | .ok parsed =>
    if parsed.1.kind = .once then .done (.error "RLM heartbeat schedule must be recurring")
    else if (trim input.prompt.toList).isEmpty then .done (.error "RLM heartbeat instruction cannot be empty")
    else
      let job := newJob uuid input "rlm_heartbeat" (some (input.deliveryMode.getD defaultHeartbeatDeliveryMode)) parsed
      .read fun jobs => .write (jobs ++ [job]) (.ok job)

def promptedJob (prompt : Option String) (job : AgentCronJob) : Option AgentCronJob :=
  match prompt with
  | none => some job
  | some prompt =>
    let prompt := trim prompt.toList
    if prompt.isEmpty then none else some { job with prompt := String.ofList prompt }

def scheduledJob (scheduleText : Option String) (now : Nat) (job : AgentCronJob) : Option AgentCronJob :=
  match scheduleText with
  | none => some job
  | some scheduleText => match parseAgentCronSchedule scheduleText now with
    | .error _ => none
    | .ok (schedule, nextRunAt) =>
      if schedule.kind = .once then none
      else some { job with
        schedule := schedule
        nextRunAt := if job.status = .paused then none else some (isoFromMillis nextRunAt) }

def statusedJob (status : Option RlmHeartbeatStatusUpdate) (now : Nat) (job : AgentCronJob) : AgentCronJob :=
  match status with
  | some .pause => { job with status := .paused, nextRunAt := none }
  | some .resume => { job with status := .active, nextRunAt := rolledRunAt job.schedule now }
  | none => job

def labelledJob (update : RlmHeartbeatUpdate) (job : AgentCronJob) : AgentCronJob :=
  { job with
    label := if update.label.isSome then normalizeOptionalLabel update.label else job.label
    deliveryMode := update.deliveryMode.or job.deliveryMode }

def stampedJob (now : Nat) (job : AgentCronJob) : AgentCronJob :=
  { job with updatedAt := isoFromMillis now }

def updatedRlmHeartbeat (update : RlmHeartbeatUpdate) (job : AgentCronJob) : Option AgentCronJob :=
  if !job.status.isLive then none
  else ((promptedJob update.prompt (labelledJob update job)).bind (scheduledJob update.scheduleText update.now)).map
    fun next => stampedJob update.now (statusedJob update.status update.now next)

def updateRlmHeartbeat (activeSessionId id : String) (update : RlmHeartbeatUpdate) :
    StoreTransaction (Except String (Option AgentCronJob)) :=
  .read fun jobs =>
    let isMatch (job : AgentCronJob) := job.id = id && job.isRlmHeartbeat activeSessionId
    let (jobs', _) := rewriteJobs isMatch (fun job => (updatedRlmHeartbeat update job).getD job) jobs
    let updated := (jobs.filter isMatch).filterMap (updatedRlmHeartbeat update)
    if jobs.any isMatch then
      match updated.getLast? with
      | some updatedJob => .write jobs' (.ok (some updatedJob))
      | none => .done
        (.error "RLM heartbeat update rejected (empty instruction or non-recurring schedule)")
    else .done (.ok none)

def deleteRlmHeartbeat (activeSessionId id : String) (now : Nat) : StoreTransaction (Option AgentCronJob) :=
  (updateWhere (fun job => job.id = id && job.isRlmHeartbeat activeSessionId) (·.cancelledAt now)).map List.getLast?

def cancelRlmHeartbeatsForSession (activeSessionId : String) (now : Nat) : StoreTransaction (List AgentCronJob) :=
  updateWhere (fun job => job.isRlmHeartbeat activeSessionId && job.status.isLive) (·.cancelledAt now)

end RlmHeartbeats

end AgentCronJobStore

/-- `compare_optional_iso`, as "no later than". -/
def isoLe : Option String → Option String → Bool
  | left, right =>
    if left = right then true
    else match left, right with
      | none, _ => false
      | _, none => true
      | some left, some right => (parseIsoMillis left).getD 0 ≤ (parseIsoMillis right).getD 0

/-- `list`, from the jobs of all files. -/
def listJobs (jobs : List AgentCronJob) : List AgentCronJob :=
  jobs.mergeSort fun left right => isoLe left.nextRunAt right.nextRunAt

section SingleFile

def singleFile (order : IterationOrder) : Store CronJobsState (List AgentCronJob) (List AgentCronJob) Mutation Answer where
  view state := state.jobs
  write jobs state := { state with jobs := mergeFreshJobs order state.jobs jobs }
  mutate mutation state := mutation state

end SingleFile

inductive StoreOp where
  | create (uuid : String) (input : CreateAgentCronJobInput)
  | rebindSessionJobs (input : SessionBinding)
  | cancelJobsForSession (input : CancelJobsFilter) (now : Nat)
  | cancel (id : String) (now : Nat)
  | recordRunResult (id : String) (result : RecordRunOptions)
  | recordSkipResult (id : String) (now : Nat)
  | deferNextRun (id : String) (untilMs clock : Nat)
  | claimDue (uuids : String → String) (dueAt claimedAt : Nat)
  | recordDispatchResult (dispatchId : String) (result : DispatchResultOptions)
  | recoverInterruptedDispatches (now : Nat)
  | recoverInterruptedDispatchesById (dispatchIds : List String) (now : Nat)
  | createHeartbeat (uuid : String) (input : CreateAgentCronJobInput)
  | pauseHeartbeat (activeSessionId : String) (now : Nat)
  | resumeHeartbeat (activeSessionId : String) (now : Nat)
  | clearHeartbeat (activeSessionId : String) (now : Nat)
  | manageHeartbeat (activeSessionId id : String) (action : HeartbeatManagementAction) (now : Nat)
  | createRlmHeartbeat (uuid : String) (input : CreateAgentCronJobInput)
  | updateRlmHeartbeat (activeSessionId id : String) (update : RlmHeartbeatUpdate)
  | deleteRlmHeartbeat (activeSessionId id : String) (now : Nat)
  | cancelRlmHeartbeatsForSession (activeSessionId : String) (now : Nat)

inductive StoreResult where
  | jobs (jobs : List AgentCronJob)
  | dispatches (dispatches : List AgentCronDispatch)
  | error (message : String)

namespace StoreResult

def ofOption (job : Option AgentCronJob) : StoreResult :=
  .jobs job.toList

def ofExcept (result : Except String (Option AgentCronJob)) : StoreResult :=
  match result with
  | .ok job => ofOption job
  | .error message => .error message

def ofCreated (result : Except String AgentCronJob) : StoreResult :=
  ofExcept (some <$> result)

end StoreResult

open AgentCronJobStore in
def StoreOp.transaction : StoreOp → StoreTransaction StoreResult
  | .create uuid input => (AgentCronJobStore.create uuid input).map .ofCreated
  | .rebindSessionJobs input => (AgentCronJobStore.rebindSessionJobs input).map .jobs
  | .cancelJobsForSession input now => (AgentCronJobStore.cancelJobsForSession input now).map .jobs
  | .cancel id now => (AgentCronJobStore.cancel id now).map .ofOption
  | .recordRunResult id result => (AgentCronJobStore.recordRunResult id result).map .ofOption
  | .recordSkipResult id now => (AgentCronJobStore.recordSkipResult id now).map .ofOption
  | .deferNextRun id untilMs clock => (AgentCronJobStore.deferNextRun id untilMs clock).map .ofOption
  | .claimDue uuids dueAt claimedAt => (AgentCronJobStore.claimDue uuids dueAt claimedAt).map .dispatches
  | .recordDispatchResult dispatchId result =>
    (AgentCronJobStore.recordDispatchResult dispatchId result).map .ofOption
  | .recoverInterruptedDispatches now => (AgentCronJobStore.recoverInterruptedDispatches now).map .jobs
  | .recoverInterruptedDispatchesById dispatchIds now =>
    (AgentCronJobStore.recoverInterruptedDispatchesById dispatchIds now).map .jobs
  | .createHeartbeat uuid input => (AgentCronJobStore.createHeartbeat uuid input).map .ofCreated
  | .pauseHeartbeat activeSessionId now => (AgentCronJobStore.pauseHeartbeat activeSessionId now).map .ofOption
  | .resumeHeartbeat activeSessionId now => (AgentCronJobStore.resumeHeartbeat activeSessionId now).map .ofExcept
  | .clearHeartbeat activeSessionId now => (AgentCronJobStore.clearHeartbeat activeSessionId now).map .ofOption
  | .manageHeartbeat activeSessionId id action now =>
    (AgentCronJobStore.manageHeartbeat activeSessionId id action now).map .ofExcept
  | .createRlmHeartbeat uuid input => (AgentCronJobStore.createRlmHeartbeat uuid input).map .ofCreated
  | .updateRlmHeartbeat activeSessionId id update =>
    (AgentCronJobStore.updateRlmHeartbeat activeSessionId id update).map .ofExcept
  | .deleteRlmHeartbeat activeSessionId id now =>
    (AgentCronJobStore.deleteRlmHeartbeat activeSessionId id now).map .ofOption
  | .cancelRlmHeartbeatsForSession activeSessionId now =>
    (AgentCronJobStore.cancelRlmHeartbeatsForSession activeSessionId now).map .jobs

end PrimeAgent
