import PrimeAgent.Cron.Merge

/-! # What the operations write

An operation that has read some jobs writes them back one by one, each as it was or changed, with at most one new
job behind them.
-/
namespace PrimeAgent

def Rewrites (R : AgentCronJob → AgentCronJob → Prop) (N : AgentCronJob → Prop) (jobs draft : List AgentCronJob) : Prop :=
  ∃ g extra, draft = jobs.map g ++ extra ∧ (∀ job ∈ jobs, R job (g job)) ∧ (∀ job ∈ extra, N job) ∧ extra.length ≤ 1

def StoreOp.newId : StoreOp → Option String
  | .create uuid _ | .createHeartbeat uuid _ | .createRlmHeartbeat uuid _ => some uuid
  | _ => none

def StoreOp.DrawsNewJob (jobs : List AgentCronJob) (op : StoreOp) : Prop :=
  ∀ uuid, op.newId = some uuid → uuid ∉ jobIds jobs

variable {R : AgentCronJob → AgentCronJob → Prop} {N : AgentCronJob → Prop} {M : Mutation → Prop}
  {jobs : List AgentCronJob} {p : AgentCronJob → Bool} {f : AgentCronJob → AgentCronJob}

theorem Rewrites.of_map {g : AgentCronJob → AgentCronJob} (h : ∀ job ∈ jobs, R job (g job)) :
    Rewrites R N jobs (jobs.map g) :=
  ⟨g, [], (List.append_nil _).symm, h, by simp, Nat.zero_le 1⟩

theorem rewriteJobs_rewrites (hRefl : ∀ job, R job job) (hf : ∀ job ∈ jobs, p job = true → R job (f job)) :
    ∀ job ∈ jobs, R job (if p job then f job else job) := by
  rintro job hMem
  split
  next hp => exact hf job hMem hp
  · exact hRefl job

theorem job_eq_of_id {job job' : AgentCronJob} (hIds : (jobIds jobs).Nodup) (hJob : job ∈ jobs) (hJob' : job' ∈ jobs)
    (hId : job.id = job'.id) : job = job' :=
  List.inj_on_of_nodup_map hIds hJob hJob' hId

theorem getHeartbeat_mem {activeSessionId : String} {current : AgentCronJob}
    (h : AgentCronJobStore.getHeartbeat activeSessionId jobs = some current) :
    current ∈ jobs ∧ current.isLiveHeartbeat activeSessionId = true := by
  rw [← List.mem_filter]
  unfold AgentCronJobStore.getHeartbeat at h
  generalize jobs.filter (·.isLiveHeartbeat activeSessionId) = live at h ⊢
  generalize hNone : none = best? at h
  have hAll : best? = some current ∨ current ∈ live := by
    clear hNone
    induction live generalizing best? with
    | nil => exact Or.inl h
    | cons job live ih =>
      rw [List.foldl_cons] at h
      rcases ih _ h with hBest | hMem
      · cases best? with
        | none =>
          rw [← Option.some.inj hBest]
          exact Or.inr List.mem_cons_self
        | some best =>
          dsimp only at hBest
          split at hBest
          · rw [← Option.some.inj hBest]
            exact Or.inr List.mem_cons_self
          · exact Or.inl hBest
      · exact Or.inr (List.mem_cons_of_mem job hMem)
  exact hAll.resolve_left (by simp [← hNone])

namespace AgentCronJobStore

variable {activeSessionId id uuid : String} {now : Nat} {input : CreateAgentCronJobInput}

theorem updateWhere_rewrites (hRefl : ∀ job, R job job) (hf : ∀ job ∈ jobs, p job = true → R job (f job)) :
    (updateWhere p f).Obeys (· = jobs) (Rewrites R N jobs) M := by
  rintro view rfl
  dsimp only
  split
  · trivial
  · exact .of_map (rewriteJobs_rewrites hRefl hf)

theorem changeHeartbeat_rewrites (hIds : (jobIds jobs).Nodup) (hRefl : ∀ job, R job job)
    (hf : ∀ job ∈ jobs, job.isLiveHeartbeat activeSessionId = true → R job (f job)) :
    (changeHeartbeat activeSessionId f).Obeys (· = jobs) (Rewrites R N jobs) M := by
  rintro view rfl
  dsimp only
  split
  · trivial
  next current hCurrent =>
    rintro view' rfl
    obtain ⟨hMem, hLive⟩ := getHeartbeat_mem hCurrent
    refine .of_map (rewriteJobs_rewrites hRefl ?_)
    rintro job hJob hId
    rw [decide_eq_true_eq] at hId
    obtain rfl := job_eq_of_id hIds hJob hMem hId
    exact hf _ hJob hLive

theorem resumeHeartbeat_rewrites (hIds : (jobIds jobs).Nodup) (hRefl : ∀ job, R job job)
    (hf : ∀ job ∈ jobs, job.isLiveHeartbeat activeSessionId = true → ∀ nextRunAt,
      nextRunAtForSchedule job.schedule now = .ok (some nextRunAt) →
        R job ((job.activeAt now).runningAt nextRunAt)) :
    (resumeHeartbeat activeSessionId now).Obeys (· = jobs) (Rewrites R N jobs) M := by
  rintro view rfl
  dsimp only
  split
  · trivial
  next current hCurrent =>
    obtain ⟨hMem, hLive⟩ := getHeartbeat_mem hCurrent
    split
    · trivial
    · trivial
    next nextRunAt hNext =>
      rintro view' rfl
      refine .of_map (rewriteJobs_rewrites hRefl ?_)
      rintro job hJob hId
      rw [decide_eq_true_eq] at hId
      obtain rfl := job_eq_of_id hIds hJob hMem hId
      exact hf _ hJob hLive nextRunAt hNext

theorem manageHeartbeat_rewrites {action : HeartbeatManagementAction} (hIds : (jobIds jobs).Nodup)
    (hRefl : ∀ job, R job job)
    (hf : ∀ job ∈ jobs, job.activeSessionId = activeSessionId → isHeartbeatCronJob job = true → job.status.isLive = true →
      (action ≠ .resume → R job (managedJob action now job)) ∧
        ∀ nextRunAt, nextRunAtForSchedule job.schedule now = .ok (some nextRunAt) →
          R job ((job.activeAt now).runningAt nextRunAt)) :
    (manageHeartbeat activeSessionId id action now).Obeys (· = jobs) (Rewrites R N jobs) M := by
  rintro view rfl
  dsimp only [rewriteJobs]
  have hMatch : ∀ job, manages activeSessionId id job = true → job.id = id ∧ job.activeSessionId = activeSessionId ∧
      isHeartbeatCronJob job = true ∧ job.status.isLive = true := by
    rintro job hJob
    simpa [manages, and_assoc] using hJob
  split
  · trivial
  next updatedJob hUpdated =>
    obtain ⟨job, hJob, rfl⟩ := List.mem_map.mp (List.mem_of_getLast? hUpdated)
    obtain ⟨hMem, hPasses⟩ := List.mem_filter.mp hJob
    obtain ⟨hId, hSession, hHeartbeat, hLive⟩ := hMatch job hPasses
    obtain ⟨hManaged, hResumed⟩ := hf job hMem hSession hHeartbeat hLive
    split
    next hResume =>
      subst hResume
      split
      · trivial
      · trivial
      next nextRunAt hNext =>
        rw [Transaction.Obeys, List.map_map]
        refine .of_map ?_
        rintro other hOther
        rw [Function.comp_apply]
        by_cases hSame : other.id = job.id
        · obtain rfl := job_eq_of_id hIds hOther hMem hSame
          have hSelf : (managedJob .resume now other).id = ((managedJob .resume now other).runningAt nextRunAt).id := rfl
          rw [if_pos hPasses, if_pos hSelf]
          exact hResumed nextRunAt hNext
        · have hFails : manages activeSessionId id other ≠ true :=
            fun hOther' => hSame ((hMatch other hOther').1.trans hId.symm)
          rw [if_neg hFails]
          exact (if_neg hSame).symm ▸ hRefl other
    next hOther =>
      refine .of_map (rewriteJobs_rewrites hRefl ?_)
      rintro other hMem' hPasses'
      obtain ⟨hId', -, -, -⟩ := hMatch other hPasses'
      obtain rfl := job_eq_of_id hIds hMem' hMem (hId'.trans hId.symm)
      exact hManaged hOther

end AgentCronJobStore

section Operations

/-- A copy that is the same job of the same session, and is live only where the job is. -/
structure Continues (job copy : AgentCronJob) : Prop where
  id : copy.id = job.id
  sessionId : copy.sessionId = job.sessionId
  live : copy.status.isLive = true → job.status.isLive = true

theorem Continues.refl (job : AgentCronJob) : Continues job job :=
  ⟨rfl, rfl, fun hLive => hLive⟩

def ContinuesJobs (mutation : Mutation) : Prop :=
  ∀ state, ∃ g, (mutation state).1.jobs = state.jobs.map g ∧ (∀ job ∈ state.jobs, Continues job (g job)) ∧
    ∀ dispatch ∈ (mutation state).1.dispatches, dispatch ∈ state.dispatches ∨ dispatch.jobId ∈ jobIds state.jobs

theorem continuesJobs_of_map {mutation : Mutation} {p : CronJobsState → AgentCronJob → Bool}
    {f : AgentCronJob → AgentCronJob} (hf : ∀ state job, p state job = true → Continues job (f job))
    (hJobs : ∀ state, (mutation state).1.jobs = state.jobs.map fun job => if p state job then f job else job)
    (hDispatches : ∀ state, ∀ dispatch ∈ (mutation state).1.dispatches, dispatch ∈ state.dispatches) :
    ContinuesJobs mutation := by
  intro state
  refine ⟨_, hJobs state, ?_, fun dispatch hMem => Or.inl (hDispatches state dispatch hMem)⟩
  rintro job -
  split
  next hp => exact hf state job hp
  · exact .refl job

variable {job copy : AgentCronJob} {uuid : String} {op : StoreOp}

theorem Continues.of_active (hActive : job.status = .active) (hId : copy.id = job.id)
    (hSession : copy.sessionId = job.sessionId) : Continues job copy := by
  refine ⟨hId, hSession, fun _ => ?_⟩
  rw [hActive]
  rfl

theorem claimJob_continues {claimedJobIds : List String} {dueAt claimedAt : Nat} {job : AgentCronJob} :
    Continues job (claimJob uuid claimedJobIds dueAt claimedAt job).1 := by
  unfold claimJob
  split
  · dsimp only
    split <;> exact ⟨rfl, rfl, fun hLive => hLive⟩
  · exact .refl job

theorem claimDueInState_continuesJobs (uuids : String → String) (dueAt claimedAt : Nat) :
    ContinuesJobs (claimDueInState uuids dueAt claimedAt) := by
  intro state
  refine ⟨fun job => (claimJob (uuids job.id) (state.dispatches.map AgentCronDispatchRecord.jobId) dueAt claimedAt job).1,
    List.map_map, fun job _ => claimJob_continues, ?_⟩
  rintro dispatch hMem
  rcases List.mem_append.mp hMem with hOld | hNew
  · exact Or.inl hOld
  · refine Or.inr ?_
    obtain ⟨claimed, hClaimed, hDispatch⟩ := List.mem_filterMap.mp hNew
    obtain ⟨job, hJob, rfl⟩ := List.mem_map.mp hClaimed
    unfold claimJob at hDispatch
    split at hDispatch
    · dsimp only at hDispatch
      split at hDispatch
      · cases hDispatch
      · rw [← Option.some.inj hDispatch]
        exact mem_jobIds.mpr ⟨job, hJob, rfl⟩
    · cases hDispatch

theorem recordDispatchInState_continuesJobs (dispatchId : String) (result : DispatchResultOptions) :
    ContinuesJobs (recordDispatchInState dispatchId result) := by
  refine @continuesJobs_of_map _ (fun state job => (state.dispatches.find? (·.id == dispatchId)).any fun dispatch =>
    job.id = dispatch.jobId && job.status = .active) (dispatchedJob result) ?_ ?_ ?_
  · rintro state job hRecords
    have hActive : job.status = .active := by
      cases hFind : state.dispatches.find? (·.id == dispatchId) with
      | none =>
        rw [hFind] at hRecords
        cases hRecords
      | some dispatch =>
        rw [hFind] at hRecords
        exact of_decide_eq_true (Bool.and_eq_true_iff.mp hRecords).2
    refine .of_active hActive ?_ ?_
    · unfold dispatchedJob
      dsimp only
      split <;> rfl
    · unfold dispatchedJob
      dsimp only
      split <;> rfl
  · intro state
    unfold recordDispatchInState
    cases state.dispatches.find? (·.id == dispatchId) with
    | none => exact (List.map_id state.jobs).symm
    | some dispatch => rfl
  · rintro state dispatch hMem
    unfold recordDispatchInState at hMem
    split at hMem
    · exact hMem
    · exact (List.mem_filter.mp hMem).1

theorem recoverInterruptedInState_continuesJobs (dispatchIds : Option (List String)) (now : Nat) :
    ContinuesJobs (recoverInterruptedInState dispatchIds now) := by
  refine @continuesJobs_of_map _ _ (interruptedJob now) ?_ (fun _ => rfl) fun _ _ hMem => (List.mem_filter.mp hMem).1
  rintro state job hRecovers
  exact .of_active (of_decide_eq_true (Bool.and_eq_true_iff.mp hRecovers).2) rfl rfl

theorem deferInState_continuesJobs (id : String) (untilMs now : Nat) : ContinuesJobs (deferInState id untilMs now) := by
  refine @continuesJobs_of_map _ (fun _ => defers id untilMs) (deferredJob untilMs now) ?_ (fun _ => rfl) fun _ _ hMem => hMem
  rintro state job hDefers
  exact .of_active (of_decide_eq_true (Bool.and_eq_true_iff.mp (Bool.and_eq_true_iff.mp hDefers).1).2) rfl rfl

def SameJob (job copy : AgentCronJob) : Prop :=
  copy.id = job.id

theorem updatedRlmHeartbeat_sameJob {update : RlmHeartbeatUpdate}
    (h : AgentCronJobStore.updatedRlmHeartbeat update job = some copy) : SameJob job copy := by
  unfold AgentCronJobStore.updatedRlmHeartbeat at h
  split at h
  · cases h
  · obtain ⟨next, hNext, rfl⟩ := Option.map_eq_some_iff.mp h
    obtain ⟨prompted, hPrompted, hScheduled⟩ := Option.bind_eq_some_iff.mp hNext
    calc (AgentCronJobStore.stampedJob update.now (AgentCronJobStore.statusedJob update.status update.now next)).id
      _ = next.id := by
        unfold AgentCronJobStore.statusedJob
        split <;> rfl
      _ = prompted.id := by
        unfold AgentCronJobStore.scheduledJob at hScheduled
        split at hScheduled
        · rw [Option.some.inj hScheduled]
        · split at hScheduled
          · cases hScheduled
          · split at hScheduled
            · cases hScheduled
            · rw [← Option.some.inj hScheduled]
      _ = job.id := by
        unfold AgentCronJobStore.promptedJob at hPrompted
        split at hPrompted
        · rw [← Option.some.inj hPrompted]
          rfl
        · dsimp only at hPrompted
          split at hPrompted
          · cases hPrompted
          · rw [← Option.some.inj hPrompted]
            rfl

theorem StoreOp.creates (hOp : op.newId = some uuid) :
    (∃ message, op.transaction = .done (.error message)) ∨
      ∃ g job, op.transaction = .read (fun jobs => .write (jobs.map g ++ [job]) (.jobs [job])) ∧
        (∀ job : AgentCronJob, (g job).id = job.id ∧ (g job).sessionId = job.sessionId) ∧ job.id = uuid := by
  cases op with
  | create uuid' input =>
    obtain rfl := Option.some.inj hOp
    rw [StoreOp.transaction, AgentCronJobStore.create]
    split
    · exact Or.inl ⟨_, rfl⟩
    · split
      · exact Or.inl ⟨_, rfl⟩
      next parsed _ =>
        refine Or.inr ⟨id, AgentCronJobStore.newJob uuid' input (input.source.getD "cron") none parsed,
          congrArg Transaction.read (funext fun jobs => ?_), fun _ => ⟨rfl, rfl⟩, rfl⟩
        rw [List.map_id]
        rfl
  | createHeartbeat uuid' input =>
    obtain rfl := Option.some.inj hOp
    rw [StoreOp.transaction, AgentCronJobStore.createHeartbeat]
    split
    · exact Or.inl ⟨_, rfl⟩
    · split
      · exact Or.inl ⟨_, rfl⟩
      · split
        · exact Or.inl ⟨_, rfl⟩
        · refine Or.inr ⟨_, _, rfl, ?_, rfl⟩
          intro job
          dsimp only
          split <;> exact ⟨rfl, rfl⟩
  | createRlmHeartbeat uuid' input =>
    obtain rfl := Option.some.inj hOp
    rw [StoreOp.transaction, AgentCronJobStore.createRlmHeartbeat]
    split
    · exact Or.inl ⟨_, rfl⟩
    next parsed _ =>
      split
      · exact Or.inl ⟨_, rfl⟩
      · split
        · exact Or.inl ⟨_, rfl⟩
        · refine Or.inr ⟨id, AgentCronJobStore.newJob uuid' input "rlm_heartbeat"
            (some (input.deliveryMode.getD defaultHeartbeatDeliveryMode)) parsed,
            congrArg Transaction.read (funext fun jobs => ?_), fun _ => ⟨rfl, rfl⟩, rfl⟩
          rw [List.map_id]
          rfl
  | _ => cases hOp

variable {jobs : List AgentCronJob}

theorem StoreOp.creates_rewrites (hOp : op.newId = some uuid) :
    op.transaction.Obeys (· = jobs) (Rewrites SameJob (fun job => op.newId = some job.id) jobs) ContinuesJobs := by
  rcases op.creates hOp with ⟨message, hRefused⟩ | ⟨g, job, hAdded, hg, rfl⟩
  · rw [hRefused]
    trivial
  · rw [hAdded]
    rintro view rfl
    refine ⟨g, [job], rfl, fun old _ => (hg old).1, ?_, le_rfl⟩
    rintro job' hMem
    rw [List.mem_singleton.mp hMem]
    exact hOp

theorem StoreOp.transaction_rewrites (op : StoreOp) (hIds : (jobIds jobs).Nodup) :
    op.transaction.Obeys (· = jobs) (Rewrites SameJob (fun job => op.newId = some job.id) jobs) ContinuesJobs := by
  have hRefl : ∀ job, SameJob job job := fun _ => rfl
  cases op with
  | create uuid input | createHeartbeat uuid input | createRlmHeartbeat uuid input => exact StoreOp.creates_rewrites rfl
  | rebindSessionJobs input | cancelJobsForSession input now =>
    exact (Transaction.obeys_map _).mpr (AgentCronJobStore.updateWhere_rewrites hRefl fun _ _ _ => rfl)
  | cancel id now =>
    refine (Transaction.obeys_map _).mpr ((Transaction.obeys_map _).mpr ?_)
    exact AgentCronJobStore.updateWhere_rewrites hRefl fun _ _ _ => rfl
  | recordRunResult id result =>
    refine (Transaction.obeys_map _).mpr ((Transaction.obeys_map _).mpr ?_)
    refine AgentCronJobStore.updateWhere_rewrites hRefl ?_
    rintro job - -
    unfold SameJob AgentCronJobStore.ranJob
    split <;> rfl
  | recordSkipResult id now =>
    refine (Transaction.obeys_map _).mpr ((Transaction.obeys_map _).mpr ?_)
    refine AgentCronJobStore.updateWhere_rewrites hRefl ?_
    rintro job - -
    unfold SameJob AgentCronJobStore.skippedJob
    split <;> rfl
  | deferNextRun id untilMs clock => exact deferInState_continuesJobs id untilMs clock
  | claimDue uuids dueAt claimedAt => exact claimDueInState_continuesJobs uuids dueAt claimedAt
  | recordDispatchResult dispatchId result => exact recordDispatchInState_continuesJobs dispatchId result
  | recoverInterruptedDispatches now => exact recoverInterruptedInState_continuesJobs none now
  | recoverInterruptedDispatchesById dispatchIds now =>
    exact recoverInterruptedInState_continuesJobs (some dispatchIds) now
  | pauseHeartbeat activeSessionId now =>
    refine (Transaction.obeys_map _).mpr ?_
    exact AgentCronJobStore.changeHeartbeat_rewrites hIds hRefl fun _ _ _ => rfl
  | resumeHeartbeat activeSessionId now =>
    refine (Transaction.obeys_map _).mpr ?_
    exact AgentCronJobStore.resumeHeartbeat_rewrites hIds hRefl fun _ _ _ _ _ => rfl
  | clearHeartbeat activeSessionId now =>
    refine (Transaction.obeys_map _).mpr ?_
    exact AgentCronJobStore.changeHeartbeat_rewrites hIds hRefl fun _ _ _ => rfl
  | manageHeartbeat activeSessionId id action now =>
    refine (Transaction.obeys_map _).mpr (AgentCronJobStore.manageHeartbeat_rewrites hIds hRefl ?_)
    rintro job - - - -
    refine ⟨fun _ => ?_, fun _ _ => rfl⟩
    cases action <;> rfl
  | updateRlmHeartbeat activeSessionId id update =>
    refine (Transaction.obeys_map _).mpr ?_
    rintro view rfl
    dsimp only
    split
    · split
      · refine .of_map (rewriteJobs_rewrites hRefl ?_)
        rintro job - -
        cases hUpdated : AgentCronJobStore.updatedRlmHeartbeat update job with
        | none => rfl
        | some copy => exact updatedRlmHeartbeat_sameJob hUpdated
      · trivial
    · trivial
  | deleteRlmHeartbeat activeSessionId id now =>
    refine (Transaction.obeys_map _).mpr ((Transaction.obeys_map _).mpr ?_)
    exact AgentCronJobStore.updateWhere_rewrites hRefl fun _ _ _ => rfl
  | cancelRlmHeartbeatsForSession activeSessionId now =>
    exact (Transaction.obeys_map _).mpr (AgentCronJobStore.updateWhere_rewrites hRefl fun _ _ _ => rfl)

end Operations

end PrimeAgent
