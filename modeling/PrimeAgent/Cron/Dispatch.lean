import PrimeAgent.Cron.Rewrites

/-! # Dispatches over a run

What claiming and recording add up to: each dispatch is pending until it is released once, each run is counted, and
a one-shot job is claimed at most once.
-/
namespace PrimeAgent

def StoreOp.Dispatches : StoreOp → Prop
  | .claimDue _ _ _ | .recordDispatchResult _ _ | .recoverInterruptedDispatches _ | .recoverInterruptedDispatchesById _ _
  | .cancel _ _ | .pauseHeartbeat _ _ | .resumeHeartbeat _ _ | .manageHeartbeat _ _ _ _ | .deferNextRun _ _ _ => True
  | _ => False

def StoreResult.claimed : StoreResult → List AgentCronDispatch
  | dispatches claimed => claimed
  | jobs _ | error _ => []

def StoreOp.released (file : CronJobsState) : StoreOp → List String
  | .recordDispatchResult dispatchId _ => (file.dispatches.map (·.id)).filter (· == dispatchId)
  | .recoverInterruptedDispatches _ => file.dispatches.map (·.id)
  | .recoverInterruptedDispatchesById dispatchIds _ => (file.dispatches.map (·.id)).filter (dispatchIds.contains ·)
  | _ => []

def StoreOp.ran (file : CronJobsState) : StoreOp → List String
  | .recordDispatchResult dispatchId result =>
    match file.dispatches.find? (·.id == dispatchId) with
    | none => []
    | some dispatch =>
      if !result.isSkip && file.jobs.any fun job => job.id = dispatch.jobId && job.status = .active then [dispatch.jobId]
      else []
  | _ => []

structure DispatchHistory where
  file : CronJobsState
  claimed : List AgentCronDispatch
  released : List String
  ran : List String

def DispatchHistory.after (w : DispatchHistory) (order : IterationOrder) (op : StoreOp) : DispatchHistory :=
  let next := op.transaction.exec (singleFile order) w.file
  ⟨next.1, w.claimed ++ next.2.claimed, w.released ++ op.released w.file, w.ran ++ op.ran w.file⟩

def CronJobsState.pending (file : CronJobsState) : List String :=
  file.dispatches.map (·.id)

def CronJobsState.pendingJobs (file : CronJobsState) : List String :=
  file.dispatches.map (·.jobId)

def StoreOp.DrawsFresh (first : CronJobsState) (w : DispatchHistory) : StoreOp → Prop
  | .claimDue uuids _ _ =>
    (∀ id, uuids id ∉ first.pending ++ w.claimed.map (·.id)) ∧ ∀ id id', uuids id = uuids id' → id = id'
  | _ => True

inductive DispatchRun (first : CronJobsState) : DispatchHistory → Prop
  | opened : DispatchRun first ⟨first, [], [], []⟩
  | step {w : DispatchHistory} (order : IterationOrder) (op : StoreOp) (hRun : DispatchRun first w)
      (hOp : op.Dispatches) (hUuids : op.DrawsFresh first w) : DispatchRun first (w.after order op)

/-- A file whose jobs have ids of their own, and whose dispatches are of different jobs. -/
structure CronJobsState.WellFormed (file : CronJobsState) : Prop where
  ids : (jobIds file.jobs).Nodup
  pending : file.pending.Nodup
  pendingJobs : file.pendingJobs.Nodup

structure KeepsRuns (job copy : AgentCronJob) : Prop where
  id : copy.id = job.id
  schedule : copy.schedule = job.schedule
  runCount : copy.runCount = job.runCount
  active : copy.status = .active → job.status = .active ∨ job.schedule.kind ≠ .once

theorem KeepsRuns.refl (job : AgentCronJob) : KeepsRuns job job :=
  ⟨rfl, rfl, rfl, Or.inl⟩

def DispatchHistory.claims (w : DispatchHistory) (id : String) : Nat :=
  (w.claimed.map (·.job.id)).count id

structure Accounts (first : CronJobsState) (w : DispatchHistory) : Prop where
  wellFormed : w.file.WellFormed
  jobs : (jobIds w.file.jobs).Perm (jobIds first.jobs)
  drawn : (first.pending ++ w.claimed.map (·.id)).Nodup
  balance : (first.pending ++ w.claimed.map (·.id)).Perm (w.released ++ w.file.pending)
  counted : ∀ job ∈ w.file.jobs, ∃ old ∈ first.jobs, old.id = job.id ∧ old.schedule = job.schedule ∧
    job.runCount = old.runCount + w.ran.count job.id
  once : ∀ job ∈ w.file.jobs, job.schedule.kind = .once →
    w.claims job.id = 0 ∨ w.claims job.id = 1 ∧ (job.status = .active → job.id ∈ w.file.pendingJobs)

section Steps

variable {first : CronJobsState} {w : DispatchHistory} {order : IterationOrder} {job : AgentCronJob}

theorem Accounts.rewrite (h : Accounts first w) {g : AgentCronJob → AgentCronJob} {jobs : List AgentCronJob}
    (hJobs : jobs.Perm (w.file.jobs.map g)) (hKeeps : ∀ job ∈ w.file.jobs, KeepsRuns job (g job)) :
    Accounts first { w with file := { w.file with jobs := jobs } } := by
  have hIds : (jobIds jobs).Perm (jobIds w.file.jobs) := by
    refine (hJobs.map _).trans ?_
    rw [← jobIds, jobIds_map fun job hMem => (hKeeps job hMem).id]
  have hOld : ∀ job ∈ jobs, ∃ old ∈ w.file.jobs, job = g old := by
    rintro job hMem
    obtain ⟨old, hOld, rfl⟩ := List.mem_map.mp (hJobs.mem_iff.mp hMem)
    exact ⟨old, hOld, rfl⟩
  refine ⟨⟨hIds.nodup_iff.mpr h.wellFormed.ids, h.wellFormed.pending, h.wellFormed.pendingJobs⟩,
    hIds.trans h.jobs, h.drawn, h.balance, ?_, ?_⟩
  · rintro job hMem
    obtain ⟨old, hOldMem, rfl⟩ := hOld job hMem
    obtain ⟨hId, hSchedule, hCount, -⟩ := hKeeps old hOldMem
    rw [hId, hSchedule, hCount]
    exact h.counted old hOldMem
  · rintro job hMem hOnce
    obtain ⟨old, hOldMem, rfl⟩ := hOld job hMem
    obtain ⟨hId, hSchedule, -, hActive⟩ := hKeeps old hOldMem
    rw [hSchedule] at hOnce
    rw [hId]
    rcases h.once old hOldMem hOnce with hNone | ⟨hClaimed, hPending⟩
    · exact Or.inl hNone
    · refine Or.inr ⟨hClaimed, fun hStatus => hPending ?_⟩
      rcases hActive hStatus with hStatus | hKind
      · exact hStatus
      · exact absurd hOnce hKind

theorem Accounts.written (h : Accounts first w) {ρ : Type} {t : StoreTransaction ρ}
    (hObeys : t.Obeys (· = w.file.jobs) (Rewrites KeepsRuns (fun _ => False) w.file.jobs) (fun _ => False)) :
    Accounts first { w with file := (t.exec (singleFile order) w.file).1 } := by
  refine Transaction.exec_cases (singleFile order) (motive := fun file => Accounts first { w with file := file })
    hObeys h ?_ ?_
  · rintro draft ⟨g, extra, rfl, hKeeps, hExtra, -⟩
    obtain rfl : extra = [] := List.eq_nil_iff_forall_not_mem.mpr hExtra
    have hIds : ∀ job ∈ w.file.jobs, (g job).id = job.id := fun job hMem => (hKeeps job hMem).id
    have hPerm := @mergeFreshJobs_perm w.file.jobs order g [] hIds (by simpa using h.wellFormed.ids)
    simp only [List.append_nil] at hPerm ⊢
    refine h.rewrite hPerm ?_
    rintro job hMem
    unfold fresher
    split
    · exact hKeeps job hMem
    · exact .refl job
  · rintro mutation ⟨⟩

theorem Accounts.deferred (h : Accounts first w) (id : String) (untilMs clock : Nat) :
    Accounts first (w.after order (.deferNextRun id untilMs clock)) := by
  have hAfter : w.after order (.deferNextRun id untilMs clock)
      = ⟨(deferInState id untilMs clock w.file).1, w.claimed ++ [], w.released ++ [], w.ran ++ []⟩ := rfl
  rw [hAfter, List.append_nil, List.append_nil, List.append_nil]
  refine @Accounts.rewrite first w h
    (fun job => if defers id untilMs job then deferredJob untilMs clock job else job) _ (.refl _) ?_
  rintro job -
  split
  · exact ⟨rfl, rfl, rfl, Or.inl⟩
  · exact .refl job

theorem Accounts.release (h : Accounts first w) {keep : AgentCronDispatchRecord → Bool} {g : AgentCronJob → AgentCronJob}
    {ran : List String} (hIds : ∀ job ∈ w.file.jobs, (g job).id = job.id)
    (hSchedules : ∀ job ∈ w.file.jobs, (g job).schedule = job.schedule)
    (hCounts : ∀ job ∈ w.file.jobs, (g job).runCount = job.runCount + ran.count job.id)
    (hOnce : ∀ job ∈ w.file.jobs, job.schedule.kind = .once → (g job).status = .active →
      job.status = .active ∧ ∀ dispatch ∈ w.file.dispatches, dispatch.jobId = job.id → keep dispatch = true) :
    Accounts first ⟨⟨w.file.jobs.map g, w.file.dispatches.filter keep⟩, w.claimed,
      w.released ++ (w.file.dispatches.filter (!keep ·)).map (·.id), w.ran ++ ran⟩ := by
  have hOld : ∀ job ∈ w.file.jobs.map g, ∃ old ∈ w.file.jobs, job = g old := by
    rintro job hMem
    obtain ⟨old, hOld, rfl⟩ := List.mem_map.mp hMem
    exact ⟨old, hOld, rfl⟩
  have hJobs : jobIds (w.file.jobs.map g) = jobIds w.file.jobs := jobIds_map hIds
  refine ⟨⟨hJobs ▸ h.wellFormed.ids, ?_, ?_⟩, hJobs ▸ h.jobs, h.drawn, h.balance.trans ?_, ?_, ?_⟩
  · exact h.wellFormed.pending.sublist (List.filter_sublist.map _)
  · exact h.wellFormed.pendingJobs.sublist (List.filter_sublist.map _)
  · rw [List.append_assoc]
    refine List.Perm.append_left _ ?_
    have hSplit := (List.filter_append_perm keep w.file.dispatches).map (·.id)
    rw [List.map_append] at hSplit
    exact hSplit.symm.trans List.perm_append_comm
  · rintro job hMem
    obtain ⟨old, hOldMem, rfl⟩ := hOld job hMem
    obtain ⟨firstJob, hFirst, hId, hSchedule, hCount⟩ := h.counted old hOldMem
    refine ⟨firstJob, hFirst, hId.trans (hIds old hOldMem).symm, hSchedule.trans (hSchedules old hOldMem).symm, ?_⟩
    rw [hCounts old hOldMem, hIds old hOldMem, hCount, List.count_append]
    exact Nat.add_assoc _ _ _
  · rintro job hMem hKind
    obtain ⟨old, hOldMem, rfl⟩ := hOld job hMem
    rw [hSchedules old hOldMem] at hKind
    rw [hIds old hOldMem]
    rcases h.once old hOldMem hKind with hNone | ⟨hClaimed, hPending⟩
    · exact Or.inl hNone
    · refine Or.inr ⟨hClaimed, fun hStatus => ?_⟩
      obtain ⟨hActive, hKept⟩ := hOnce old hOldMem hKind hStatus
      obtain ⟨dispatch, hDispatch, hJob⟩ := List.mem_map.mp (hPending hActive)
      exact List.mem_map.mpr ⟨dispatch, List.mem_filter.mpr ⟨hDispatch, hKept dispatch hDispatch hJob⟩, hJob⟩

theorem dispatchedJob_completed {result : DispatchResultOptions} (hOnce : job.schedule.kind = .once) :
    (dispatchedJob result job).status = .completed := by
  unfold dispatchedJob
  simp only [hOnce, if_true]
  split <;> rfl

theorem dispatchedJob_same (result : DispatchResultOptions) (job : AgentCronJob) :
    (dispatchedJob result job).id = job.id ∧ (dispatchedJob result job).schedule = job.schedule ∧
      (dispatchedJob result job).runCount = job.runCount + if result.isSkip then 0 else 1 := by
  unfold dispatchedJob
  dsimp only
  split
  · exact ⟨rfl, rfl, rfl⟩
  · exact ⟨rfl, rfl, rfl⟩

theorem Accounts.recorded (h : Accounts first w) (dispatchId : String) (result : DispatchResultOptions) :
    Accounts first (w.after order (.recordDispatchResult dispatchId result)) := by
  have hAfter : w.after order (.recordDispatchResult dispatchId result)
      = ⟨(recordDispatchInState dispatchId result w.file).1, w.claimed ++ [],
        w.released ++ (w.file.dispatches.map (·.id)).filter (· == dispatchId),
        w.ran ++ StoreOp.ran w.file (.recordDispatchResult dispatchId result)⟩ := rfl
  rw [hAfter, List.append_nil, recordDispatchInState, StoreOp.ran]
  cases hFind : w.file.dispatches.find? (·.id == dispatchId) with
  | none =>
    have hNone : (w.file.dispatches.map (·.id)).filter (· == dispatchId) = [] := by
      rw [List.filter_eq_nil_iff]
      rintro id hMem
      obtain ⟨dispatch, hDispatch, rfl⟩ := List.mem_map.mp hMem
      exact List.find?_eq_none.mp hFind dispatch hDispatch
    rw [hNone, List.append_nil, List.append_nil]
    exact h
  | some dispatch =>
    have hDispatch := List.mem_of_find?_eq_some hFind
    have hDispatchId : dispatch.id = dispatchId := by simpa using List.find?_some hFind
    have hOnly : ∀ other ∈ w.file.dispatches, other.id = dispatchId → other = dispatch := by
      rintro other hOther hId
      exact List.inj_on_of_nodup_map h.wellFormed.pending hOther hDispatch (hId.trans hDispatchId.symm)
    have hReleased : (w.file.dispatches.map (·.id)).filter (· == dispatchId)
        = (w.file.dispatches.filter fun dispatch => !(dispatch.id != dispatchId)).map (·.id) := by
      simp only [List.filter_map, Function.comp_def, bne, Bool.not_not]
    dsimp only
    rw [hReleased]
    refine h.release ?_ ?_ ?_ ?_
    · rintro job -
      split
      · exact (dispatchedJob_same result job).1
      · rfl
    · rintro job -
      split
      · exact (dispatchedJob_same result job).2.1
      · rfl
    · rintro job hMem
      have hAny : w.file.jobs.any (fun job => job.id = dispatch.jobId && job.status = .active) = true ↔
          ∃ job ∈ w.file.jobs, job.id = dispatch.jobId ∧ job.status = .active := by
        simp
      split
      next hRecords =>
        rw [Bool.and_eq_true, decide_eq_true_eq, decide_eq_true_eq] at hRecords
        rw [(dispatchedJob_same result job).2.2, hAny.mpr ⟨job, hMem, hRecords⟩, hRecords.1, Bool.and_true]
        cases result.isSkip <;> simp
      next hNot =>
        rw [List.count_eq_zero.mpr, Nat.add_zero]
        split
        next hRan =>
          obtain ⟨other, hOther, hId, hActive⟩ := hAny.mp (Bool.and_eq_true_iff.mp hRan).2
          rw [List.mem_singleton]
          rintro hSame
          obtain rfl := job_eq_of_id h.wellFormed.ids hMem hOther (hSame.trans hId.symm)
          exact hNot (by simp [hSame, hActive])
        · exact List.not_mem_nil
    · rintro job - hOnce hStatus
      split at hStatus
      · rw [dispatchedJob_completed hOnce] at hStatus
        cases hStatus
      next hNot =>
        refine ⟨hStatus, ?_⟩
        rintro other hOther hJob
        rw [bne_iff_ne]
        rintro hId
        obtain rfl := hOnly other hOther hId
        exact hNot (by simp [hJob, hStatus])

theorem interruptedJob_completed {now : Nat} (hOnce : job.schedule.kind = .once) :
    (interruptedJob now job).status = .completed := by
  simp only [interruptedJob, hOnce, if_true]

theorem Accounts.recovered (h : Accounts first w) (dispatchIds : Option (List String)) (now : Nat) :
    Accounts first ⟨(recoverInterruptedInState dispatchIds now w.file).1, w.claimed,
      w.released ++ w.file.pending.filter (fun id => dispatchIds.all (·.contains id)), w.ran⟩ := by
  have hReleased : w.file.pending.filter (fun id => dispatchIds.all (·.contains id))
      = (w.file.dispatches.filter fun dispatch => !(!dispatchIds.all (·.contains dispatch.id))).map (·.id) := by
    simp only [CronJobsState.pending, List.filter_map, Function.comp_def, Bool.not_not]
  have hRan : w.ran = w.ran ++ [] := (List.append_nil _).symm
  rw [hReleased, hRan, recoverInterruptedInState]
  refine h.release ?_ ?_ ?_ ?_
  · rintro job -
    split <;> rfl
  · rintro job -
    split <;> rfl
  · rintro job -
    split <;> rfl
  · rintro job - hOnce hStatus
    split at hStatus
    · rw [interruptedJob_completed hOnce] at hStatus
      cases hStatus
    next hNot =>
      refine ⟨hStatus, ?_⟩
      rintro dispatch hDispatch hJob
      rw [Bool.not_eq_true', Bool.eq_false_iff]
      rintro hInterrupted
      refine hNot (Bool.and_eq_true_iff.mpr ⟨?_, decide_eq_true hStatus⟩)
      rw [List.contains_iff_mem]
      exact List.mem_map.mpr ⟨dispatch, List.mem_filter.mpr ⟨hDispatch, hInterrupted⟩, hJob⟩

def isClaimed (claimedJobIds : List String) (dueAt : Nat) (job : AgentCronJob) : Bool :=
  isDueJob job dueAt && !claimedJobIds.contains job.id

variable {uuid : String} {claimedJobIds : List String} {dueAt claimedAt : Nat} {job : AgentCronJob}

theorem claimJob_keeps : KeepsRuns job (claimJob uuid claimedJobIds dueAt claimedAt job).1 := by
  unfold claimJob
  split
  · dsimp only
    split <;> exact ⟨rfl, rfl, rfl, Or.inl⟩
  · exact .refl job

theorem claimJob_dispatch : (claimJob uuid claimedJobIds dueAt claimedAt job).2
    = if isClaimed claimedJobIds dueAt job then
        some ⟨uuid, job.id, isoFromMillis claimedAt, job.nextRunAt.getD ""⟩
      else none := by
  unfold claimJob isClaimed
  cases isDueJob job dueAt <;> cases claimedJobIds.contains job.id <;> simp

theorem claimJob_status : (claimJob uuid claimedJobIds dueAt claimedAt job).1.status = job.status := by
  unfold claimJob
  split
  · dsimp only
    split <;> rfl
  · rfl

theorem claimDueInState_claims (uuids : String → String) (dueAt claimedAt : Nat) (file : CronJobsState) :
    let claimed := file.jobs.filter (isClaimed file.pendingJobs dueAt)
    let next := claimDueInState uuids dueAt claimedAt file
    next.1.pending = file.pending ++ claimed.map (fun job => uuids job.id) ∧
      next.1.pendingJobs = file.pendingJobs ++ jobIds claimed ∧
      next.2.dispatches.map (·.id) = claimed.map (fun job => uuids job.id) ∧
      next.2.dispatches.map (·.job.id) = jobIds claimed := by
  dsimp only [claimDueInState, CronJobsState.pending, CronJobsState.pendingJobs]
  simp only [List.map_append, List.append_cancel_left_eq]
  generalize file.dispatches.map (·.jobId) = ids
  induction file.jobs with
  | nil => exact ⟨rfl, rfl, rfl, rfl⟩
  | cons job jobs ih =>
    obtain ⟨hPending, hJobs, hIds, hJobIds⟩ := ih
    have hDispatch := @claimJob_dispatch (uuids job.id) ids dueAt claimedAt job
    have hKeeps := @claimJob_keeps (uuids job.id) ids dueAt claimedAt job
    rw [List.map_cons]
    by_cases hClaimed : isClaimed ids dueAt job = true
    · rw [if_pos hClaimed] at hDispatch
      simp only [List.filterMap_cons, List.filter_cons, hDispatch, hClaimed, if_true, Option.map_some, List.map_cons,
        jobIds_cons, hPending, hJobs, hIds, hJobIds, hKeeps.id, and_self]
    · rw [if_neg hClaimed] at hDispatch
      simp only [List.filterMap_cons, List.filter_cons, hDispatch, hClaimed, Bool.false_eq_true, if_false,
        Option.map_none, hPending, hJobs, hIds, hJobIds, and_self]

theorem Accounts.claimed (h : Accounts first w) {uuids : String → String} (dueAt claimedAt : Nat)
    (hUuids : (StoreOp.claimDue uuids dueAt claimedAt).DrawsFresh first w) :
    Accounts first (w.after order (.claimDue uuids dueAt claimedAt)) := by
  obtain ⟨hNew, hInjective⟩ := hUuids
  have hAfter : w.after order (.claimDue uuids dueAt claimedAt)
      = ⟨(claimDueInState uuids dueAt claimedAt w.file).1,
        w.claimed ++ (claimDueInState uuids dueAt claimedAt w.file).2.dispatches, w.released ++ [], w.ran ++ []⟩ := rfl
  obtain ⟨hPending, hJobs, hIds, hJobIds⟩ := claimDueInState_claims uuids dueAt claimedAt w.file
  rw [hAfter, List.append_nil, List.append_nil]
  generalize hClaimed : w.file.jobs.filter (isClaimed w.file.pendingJobs dueAt) = claimed at *
  have hClaims : ∀ job ∈ claimed, job ∈ w.file.jobs ∧ isClaimed w.file.pendingJobs dueAt job = true := by
    rintro job hMem
    exact List.mem_filter.mp (hClaimed ▸ hMem)
  have hDistinct : (jobIds claimed).Nodup := h.wellFormed.ids.sublist (hClaimed ▸ List.filter_sublist.map _)
  have hDrawn : (claimed.map fun job => uuids job.id).Nodup := by
    have hMap : claimed.map (fun job => uuids job.id) = (jobIds claimed).map uuids := by
      rw [jobIds, List.map_map]
      rfl
    rw [hMap]
    exact hDistinct.map hInjective
  have hFresh : ∀ id ∈ claimed.map (fun job => uuids job.id), id ∉ first.pending ++ w.claimed.map (·.id) := by
    rintro id hMem
    obtain ⟨job, -, rfl⟩ := List.mem_map.mp hMem
    exact hNew job.id
  have hKeeps : ∀ job ∈ w.file.jobs,
      KeepsRuns job (claimJob (uuids job.id) w.file.pendingJobs dueAt claimedAt job).1 := fun _ _ => claimJob_keeps
  have hFileJobs : (claimDueInState uuids dueAt claimedAt w.file).1.jobs
      = w.file.jobs.map fun job => (claimJob (uuids job.id) w.file.pendingJobs dueAt claimedAt job).1 :=
    List.map_map
  have hFileIds : jobIds (claimDueInState uuids dueAt claimedAt w.file).1.jobs = jobIds w.file.jobs := by
    rw [hFileJobs]
    exact jobIds_map fun job hMem => (hKeeps job hMem).id
  have hOld : ∀ job ∈ (claimDueInState uuids dueAt claimedAt w.file).1.jobs, ∃ old ∈ w.file.jobs,
      job = (claimJob (uuids old.id) w.file.pendingJobs dueAt claimedAt old).1 := by
    rintro job hMem
    rw [hFileJobs] at hMem
    obtain ⟨old, hOldMem, rfl⟩ := List.mem_map.mp hMem
    exact ⟨old, hOldMem, rfl⟩
  refine ⟨⟨hFileIds ▸ h.wellFormed.ids, ?_, ?_⟩, hFileIds ▸ h.jobs, ?_, ?_, ?_, ?_⟩
  · rw [hPending]
    refine List.Nodup.append h.wellFormed.pending hDrawn ?_
    rintro id hHere hThere
    exact hFresh id hThere (h.balance.mem_iff.mpr (List.mem_append_right _ hHere))
  · rw [hJobs]
    refine List.Nodup.append h.wellFormed.pendingJobs hDistinct ?_
    rintro id hHere hThere
    obtain ⟨job, hMem, rfl⟩ := mem_jobIds.mp hThere
    have hNot := (Bool.and_eq_true_iff.mp (hClaims job hMem).2).2
    rw [Bool.not_eq_true', Bool.eq_false_iff] at hNot
    exact hNot (List.contains_iff_mem.mpr hHere)
  · rw [List.map_append, hIds, ← List.append_assoc]
    refine List.Nodup.append h.drawn hDrawn ?_
    rintro id hHere hThere
    exact hFresh id hThere hHere
  · rw [List.map_append, hIds, hPending, ← List.append_assoc, ← List.append_assoc]
    exact h.balance.append_right _
  · rintro job hMem
    obtain ⟨old, hOldMem, rfl⟩ := hOld job hMem
    obtain ⟨hId, hSchedule, hCount, -⟩ := hKeeps old hOldMem
    rw [hId, hSchedule, hCount]
    exact h.counted old hOldMem
  · rintro job hMem hOnce
    obtain ⟨old, hOldMem, rfl⟩ := hOld job hMem
    obtain ⟨hId, hSchedule, -, -⟩ := hKeeps old hOldMem
    rw [hSchedule] at hOnce
    rw [hId, claimJob_status, DispatchHistory.claims, List.map_append, hJobIds, List.count_append, hJobs,
      List.mem_append]
    have hBefore := h.once old hOldMem hOnce
    by_cases hNow : old.id ∈ jobIds claimed
    · obtain ⟨job, hJob, hSame⟩ := mem_jobIds.mp hNow
      obtain ⟨hJobMem, hJobClaimed⟩ := hClaims job hJob
      obtain rfl := job_eq_of_id h.wellFormed.ids hJobMem hOldMem hSame
      obtain ⟨hDue, hNot⟩ := Bool.and_eq_true_iff.mp hJobClaimed
      rw [Bool.not_eq_true', Bool.eq_false_iff, ne_eq, List.contains_iff_mem] at hNot
      have hActive : job.status = .active := of_decide_eq_true (Bool.and_eq_true_iff.mp hDue).1
      rw [List.count_eq_one_of_mem hDistinct hNow]
      rcases hBefore with hNone | ⟨-, hPends⟩
      · exact Or.inr ⟨congrArg (· + 1) hNone, fun _ => Or.inr hNow⟩
      · exact absurd (hPends hActive) hNot
    · rw [List.count_eq_zero.mpr hNow]
      rcases hBefore with hNone | ⟨hOne, hPends⟩
      · exact Or.inl hNone
      · exact Or.inr ⟨hOne, fun hActive => Or.inl (hPends hActive)⟩

end Steps

section Writes

variable {jobs : List AgentCronJob}

theorem cancel_rewrites (id : String) (now : Nat) :
    (AgentCronJobStore.cancel id now).Obeys (· = jobs) (Rewrites KeepsRuns (fun _ => False) jobs) (fun _ => False) := by
  refine (Transaction.obeys_map _).mpr (AgentCronJobStore.updateWhere_rewrites KeepsRuns.refl ?_)
  rintro job - -
  exact ⟨rfl, rfl, rfl, fun h => by cases h⟩

theorem pauseHeartbeat_rewrites (hIds : (jobIds jobs).Nodup) (activeSessionId : String) (now : Nat) :
    (AgentCronJobStore.pauseHeartbeat activeSessionId now).Obeys (· = jobs)
      (Rewrites KeepsRuns (fun _ => False) jobs) (fun _ => False) := by
  refine AgentCronJobStore.changeHeartbeat_rewrites hIds KeepsRuns.refl ?_
  rintro job - -
  exact ⟨rfl, rfl, rfl, fun h => by cases h⟩

theorem keepsRuns_resumed {job : AgentCronJob} {now nextRunAt : Nat}
    (hNext : nextRunAtForSchedule job.schedule now = .ok (some nextRunAt)) :
    KeepsRuns job ((job.activeAt now).runningAt nextRunAt) := by
  refine ⟨rfl, rfl, rfl, fun _ => Or.inr ?_⟩
  intro hOnce
  simp only [nextRunAtForSchedule, hOnce] at hNext
  cases hNext

theorem manageHeartbeat_keepsRuns (hIds : (jobIds jobs).Nodup) (activeSessionId id : String)
    (action : HeartbeatManagementAction) (now : Nat) :
    (AgentCronJobStore.manageHeartbeat activeSessionId id action now).Obeys (· = jobs)
      (Rewrites KeepsRuns (fun _ => False) jobs) (fun _ => False) := by
  refine AgentCronJobStore.manageHeartbeat_rewrites hIds KeepsRuns.refl ?_
  rintro job - - - -
  refine ⟨fun hAction => ?_, fun nextRunAt hNext => keepsRuns_resumed hNext⟩
  cases action with
  | pause | stop => exact ⟨rfl, rfl, rfl, fun h => by cases h⟩
  | resume => exact absurd rfl hAction

end Writes

section Runs

variable {first : CronJobsState} {w : DispatchHistory} {order : IterationOrder} {op : StoreOp}

theorem Accounts.unlocked (h : Accounts first w) {ρ : Type} {t : StoreTransaction ρ} {f : ρ → StoreResult}
    (hOp : op.transaction = t.map f) (hResult : ∀ result, (f result).claimed = []) (hReleased : op.released w.file = [])
    (hRan : op.ran w.file = [])
    (hObeys : t.Obeys (· = w.file.jobs) (Rewrites KeepsRuns (fun _ => False) w.file.jobs) (fun _ => False)) :
    Accounts first (w.after order op) := by
  have hWritten := @Accounts.written first w order h ρ t hObeys
  rw [DispatchHistory.after, hOp, Transaction.exec_map, hReleased, hRan]
  simp only [hResult, List.append_nil]
  exact hWritten

theorem dispatchStep_accounts (h : Accounts first w) (hOp : op.Dispatches) (hUuids : op.DrawsFresh first w) :
    Accounts first (w.after order op) := by
  have hIds := h.wellFormed.ids
  have hOption : ∀ job, (StoreResult.ofOption job).claimed = [] := fun _ => rfl
  have hExcept : ∀ result, (StoreResult.ofExcept result).claimed = [] := by
    rintro (message | job) <;> rfl
  cases op with
  | claimDue uuids dueAt claimedAt => exact h.claimed dueAt claimedAt hUuids
  | recordDispatchResult dispatchId result => exact h.recorded dispatchId result
  | recoverInterruptedDispatches now =>
    have hNext := h.recovered none now
    have hAll : w.file.pending.filter (fun id => (none : Option (List String)).all (·.contains id)) = w.file.pending :=
      List.filter_eq_self.mpr fun _ _ => rfl
    rw [hAll] at hNext
    have hAfter : w.after order (.recoverInterruptedDispatches now)
        = ⟨(recoverInterruptedInState none now w.file).1, w.claimed ++ [], w.released ++ w.file.pending, w.ran ++ []⟩ :=
      rfl
    rw [hAfter, List.append_nil, List.append_nil]
    exact hNext
  | recoverInterruptedDispatchesById dispatchIds now =>
    have hAfter : w.after order (.recoverInterruptedDispatchesById dispatchIds now)
        = ⟨(recoverInterruptedInState (some dispatchIds) now w.file).1, w.claimed ++ [],
          w.released ++ w.file.pending.filter (dispatchIds.contains ·), w.ran ++ []⟩ := rfl
    rw [hAfter, List.append_nil, List.append_nil]
    exact h.recovered (some dispatchIds) now
  | cancel id now => exact h.unlocked rfl hOption rfl rfl (cancel_rewrites id now)
  | pauseHeartbeat activeSessionId now =>
    exact h.unlocked rfl hOption rfl rfl (pauseHeartbeat_rewrites hIds activeSessionId now)
  | resumeHeartbeat activeSessionId now =>
    refine h.unlocked rfl hExcept rfl rfl (AgentCronJobStore.resumeHeartbeat_rewrites hIds KeepsRuns.refl ?_)
    rintro job - - nextRunAt hNext
    exact keepsRuns_resumed hNext
  | manageHeartbeat activeSessionId id action now =>
    exact h.unlocked rfl hExcept rfl rfl (manageHeartbeat_keepsRuns hIds activeSessionId id action now)
  | deferNextRun id untilMs clock => exact h.deferred id untilMs clock
  | create | rebindSessionJobs | cancelJobsForSession | recordRunResult | recordSkipResult | createHeartbeat
  | clearHeartbeat | createRlmHeartbeat | updateRlmHeartbeat | deleteRlmHeartbeat | cancelRlmHeartbeatsForSession =>
    cases hOp

theorem dispatchRun_accounts (hFirst : first.WellFormed) (hRun : DispatchRun first w) : Accounts first w := by
  induction hRun with
  | opened =>
    refine ⟨hFirst, .refl _, by simpa using hFirst.pending, by simp, ?_, fun _ _ _ => Or.inl rfl⟩
    exact fun job hMem => ⟨job, hMem, rfl, rfl, rfl⟩
  | step order op _ hOp hUuids ih => exact dispatchStep_accounts ih hOp hUuids

/-- In every state of a run, no job has two pending dispatches; a claimed dispatch is pending or has been released,
and that once; each job has been run as often as its dispatches were recorded so; no one-shot job was claimed twice. -/
theorem dispatchRun_exactlyOnce (hFirst : first.WellFormed) (hRun : DispatchRun first w) :
    w.file.pendingJobs.Nodup ∧
      (∀ dispatch ∈ w.claimed, (w.claimed.map (·.id)).count dispatch.id = 1 ∧
        w.released.count dispatch.id + w.file.pending.count dispatch.id = 1) ∧
      (∀ job ∈ w.file.jobs, ∃ old ∈ first.jobs, old.id = job.id ∧
        job.runCount = old.runCount + w.ran.count job.id) ∧
      ∀ job ∈ first.jobs, job.schedule.kind = .once → w.claims job.id ≤ 1 := by
  have hAccounts := dispatchRun_accounts hFirst hRun
  refine ⟨hAccounts.wellFormed.pendingJobs, ?_, ?_, ?_⟩
  · rintro dispatch hMem
    have hClaimed : dispatch.id ∈ w.claimed.map (·.id) := List.mem_map.mpr ⟨dispatch, hMem, rfl⟩
    have hDrawn := hAccounts.drawn
    constructor
    · exact List.count_eq_one_of_mem (List.nodup_append.mp hDrawn).2.1 hClaimed
    · rw [← List.count_append, ← hAccounts.balance.count_eq]
      exact List.count_eq_one_of_mem hDrawn (List.mem_append_right _ hClaimed)
  · rintro job hMem
    obtain ⟨old, hOld, hId, -, hCount⟩ := hAccounts.counted job hMem
    exact ⟨old, hOld, hId, hCount⟩
  · rintro old hOld hOnce
    obtain ⟨job, hMem, hId⟩ := mem_jobIds.mp (hAccounts.jobs.mem_iff.mpr (mem_jobIds.mpr ⟨old, hOld, rfl⟩))
    obtain ⟨firstJob, hFirstJob, hFirstId, hSchedule, -⟩ := hAccounts.counted job hMem
    obtain rfl := job_eq_of_id hFirst.ids hFirstJob hOld (hFirstId.trans hId)
    rw [hSchedule] at hOnce
    rw [← hId]
    rcases hAccounts.once job hMem hOnce with hNone | ⟨hOne, -⟩
    · exact hNone ▸ Nat.zero_le 1
    · exact hOne.le

end Runs

def onceJob : AgentCronJob where
  id := "j"
  status := .active
  source := some "cron"
  runtimeKind := none
  deliveryMode := none
  activeSessionId := "live"
  sessionId := "session"
  sessionFile := "/w/session.jsonl"
  cwd := "/w"
  label := none
  prompt := "check the build"
  schedule := ⟨.once, "in 10m", none⟩
  createdAt := "1970-01-01T00:00:00.000Z"
  updatedAt := "1970-01-01T00:00:00.000Z"
  nextRunAt := some "1970-01-01T00:10:00.000Z"
  lastRunAt := none
  lastSkippedAt := none
  lastError := none
  runCount := 0

def onceClaimed : DispatchHistory :=
  DispatchHistory.after ⟨⟨[onceJob], []⟩, [], [], []⟩ .stored (.claimDue ("d-" ++ ·) 600000 600000)

theorem onceClaimed_exactlyOnce : onceClaimed.claimed.map (·.id) = ["d-j"] ∧ onceClaimed.file.pendingJobs.Nodup ∧
    onceClaimed.claims "j" ≤ 1 := by
  have hFirst : CronJobsState.WellFormed ⟨[onceJob], []⟩ := ⟨by simp, by simp [CronJobsState.pending],
    by simp [CronJobsState.pendingJobs]⟩
  have hRun : DispatchRun ⟨[onceJob], []⟩ onceClaimed := by
    refine .step .stored _ .opened trivial ⟨fun id => List.not_mem_nil, ?_⟩
    rintro id id' hSame
    exact (String.append_right_inj _).mp hSame
  obtain ⟨hPending, -, -, hOnce⟩ := dispatchRun_exactlyOnce hFirst hRun
  exact ⟨by decide +kernel, hPending, hOnce onceJob List.mem_cons_self rfl⟩

end PrimeAgent
