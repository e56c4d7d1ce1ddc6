import PrimeAgent.Cron.Dispatch

/-! # Heartbeats of a live session

Creating a heartbeat cancels the one the session has. Rebinding moves heartbeats onto a session without a look at
what it has already.
-/
namespace PrimeAgent

def Readable (now : Nat) : Prop :=
  parseIsoMillis (isoFromMillis now) = some now

instance (now : Nat) : Decidable (Readable now) :=
  inferInstanceAs (Decidable (_ = _))

def StoreOp.beatTime : StoreOp → Option (Option Nat)
  | .createHeartbeat _ input => some (some input.now)
  | .pauseHeartbeat _ now | .resumeHeartbeat _ now | .clearHeartbeat _ now | .manageHeartbeat _ _ _ now
  | .claimDue _ _ now => some (some now)
  | .recordDispatchResult _ result => some (some result.now)
  | .rebindSessionJobs _ => some none
  | _ => none

structure Timed where
  file : CronJobsState
  clock : Nat

inductive HeartbeatRun (allowed : CronJobsState → StoreOp → Prop) (first : Timed) : Timed → Prop
  | opened : HeartbeatRun allowed first first
  | step {w : Timed} (order : IterationOrder) (op : StoreOp) (time : Option Nat) (hRun : HeartbeatRun allowed first w)
      (hOp : op.beatTime = some time) (hTime : ∀ now ∈ time, w.clock ≤ now) (hUuid : op.DrawsNewJob w.file.jobs)
      (hAllowed : allowed w.file op) :
      HeartbeatRun allowed first ⟨(op.transaction.exec (singleFile order) w.file).1, time.getD w.clock⟩

def OneHeartbeat (jobs : List AgentCronJob) : Prop :=
  ∀ activeSessionId, ∀ job ∈ jobs, ∀ job' ∈ jobs, job.isLiveHeartbeat activeSessionId = true →
    job'.isLiveHeartbeat activeSessionId = true → job = job'

def AgentCronJob.Rests (job : AgentCronJob) : Prop :=
  job.status ≠ .active → job.nextRunAt = none

structure Beating (w : Timed) : Prop where
  ids : (jobIds w.file.jobs).Nodup
  stamped : ∀ job ∈ w.file.jobs, ∃ time ≤ w.clock, Readable time ∧ job.updatedAt = isoFromMillis time
  rests : ∀ job ∈ w.file.jobs, job.Rests
  once : ∀ job ∈ w.file.jobs, job.schedule.kind = .once → job.id ∈ w.file.dispatches.map (·.jobId) →
    job.nextRunAt = none
  one : OneHeartbeat w.file.jobs

/-- A copy that is the same job, at rest where it is not active, and stamped with the time if it is stamped. -/
structure Beats (now : Option Nat) (job copy : AgentCronJob) : Prop where
  id : copy.id = job.id
  schedule : copy.schedule = job.schedule
  stamp : copy.updatedAt = job.updatedAt ∨ ∃ time ∈ now, copy.updatedAt = isoFromMillis time
  rests : job.Rests → copy.Rests
  once : job.schedule.kind = .once → job.nextRunAt = none → copy.nextRunAt = none

def KeepsSession (job copy : AgentCronJob) : Prop :=
  ∀ activeSessionId, copy.isLiveHeartbeat activeSessionId = true → job.isLiveHeartbeat activeSessionId = true

theorem Beats.refl (now : Option Nat) (job : AgentCronJob) : Beats now job job :=
  ⟨rfl, rfl, Or.inl rfl, fun h => h, fun _ h => h⟩

theorem isAtLeastAsFresh_stamped {candidate current : AgentCronJob} {time time' : Nat} (hTime : Readable time)
    (hTime' : Readable time') (hCurrent : current.updatedAt = isoFromMillis time)
    (hCandidate : candidate.updatedAt = isoFromMillis time') (hLe : time ≤ time') :
    isAtLeastAsFresh candidate current = true := by
  rw [Readable] at hTime hTime'
  simp only [isAtLeastAsFresh, hCurrent, hCandidate, hTime, hTime', decide_eq_true hLe]

section Steps

variable {w : Timed} {time : Option Nat} {order : IterationOrder} {g : AgentCronJob → AgentCronJob}
  {extra : List AgentCronJob}

theorem Beating.fresher_eq (h : Beating w) (hTime : ∀ now ∈ time, w.clock ≤ now ∧ Readable now) {job : AgentCronJob}
    (hMem : job ∈ w.file.jobs) (hBeats : Beats time job (g job)) : fresher g job = g job := by
  refine if_pos ?_
  obtain ⟨stamp, hStamp, hReadable, hUpdated⟩ := h.stamped job hMem
  rcases hBeats.stamp with hSame | ⟨now, hNow, hStamped⟩
  · exact isAtLeastAsFresh_stamped hReadable hReadable hUpdated (hSame.trans hUpdated) le_rfl
  · obtain ⟨hLater, hReadable'⟩ := hTime now hNow
    exact isAtLeastAsFresh_stamped hReadable hReadable' hUpdated hStamped (hStamp.trans hLater)

theorem Beating.rewrite (h : Beating w) (hTime : ∀ now ∈ time, w.clock ≤ now ∧ Readable now)
    {jobs : List AgentCronJob} {dispatches : List AgentCronDispatchRecord}
    (hJobs : jobs.Perm (w.file.jobs.map g ++ extra)) (hBeats : ∀ job ∈ w.file.jobs, Beats time job (g job))
    (hIds : (jobIds (w.file.jobs ++ extra)).Nodup)
    (hStamped : ∀ job ∈ extra, ∃ now ∈ time, job.updatedAt = isoFromMillis now) (hRests : ∀ job ∈ extra, job.Rests)
    (hRecurs : ∀ job ∈ extra, job.schedule.kind ≠ .once)
    (hOnce : ∀ job ∈ w.file.jobs, job.schedule.kind = .once → job.id ∈ dispatches.map (·.jobId) →
      job.id ∈ w.file.dispatches.map (·.jobId) ∨ (g job).nextRunAt = none)
    (hOne : OneHeartbeat (w.file.jobs.map g ++ extra)) :
    Beating ⟨⟨jobs, dispatches⟩, time.getD w.clock⟩ := by
  have hClock : w.clock ≤ time.getD w.clock := by
    cases time with
    | none => exact le_rfl
    | some now => exact (hTime now rfl).1
  have hMems : ∀ job ∈ jobs, (∃ old ∈ w.file.jobs, job = g old) ∨ job ∈ extra := by
    rintro job hMem
    rcases List.mem_append.mp (hJobs.mem_iff.mp hMem) with hOld | hNew
    · obtain ⟨old, hOldMem, rfl⟩ := List.mem_map.mp hOld
      exact Or.inl ⟨old, hOldMem, rfl⟩
    · exact Or.inr hNew
  have hStamp : ∀ now ∈ time, ∀ job : AgentCronJob, job.updatedAt = isoFromMillis now →
      ∃ stamp ≤ time.getD w.clock, Readable stamp ∧ job.updatedAt = isoFromMillis stamp := by
    rintro now hNow job hUpdated
    refine ⟨now, ?_, (hTime now hNow).2, hUpdated⟩
    rw [Option.mem_def.mp hNow]
    exact le_rfl
  constructor
  · refine (hJobs.map _).nodup_iff.mpr ?_
    change (jobIds (w.file.jobs.map g ++ extra)).Nodup
    rw [jobIds_append, jobIds_map fun job hMem => (hBeats job hMem).id, ← jobIds_append]
    exact hIds
  · rintro job hMem
    rcases hMems job hMem with ⟨old, hOldMem, rfl⟩ | hNew
    · rcases (hBeats old hOldMem).stamp with hSame | ⟨now, hNow, hUpdated⟩
      · obtain ⟨stamp, hStamp, hReadable, hUpdated⟩ := h.stamped old hOldMem
        exact ⟨stamp, hStamp.trans hClock, hReadable, hSame.trans hUpdated⟩
      · exact hStamp now hNow _ hUpdated
    · obtain ⟨now, hNow, hUpdated⟩ := hStamped job hNew
      exact hStamp now hNow job hUpdated
  · rintro job hMem
    rcases hMems job hMem with ⟨old, hOldMem, rfl⟩ | hNew
    · exact (hBeats old hOldMem).rests (h.rests old hOldMem)
    · exact hRests job hNew
  · rintro job hMem hKind hPending
    rcases hMems job hMem with ⟨old, hOldMem, rfl⟩ | hNew
    · rw [(hBeats old hOldMem).schedule] at hKind
      rw [(hBeats old hOldMem).id] at hPending
      rcases hOnce old hOldMem hKind hPending with hPending | hNone
      · exact (hBeats old hOldMem).once hKind (h.once old hOldMem hKind hPending)
      · exact hNone
    · exact absurd hKind (hRecurs job hNew)
  · rintro activeSessionId job hMem job' hMem'
    exact hOne activeSessionId job (hJobs.mem_iff.mp hMem) job' (hJobs.mem_iff.mp hMem')

theorem OneHeartbeat.map {jobs : List AgentCronJob} (h : OneHeartbeat jobs)
    (hKeeps : ∀ job ∈ jobs, KeepsSession job (g job)) : OneHeartbeat (jobs.map g) := by
  rintro activeSessionId job hMem job' hMem' hLive hLive'
  obtain ⟨old, hOldMem, rfl⟩ := List.mem_map.mp hMem
  obtain ⟨old', hOldMem', rfl⟩ := List.mem_map.mp hMem'
  rw [h activeSessionId old hOldMem old' hOldMem' (hKeeps old hOldMem _ hLive) (hKeeps old' hOldMem' _ hLive')]

theorem Beating.same (h : Beating w) (hTime : ∀ now ∈ time, w.clock ≤ now ∧ Readable now) :
    Beating ⟨w.file, time.getD w.clock⟩ := by
  refine @Beating.rewrite w time id [] h hTime w.file.jobs w.file.dispatches ?_ ?_ ?_ ?_ ?_ ?_ ?_ ?_
  · rw [List.map_id, List.append_nil]
  · exact fun job _ => .refl time job
  · rw [List.append_nil]
    exact h.ids
  · simp
  · simp
  · simp
  · exact fun job _ _ hPending => Or.inl hPending
  · rw [List.map_id, List.append_nil]
    exact h.one

theorem Beating.write (h : Beating w) (hTime : ∀ now ∈ time, w.clock ≤ now ∧ Readable now)
    (hBeats : ∀ job ∈ w.file.jobs, Beats time job (g job)) (hIds : (jobIds (w.file.jobs ++ extra)).Nodup)
    (hStamped : ∀ job ∈ extra, ∃ now ∈ time, job.updatedAt = isoFromMillis now) (hRests : ∀ job ∈ extra, job.Rests)
    (hRecurs : ∀ job ∈ extra, job.schedule.kind ≠ .once) (hOne : OneHeartbeat (w.file.jobs.map g ++ extra)) :
    Beating ⟨(singleFile order).write (w.file.jobs.map g ++ extra) w.file, time.getD w.clock⟩ := by
  have hPerm := @mergeFreshJobs_perm w.file.jobs order g extra (fun job hMem => (hBeats job hMem).id) hIds
  rw [List.map_congr_left fun job hMem => h.fresher_eq hTime hMem (hBeats job hMem)] at hPerm
  exact h.rewrite hTime hPerm hBeats hIds hStamped hRests hRecurs (fun job _ _ hPending => Or.inl hPending) hOne

theorem Beating.written (h : Beating w) (hTime : ∀ now ∈ time, w.clock ≤ now ∧ Readable now) {ρ : Type}
    {t : StoreTransaction ρ}
    (hObeys : t.Obeys (· = w.file.jobs)
      (Rewrites (fun job copy => Beats time job copy ∧ KeepsSession job copy) (fun _ => False) w.file.jobs)
      (fun _ => False)) :
    Beating ⟨(t.exec (singleFile order) w.file).1, time.getD w.clock⟩ := by
  refine Transaction.exec_cases (singleFile order) (motive := fun file => Beating ⟨file, time.getD w.clock⟩) hObeys
    (h.same hTime) ?_ ?_
  · rintro draft ⟨g, extra, rfl, hKeeps, hExtra, -⟩
    obtain rfl : extra = [] := List.eq_nil_iff_forall_not_mem.mpr hExtra
    refine h.write hTime (fun job hMem => (hKeeps job hMem).1) ?_ ?_ ?_ ?_ ?_
    · rw [List.append_nil]
      exact h.ids
    · simp
    · simp
    · simp
    · rw [List.append_nil]
      exact h.one.map fun job hMem => (hKeeps job hMem).2
  · rintro mutation ⟨⟩

end Steps

section Operations

variable {w : Timed} {order : IterationOrder} {job : AgentCronJob} {now : Nat} {uuid : String}

theorem isLiveHeartbeat_iff {activeSessionId : String} : job.isLiveHeartbeat activeSessionId = true ↔
    job.activeSessionId = activeSessionId ∧ job.source = some "heartbeat" ∧ job.status.isLive = true := by
  simp only [AgentCronJob.isLiveHeartbeat, Bool.and_eq_true, decide_eq_true_eq, and_assoc]

theorem keepsSession_of_live {copy : AgentCronJob} (hLive : job.status.isLive = true)
    (hSession : copy.activeSessionId = job.activeSessionId) (hSource : copy.source = job.source) :
    KeepsSession job copy := by
  rintro activeSessionId hCopy
  rw [isLiveHeartbeat_iff, hSession, hSource] at hCopy
  exact isLiveHeartbeat_iff.mpr ⟨hCopy.1, hCopy.2.1, hLive⟩

theorem beats_cancelledAt : Beats (some now) job (job.cancelledAt now) :=
  ⟨rfl, rfl, Or.inr ⟨now, rfl, rfl⟩, fun _ _ => rfl, fun _ _ => rfl⟩

theorem beats_pausedAt : Beats (some now) job (job.pausedAt now) :=
  ⟨rfl, rfl, Or.inr ⟨now, rfl, rfl⟩, fun _ _ => rfl, fun _ _ => rfl⟩

theorem beats_resumed {nextRunAt : Nat} (hNext : nextRunAtForSchedule job.schedule now = .ok (some nextRunAt)) :
    Beats (some now) job ((job.activeAt now).runningAt nextRunAt) := by
  refine ⟨rfl, rfl, Or.inr ⟨now, rfl, rfl⟩, fun _ hStatus => absurd rfl hStatus, ?_⟩
  intro hOnce
  simp only [nextRunAtForSchedule, hOnce] at hNext
  cases hNext


theorem createHeartbeat_oneHeartbeat {jobs : List AgentCronJob} (h : OneHeartbeat jobs) (job : AgentCronJob) :
    OneHeartbeat (jobs.map (fun old => if old.isLiveHeartbeat job.activeSessionId then old.cancelledAt now else old)
      ++ [job]) := by
  have hOld : ∀ activeSessionId, ∀ copy ∈ jobs.map (fun old =>
      if old.isLiveHeartbeat job.activeSessionId then old.cancelledAt now else old),
      copy.isLiveHeartbeat activeSessionId = true → copy ∈ jobs ∧ activeSessionId ≠ job.activeSessionId := by
    rintro activeSessionId copy hMem hLive
    obtain ⟨old, hOldMem, rfl⟩ := List.mem_map.mp hMem
    split at hLive
    · cases (isLiveHeartbeat_iff.mp hLive).2.2
    next hOther =>
      rw [if_neg hOther]
      exact ⟨hOldMem, fun hSame => hOther (hSame ▸ hLive)⟩
  have hNew : ∀ activeSessionId, job.isLiveHeartbeat activeSessionId = true → activeSessionId = job.activeSessionId := by
    rintro activeSessionId hLive
    exact (isLiveHeartbeat_iff.mp hLive).1.symm
  rintro activeSessionId copy hMem copy' hMem' hLive hLive'
  rcases List.mem_append.mp hMem with hOldMem | hNewMem
  · obtain ⟨hCopy, hSession⟩ := hOld activeSessionId copy hOldMem hLive
    rcases List.mem_append.mp hMem' with hOldMem' | hNewMem'
    · exact h activeSessionId copy hCopy copy' (hOld activeSessionId copy' hOldMem' hLive').1 hLive hLive'
    · rw [List.mem_singleton.mp hNewMem'] at hLive'
      exact absurd (hNew activeSessionId hLive') hSession
  · rw [List.mem_singleton.mp hNewMem] at hLive ⊢
    rcases List.mem_append.mp hMem' with hOldMem' | hNewMem'
    · exact absurd (hNew activeSessionId hLive) (hOld activeSessionId copy' hOldMem' hLive').2
    · exact (List.mem_singleton.mp hNewMem').symm

theorem Beating.created (h : Beating w) {input : CreateAgentCronJobInput}
    (hTime : w.clock ≤ input.now ∧ Readable input.now) (hUuid : uuid ∉ jobIds w.file.jobs) :
    Beating ⟨((AgentCronJobStore.createHeartbeat uuid input).exec (singleFile order) w.file).1, input.now⟩ := by
  have hTimes : ∀ now ∈ some input.now, w.clock ≤ now ∧ Readable now := by
    rintro now ⟨⟩
    exact hTime
  unfold AgentCronJobStore.createHeartbeat
  split
  · exact h.same hTimes
  next parsed _ =>
    split
    · exact h.same hTimes
    next hRecurs =>
      split
      · exact h.same hTimes
      · refine @Beating.write w (some input.now) order _ _ h hTimes ?_ ?_ ?_ ?_ ?_
          (createHeartbeat_oneHeartbeat h.one (AgentCronJobStore.newJob uuid input "heartbeat" _ parsed))
        · rintro job -
          dsimp only
          split
          · exact beats_cancelledAt
          · exact .refl _ job
        · rw [jobIds_append]
          refine List.nodup_append.mpr ⟨h.ids, List.nodup_singleton _, ?_⟩
          rintro id hMem id' hMem' rfl
          rw [List.mem_singleton.mp hMem'] at hMem
          exact hUuid hMem
        · rintro job hMem
          rw [List.mem_singleton.mp hMem]
          exact ⟨input.now, rfl, rfl⟩
        · rintro job hMem
          rw [List.mem_singleton.mp hMem]
          exact fun hStatus => absurd rfl hStatus
        · rintro job hMem
          rw [List.mem_singleton.mp hMem]
          exact hRecurs

theorem beats_claimJob {claimedJobIds : List String} {dueAt : Nat} :
    Beats (some now) job (claimJob uuid claimedJobIds dueAt now job).1 ∧
      KeepsSession job (claimJob uuid claimedJobIds dueAt now job).1 ∧
      (isDueJob job dueAt = true → job.schedule.kind = .once →
        (claimJob uuid claimedJobIds dueAt now job).1.nextRunAt = none) := by
  have hRolled : job.schedule.kind = .once → rolledRunAt job.schedule now = none := fun hOnce => rolledRunAt_once hOnce now
  unfold claimJob
  split
  next hDue =>
    have hActive : job.status = .active := of_decide_eq_true (Bool.and_eq_true_iff.mp hDue).1
    have hLive : job.status.isLive = true := by
      rw [hActive]
      rfl
    dsimp only
    split
    · refine ⟨⟨rfl, rfl, Or.inr ⟨now, rfl, rfl⟩, fun _ hStatus => absurd hActive hStatus, fun hOnce _ => hRolled hOnce⟩, ?_⟩
      exact ⟨keepsSession_of_live hLive rfl rfl, fun _ hOnce => hRolled hOnce⟩
    · refine ⟨⟨rfl, rfl, Or.inr ⟨now, rfl, rfl⟩, fun _ hStatus => absurd hActive hStatus, fun hOnce _ => hRolled hOnce⟩, ?_⟩
      exact ⟨keepsSession_of_live hLive rfl rfl, fun _ hOnce => hRolled hOnce⟩
  next hDue => exact ⟨.refl _ job, fun _ hLive => hLive, fun hDue' => absurd hDue' hDue⟩

theorem Beating.claimed (h : Beating w) (uuids : String → String) (dueAt : Nat)
    (hTime : w.clock ≤ now ∧ Readable now) : Beating ⟨(claimDueInState uuids dueAt now w.file).1, now⟩ := by
  have hTimes : ∀ time ∈ some now, w.clock ≤ time ∧ Readable time := by
    rintro time ⟨⟩
    exact hTime
  have hJobs : (claimDueInState uuids dueAt now w.file).1.jobs
      = w.file.jobs.map fun job => (claimJob (uuids job.id) w.file.pendingJobs dueAt now job).1 := List.map_map
  obtain ⟨-, hPending, -, -⟩ := claimDueInState_claims uuids dueAt now w.file
  refine @Beating.rewrite w (some now) (fun job => (claimJob (uuids job.id) w.file.pendingJobs dueAt now job).1) [] h
    hTimes _ _ ?_ (fun job _ => beats_claimJob.1) ?_ ?_ ?_ ?_ ?_ ?_
  · rw [List.append_nil]
    exact .of_eq hJobs
  · rw [List.append_nil]
    exact h.ids
  · simp
  · simp
  · simp
  · rintro job hMem hOnce hClaimed
    change job.id ∈ (claimDueInState uuids dueAt now w.file).1.pendingJobs at hClaimed
    rw [hPending] at hClaimed
    rcases List.mem_append.mp hClaimed with hOld | hNew
    · exact Or.inl hOld
    · obtain ⟨job', hJob', hId⟩ := mem_jobIds.mp hNew
      obtain ⟨hMem', hDue⟩ := List.mem_filter.mp hJob'
      obtain rfl := job_eq_of_id h.ids hMem' hMem hId
      exact Or.inr (beats_claimJob.2.2 (Bool.and_eq_true_iff.mp hDue).1 hOnce)
  · rw [List.append_nil]
    exact h.one.map fun job _ => beats_claimJob.2.1

theorem beats_dispatchedJob {result : DispatchResultOptions} (hActive : job.status = .active)
    (hOnce : job.schedule.kind = .once → job.nextRunAt = none) :
    Beats (some result.now) job (dispatchedJob result job) := by
  have hRolled : job.schedule.kind = .once → rolledRunAt job.schedule result.now = none :=
    fun hKind => rolledRunAt_once hKind result.now
  have hRecurs : (if job.schedule.kind = .once then JobStatus.completed else job.status) ≠ .active →
      job.schedule.kind = .once := by
    intro hStatus
    by_contra hKind
    rw [if_neg hKind] at hStatus
    exact hStatus hActive
  unfold dispatchedJob
  dsimp only
  split
  · exact ⟨rfl, rfl, Or.inr ⟨result.now, rfl, rfl⟩, fun _ hStatus => hRolled (hRecurs hStatus), fun hKind _ => hRolled hKind⟩
  · exact ⟨rfl, rfl, Or.inr ⟨result.now, rfl, rfl⟩, fun _ hStatus => hOnce (hRecurs hStatus), fun _ hNone => hNone⟩

theorem Beating.recorded (h : Beating w) (dispatchId : String) (result : DispatchResultOptions)
    (hTime : w.clock ≤ result.now ∧ Readable result.now) :
    Beating ⟨(recordDispatchInState dispatchId result w.file).1, result.now⟩ := by
  have hTimes : ∀ time ∈ some result.now, w.clock ≤ time ∧ Readable time := by
    rintro time ⟨⟩
    exact hTime
  unfold recordDispatchInState
  split
  · exact h.same hTimes
  next dispatch hFind =>
    have hCopies : ∀ job ∈ w.file.jobs, Beats (some result.now) job
        (if (decide (job.id = dispatch.jobId) && decide (job.status = .active)) = true then dispatchedJob result job
          else job) ∧ KeepsSession job
        (if (decide (job.id = dispatch.jobId) && decide (job.status = .active)) = true then dispatchedJob result job
          else job) := by
      rintro job hMem
      split
      next hRecords =>
        simp only [Bool.and_eq_true, decide_eq_true_eq] at hRecords
        obtain ⟨hId, hActive⟩ := hRecords
        have hPending : job.id ∈ w.file.dispatches.map (·.jobId) :=
          List.mem_map.mpr ⟨dispatch, List.mem_of_find?_eq_some hFind, hId.symm⟩
        refine ⟨beats_dispatchedJob hActive fun hOnce => h.once job hMem hOnce hPending, keepsSession_of_live ?_ ?_ ?_⟩
        · rw [hActive]
          rfl
        · unfold dispatchedJob
          dsimp only
          split <;> rfl
        · unfold dispatchedJob
          dsimp only
          split <;> rfl
      · exact ⟨.refl _ job, fun _ hLive => hLive⟩
    refine @Beating.rewrite w (some result.now) _ [] h hTimes _ _ ?_ (fun job hMem => (hCopies job hMem).1) ?_ ?_ ?_ ?_ ?_ ?_
    · rw [List.append_nil]
    · rw [List.append_nil]
      exact h.ids
    · simp
    · simp
    · simp
    · rintro job hMem hOnce hPending
      obtain ⟨other, hOther, hId⟩ := List.mem_map.mp hPending
      exact Or.inl (List.mem_map.mpr ⟨other, (List.mem_filter.mp hOther).1, hId⟩)
    · rw [List.append_nil]
      exact h.one.map fun job hMem => (hCopies job hMem).2

end Operations

section Rebinds

def SessionBinding.finds (input : SessionBinding) (job : AgentCronJob) : Bool :=
  job.activeSessionId = input.activeSessionId || resolvePath job.sessionFile = resolvePath input.sessionFile

def SessionBinding.FindsOne (input : SessionBinding) (jobs : List AgentCronJob) : Prop :=
  ∀ job ∈ jobs, ∀ job' ∈ jobs, input.finds job = true → input.finds job' = true →
    job.isLiveHeartbeat job.activeSessionId = true → job'.isLiveHeartbeat job'.activeSessionId = true → job = job'

variable {w : Timed} {order : IterationOrder} {input : SessionBinding}

theorem isLiveHeartbeat_self {job : AgentCronJob} {activeSessionId : String}
    (h : job.isLiveHeartbeat activeSessionId = true) :
    job.activeSessionId = activeSessionId ∧ job.isLiveHeartbeat job.activeSessionId = true := by
  obtain ⟨rfl, hSource, hLive⟩ := isLiveHeartbeat_iff.mp h
  exact ⟨rfl, isLiveHeartbeat_iff.mpr ⟨rfl, hSource, hLive⟩⟩

theorem rebind_oneHeartbeat {jobs : List AgentCronJob} (h : OneHeartbeat jobs) (hOne : input.FindsOne jobs) :
    OneHeartbeat (jobs.map fun job => if AgentCronJobStore.rebinds input job then job.boundTo input else job) := by
  have hOld : ∀ activeSessionId, ∀ old : AgentCronJob,
      (if AgentCronJobStore.rebinds input old then old.boundTo input else old).isLiveHeartbeat activeSessionId = true →
        old.isLiveHeartbeat old.activeSessionId = true ∧
          (activeSessionId = input.activeSessionId ∧ input.finds old = true ∨ old.isLiveHeartbeat activeSessionId = true ∧
            activeSessionId ≠ input.activeSessionId) := by
    rintro activeSessionId old hLive
    split at hLive
    next hRebinds =>
      obtain ⟨hSession, hSource, hStatus⟩ := isLiveHeartbeat_iff.mp hLive
      refine ⟨isLiveHeartbeat_iff.mpr ⟨rfl, hSource, hStatus⟩, Or.inl ⟨hSession.symm, ?_⟩⟩
      exact (Bool.and_eq_true_iff.mp hRebinds).1
    next hOther =>
      obtain ⟨rfl, hSelf⟩ := isLiveHeartbeat_self hLive
      refine ⟨hSelf, ?_⟩
      by_cases hSession : old.activeSessionId = input.activeSessionId
      · refine Or.inl ⟨hSession, ?_⟩
        rw [SessionBinding.finds, decide_eq_true hSession]
        rfl
      · exact Or.inr ⟨hSelf, hSession⟩
  rintro activeSessionId job hMem job' hMem' hLive hLive'
  obtain ⟨old, hOldMem, rfl⟩ := List.mem_map.mp hMem
  obtain ⟨old', hOldMem', rfl⟩ := List.mem_map.mp hMem'
  obtain ⟨hSelf, hCase⟩ := hOld activeSessionId old hLive
  obtain ⟨hSelf', hCase'⟩ := hOld activeSessionId old' hLive'
  suffices hSame : old = old' by rw [hSame]
  rcases hCase with ⟨hSession, hFinds⟩ | ⟨hHere, hSession⟩
  · rcases hCase' with ⟨-, hFinds'⟩ | ⟨-, hSession'⟩
    · exact hOne old hOldMem old' hOldMem' hFinds hFinds' hSelf hSelf'
    · exact absurd hSession hSession'
  · rcases hCase' with ⟨hSession', -⟩ | ⟨hHere', -⟩
    · exact absurd hSession' hSession
    · exact h activeSessionId old hOldMem old' hOldMem' hHere hHere'

theorem Beating.rebound (h : Beating w) (hOne : input.FindsOne w.file.jobs) :
    Beating ⟨((AgentCronJobStore.rebindSessionJobs input).exec (singleFile order) w.file).1, w.clock⟩ := by
  have hTimes : ∀ now ∈ (none : Option Nat), w.clock ≤ now ∧ Readable now := by
    rintro now ⟨⟩
  unfold AgentCronJobStore.rebindSessionJobs AgentCronJobStore.updateWhere
  simp only [Transaction.exec]
  split
  · exact h
  · have hWritten := @Beating.write w none order
      (fun job => if AgentCronJobStore.rebinds input job then job.boundTo input else job) [] h hTimes ?_ ?_ ?_ ?_ ?_ ?_
    · rw [List.append_nil] at hWritten
      exact hWritten
    · rintro job -
      split
      · exact ⟨rfl, rfl, Or.inl rfl, fun hRests => hRests, fun _ hNone => hNone⟩
      · exact .refl _ job
    · rw [List.append_nil]
      exact h.ids
    · simp
    · simp
    · simp
    · rw [List.append_nil]
      exact rebind_oneHeartbeat h.one hOne

end Rebinds

section Runs

def StoreOp.KeepsBeat (file : CronJobsState) (op : StoreOp) : Prop :=
  (∀ now, op.beatTime = some (some now) → Readable now) ∧
    ∀ input, op = .rebindSessionJobs input → input.FindsOne file.jobs

variable {w : Timed} {order : IterationOrder}

theorem heartbeatStep_beating (h : Beating w) {op : StoreOp} {time : Option Nat} (hOp : op.beatTime = some time)
    (hTime : ∀ now ∈ time, w.clock ≤ now) (hUuid : op.DrawsNewJob w.file.jobs) (hKeeps : op.KeepsBeat w.file) :
    Beating ⟨(op.transaction.exec (singleFile order) w.file).1, time.getD w.clock⟩ := by
  obtain ⟨hReads, hFinds⟩ := hKeeps
  have hTimes : ∀ now ∈ time, w.clock ≤ now ∧ Readable now := by
    rintro now hNow
    exact ⟨hTime now hNow, hReads now (hOp.trans (congrArg some hNow))⟩
  have hKeep : ∀ job : AgentCronJob, Beats time job job ∧ KeepsSession job job :=
    fun job => ⟨.refl time job, fun _ hLive => hLive⟩
  cases op with
  | createHeartbeat uuid input =>
    obtain rfl := Option.some.inj hOp
    rw [StoreOp.transaction, Transaction.exec_map]
    exact h.created (hTimes _ rfl) (hUuid uuid rfl)
  | pauseHeartbeat activeSessionId now =>
    obtain rfl := Option.some.inj hOp
    rw [StoreOp.transaction, Transaction.exec_map]
    refine h.written hTimes (AgentCronJobStore.changeHeartbeat_rewrites h.ids hKeep ?_)
    rintro job - hLive
    exact ⟨beats_pausedAt, keepsSession_of_live (isLiveHeartbeat_iff.mp hLive).2.2 rfl rfl⟩
  | resumeHeartbeat activeSessionId now =>
    obtain rfl := Option.some.inj hOp
    rw [StoreOp.transaction, Transaction.exec_map]
    refine h.written hTimes (AgentCronJobStore.resumeHeartbeat_rewrites h.ids hKeep ?_)
    rintro job - hLive nextRunAt hNext
    exact ⟨beats_resumed hNext, keepsSession_of_live (isLiveHeartbeat_iff.mp hLive).2.2 rfl rfl⟩
  | clearHeartbeat activeSessionId now =>
    obtain rfl := Option.some.inj hOp
    rw [StoreOp.transaction, Transaction.exec_map]
    refine h.written hTimes (AgentCronJobStore.changeHeartbeat_rewrites h.ids hKeep ?_)
    rintro job - hLive
    exact ⟨beats_cancelledAt, keepsSession_of_live (isLiveHeartbeat_iff.mp hLive).2.2 rfl rfl⟩
  | manageHeartbeat activeSessionId id action now =>
    obtain rfl := Option.some.inj hOp
    rw [StoreOp.transaction, Transaction.exec_map]
    refine h.written hTimes (AgentCronJobStore.manageHeartbeat_rewrites h.ids hKeep ?_)
    rintro job - - - hLive
    refine ⟨?_, fun nextRunAt hNext => ⟨beats_resumed hNext, keepsSession_of_live hLive rfl rfl⟩⟩
    intro hAction
    cases action with
    | pause => exact ⟨beats_pausedAt, keepsSession_of_live hLive rfl rfl⟩
    | stop => exact ⟨beats_cancelledAt, keepsSession_of_live hLive rfl rfl⟩
    | resume => exact absurd rfl hAction
  | claimDue uuids dueAt now =>
    obtain rfl := Option.some.inj hOp
    exact h.claimed uuids dueAt (hTimes _ rfl)
  | recordDispatchResult dispatchId result =>
    obtain rfl := Option.some.inj hOp
    exact h.recorded dispatchId result (hTimes _ rfl)
  | rebindSessionJobs input =>
    obtain rfl := Option.some.inj hOp
    rw [StoreOp.transaction, Transaction.exec_map]
    exact h.rebound (hFinds input rfl)
  | create | cancelJobsForSession | cancel | recordRunResult | recordSkipResult | deferNextRun
  | recoverInterruptedDispatches | recoverInterruptedDispatchesById | createRlmHeartbeat | updateRlmHeartbeat
  | deleteRlmHeartbeat | cancelRlmHeartbeatsForSession => cases hOp

theorem heartbeatRun_beating {first : Timed} (hFirst : Beating first)
    (hRun : HeartbeatRun (fun file op => op.KeepsBeat file) first w) : Beating w := by
  induction hRun with
  | opened => exact hFirst
  | step order op time _ hOp hTime hUuid hKeeps ih => exact heartbeatStep_beating ih hOp hTime hUuid hKeeps

/-- Where no rebind finds two live heartbeats, each live session has at most one, and jobs at rest have no next run. -/
theorem heartbeatRun_oneHeartbeat {first : Timed} (hFirst : Beating first)
    (hRun : HeartbeatRun (fun file op => op.KeepsBeat file) first w) :
    OneHeartbeat w.file.jobs ∧ ∀ job ∈ w.file.jobs, job.status ≠ .active → job.nextRunAt = none :=
  ⟨(heartbeatRun_beating hFirst hRun).one, (heartbeatRun_beating hFirst hRun).rests⟩

end Runs

section Instances

theorem beating_empty (clock : Nat) : Beating ⟨⟨[], []⟩, clock⟩ :=
  ⟨by simp, by simp, by simp, by simp, by simp [OneHeartbeat]⟩

def Timed.after (w : Timed) (order : IterationOrder) (op : StoreOp) (now : Nat) : Timed :=
  ⟨(op.transaction.exec (singleFile order) w.file).1, now⟩

def beatInput (activeSessionId sessionFile : String) : CreateAgentCronJobInput where
  activeSessionId := activeSessionId
  sessionId := sessionFile
  sessionFile := sessionFile
  cwd := "/w"
  label := none
  prompt := "look at the queue"
  scheduleText := "every 5m"
  source := none
  runtimeKind := none
  deliveryMode := none
  now := 60000

def noBeat : Timed := ⟨⟨[], []⟩, 0⟩

def firstBeat : Timed :=
  noBeat.after .stored (.createHeartbeat "h-1" (beatInput "a" "/w/1.jsonl")) 60000

def twoBeats : Timed :=
  firstBeat.after .stored (.createHeartbeat "h-2" (beatInput "b" "/w/2.jsonl")) 60000

def rebound : Timed :=
  twoBeats.after .stored (.rebindSessionJobs ⟨"a", "2", "/w/2.jsonl", "/w"⟩) 60000

theorem pausedBeat_oneHeartbeat : OneHeartbeat (firstBeat.after .stored (.pauseHeartbeat "a" 60000) 60000).file.jobs := by
  have hReadable : Readable 60000 := by decide +kernel
  have hCreated : HeartbeatRun (fun file op => op.KeepsBeat file) noBeat firstBeat := by
    refine .step .stored _ (some 60000) .opened rfl (fun _ _ => Nat.zero_le _) (fun _ _ => List.not_mem_nil) ⟨?_, ?_⟩
    · rintro now ⟨⟩
      exact hReadable
    · rintro input ⟨⟩
  refine (heartbeatRun_oneHeartbeat (beating_empty 0) (.step .stored (.pauseHeartbeat "a" 60000) (some 60000) hCreated rfl
    ?_ ?_ ⟨?_, ?_⟩)).1
  · rintro now ⟨⟩
    exact le_rfl
  · rintro uuid ⟨⟩
  · rintro now ⟨⟩
    exact hReadable
  · rintro input ⟨⟩

theorem rebound_twoHeartbeats :
    ∃ w, HeartbeatRun (fun _ _ => True) noBeat w ∧ ¬ OneHeartbeat w.file.jobs := by
  have hFresh : "h-2" ∉ jobIds firstBeat.file.jobs ∧
      (rebound.file.jobs.filter (·.isLiveHeartbeat "a")).map (·.id) = ["h-1", "h-2"] := by decide +kernel
  have hFirst : HeartbeatRun (fun _ _ => True) noBeat firstBeat :=
    .step .stored _ (some 60000) .opened rfl (fun _ _ => Nat.zero_le _) (fun _ _ => List.not_mem_nil) trivial
  have hSecond : HeartbeatRun (fun _ _ => True) noBeat twoBeats := by
    refine .step .stored _ (some 60000) hFirst rfl ?_ ?_ trivial
    · rintro now ⟨⟩
      exact le_rfl
    · rintro uuid ⟨⟩
      exact hFresh.1
  refine ⟨rebound, .step .stored (.rebindSessionJobs _) none hSecond rfl ?_ ?_ trivial, ?_⟩
  · rintro now ⟨⟩
  · rintro uuid ⟨⟩
  · intro hOne
    have hIds : ∀ id ∈ ["h-1", "h-2"], ∃ job ∈ rebound.file.jobs, job.isLiveHeartbeat "a" = true ∧ job.id = id := by
      rintro id hMem
      rw [← hFresh.2] at hMem
      obtain ⟨job, hJob, rfl⟩ := List.mem_map.mp hMem
      obtain ⟨hJobMem, hLive⟩ := List.mem_filter.mp hJob
      exact ⟨job, hJobMem, hLive, rfl⟩
    obtain ⟨job, hJob, hLive, hId⟩ := hIds "h-1" (by simp)
    obtain ⟨job', hJob', hLive', hId'⟩ := hIds "h-2" (by simp)
    rw [hOne "a" job hJob job' hJob' hLive hLive', hId'] at hId
    exact absurd hId (by decide)

end Instances

end PrimeAgent
