import PrimeAgent.Cron.Rewrites

/-! # Cancels under interleaving

A write brings back the copies of the jobs its client has read. One that is stamped no earlier than a cancel in between
undoes it.
-/
namespace PrimeAgent

section Freshness

variable {candidate middle current : AgentCronJob}

theorem isAtLeastAsFresh_refl (job : AgentCronJob) : isAtLeastAsFresh job job = true := by
  unfold isAtLeastAsFresh
  split
  · rfl
  · exact decide_eq_true le_rfl

theorem isAtLeastAsFresh_trans (hFirst : isAtLeastAsFresh candidate middle = true)
    (hSecond : isAtLeastAsFresh middle current = true) : isAtLeastAsFresh candidate current = true := by
  unfold isAtLeastAsFresh at *
  cases hCurrent : parseIsoMillis current.updatedAt with
  | none => rfl
  | some currentTime =>
    rw [hCurrent] at hSecond
    cases hMiddle : parseIsoMillis middle.updatedAt with
    | none =>
      rw [hMiddle] at hSecond
      cases hSecond
    | some middleTime =>
      rw [hMiddle] at hFirst hSecond
      cases hCandidate : parseIsoMillis candidate.updatedAt with
      | none =>
        rw [hCandidate] at hFirst
        cases hFirst
      | some candidateTime =>
        rw [hCandidate] at hFirst
        exact decide_eq_true ((of_decide_eq_true hSecond).trans (of_decide_eq_true hFirst))

theorem lookup_foldl_merge_over {id : String} {row stored : AgentCronJob} {next : List AgentCronJob}
    {m : HashMap String AgentCronJob}
    (hStale : ∀ copy ∈ next, copy.id = id → copy.status.isLive = true → isAtLeastAsFresh copy row = false)
    (hLookup : m.lookup id = some stored) (hOver : stored.status.isLive = false)
    (hFresh : isAtLeastAsFresh stored row = true) :
    ∃ merged, (next.foldl mergeFreshJob m).lookup id = some merged ∧ merged.status.isLive = false := by
  induction next generalizing m stored with
  | nil => exact ⟨stored, hLookup, hOver⟩
  | cons first next ih =>
    have hRest := fun copy hMem => hStale copy (List.mem_cons_of_mem first hMem)
    rw [List.foldl_cons]
    by_cases hId : first.id = id
    · subst hId
      have hMerged := @lookup_mergeFreshJob_self m first
      rw [hLookup, Option.all_some] at hMerged
      by_cases hWins : isAtLeastAsFresh first stored = true
      · rw [if_pos hWins] at hMerged
        have hAlso := isAtLeastAsFresh_trans hWins hFresh
        refine ih hRest hMerged ?_ hAlso
        by_contra hLive
        rw [hStale first List.mem_cons_self rfl (Bool.of_not_eq_false hLive)] at hAlso
        cases hAlso
      · rw [if_neg hWins] at hMerged
        exact ih hRest hMerged hOver hFresh
    · exact ih hRest ((lookup_mergeFreshJob_ne (Ne.symm hId)).trans hLookup) hOver hFresh

end Freshness

def StoreOp.time : StoreOp → Option Nat
  | .create _ input | .createHeartbeat _ input | .createRlmHeartbeat _ input => some input.now
  | .rebindSessionJobs _ => none
  | .cancelJobsForSession _ now | .cancel _ now | .recordSkipResult _ now | .deferNextRun _ _ now | .claimDue _ _ now
  | .recoverInterruptedDispatches now | .recoverInterruptedDispatchesById _ now | .pauseHeartbeat _ now
  | .resumeHeartbeat _ now | .clearHeartbeat _ now | .manageHeartbeat _ _ _ now | .deleteRlmHeartbeat _ _ now
  | .cancelRlmHeartbeatsForSession _ now => some now
  | .recordRunResult _ result => some result.now
  | .recordDispatchResult _ result => some result.now
  | .updateRlmHeartbeat _ _ update => some update.now

/-- A state file, the ids it has ever had a cancelled row of, and the time of the last start. -/
structure CancelHistory where
  file : CronJobsState
  cancelled : List String
  clock : Nat

namespace CancelHistory

def cancelledIds (file : CronJobsState) : List String :=
  jobIds (file.jobs.filter (·.status = .cancelled))

def record (s : CancelHistory) (file : CronJobsState) : CancelHistory :=
  ⟨file, s.cancelled ++ cancelledIds file, s.clock⟩

def store (order : IterationOrder) : Store CancelHistory (List AgentCronJob) (List AgentCronJob) Mutation Answer where
  view s := s.file.jobs
  write draft s := s.record ((singleFile order).write draft s.file)
  mutate mutation s := (s.record (mutation s.file).1, (mutation s.file).2)

def Opened (s : CancelHistory) : Prop :=
  (jobIds s.file.jobs).Nodup ∧ s.cancelled = cancelledIds s.file

def Starts (s : CancelHistory) (t : StoreTransaction StoreResult) (s' : CancelHistory) : Prop :=
  ∃ op : StoreOp, t = op.transaction ∧ (∀ now, op.time = some now → s.clock ≤ now) ∧ op.DrawsNewJob s.file.jobs ∧
    s' = { s with clock := op.time.getD s.clock }

def WritesStale (s : CancelHistory) (draft : List AgentCronJob) : Prop :=
  ∀ copy ∈ draft, copy.status.isLive = true → copy.id ∈ s.cancelled → ∀ row ∈ s.file.jobs, row.id = copy.id →
    isAtLeastAsFresh copy row = false

structure Honoured (s : CancelHistory) : Prop where
  ids : (jobIds s.file.jobs).Nodup
  ended : ∀ id ∈ s.cancelled, ∃ job ∈ s.file.jobs, job.id = id ∧ job.status.isLive = false

variable {s : CancelHistory} {order : IterationOrder} {file : CronJobsState}

theorem exists_cancelled {id : String} (hMem : id ∈ cancelledIds file) :
    ∃ job ∈ file.jobs, job.id = id ∧ job.status.isLive = false := by
  obtain ⟨job, hJob, rfl⟩ := mem_jobIds.mp hMem
  obtain ⟨hMem, hStatus⟩ := List.mem_filter.mp hJob
  refine ⟨job, hMem, rfl, ?_⟩
  rw [of_decide_eq_true hStatus]
  rfl

theorem Opened.honoured (h : s.Opened) : s.Honoured := by
  refine ⟨h.1, fun id hMem => ?_⟩
  rw [h.2] at hMem
  exact exists_cancelled hMem

theorem Honoured.recorded (h : s.Honoured) (hIds : (jobIds file.jobs).Nodup)
    (hOver : ∀ job ∈ s.file.jobs, job.id ∈ s.cancelled → job.status.isLive = false →
      ∃ next ∈ file.jobs, next.id = job.id ∧ next.status.isLive = false) : (s.record file).Honoured := by
  refine ⟨hIds, ?_⟩
  rintro id hMem
  rcases List.mem_append.mp hMem with hOld | hNew
  · obtain ⟨job, hJob, rfl, hJobOver⟩ := h.ended id hOld
    exact hOver job hJob hOld hJobOver
  · exact exists_cancelled hNew

theorem Honoured.written (h : s.Honoured) {draft : List AgentCronJob} (hTerms : s.WritesStale draft) :
    ((store order).write draft s).Honoured := by
  refine h.recorded (mergeFreshJobs_nodup order _ _) ?_
  rintro row hRow hCancelled hOver
  have hStale : ∀ copy ∈ draft, copy.id = row.id → copy.status.isLive = true → isAtLeastAsFresh copy row = false := by
    rintro copy hCopy hId hLive
    exact hTerms copy hCopy hLive (hId ▸ hCancelled) row hRow hId.symm
  obtain ⟨merged, hMerged, hMergedOver⟩ := lookup_foldl_merge_over hStale (lookup_jobsById_of_mem h.ids hRow) hOver
    (isAtLeastAsFresh_refl row)
  have hId := mergedById_keyed _ _ row.id merged hMerged
  exact ⟨merged, mem_mergeFreshJobs.mpr (hId ▸ hMerged), hId, hMergedOver⟩

theorem Honoured.mutated (h : s.Honoured) {mutation : Mutation} (hKeeps : ContinuesJobs mutation) :
    ((store order).mutate mutation s).1.Honoured := by
  obtain ⟨g, hJobs, hContinues, -⟩ := hKeeps s.file
  refine h.recorded ?_ ?_
  · rw [hJobs, jobIds_map fun job hMem => (hContinues job hMem).id]
    exact h.ids
  · rintro job hMem - hOver
    refine ⟨g job, hJobs ▸ List.mem_map.mpr ⟨job, hMem, rfl⟩, (hContinues job hMem).id, ?_⟩
    rw [Bool.eq_false_iff] at hOver ⊢
    exact fun hLive => hOver ((hContinues job hMem).live hLive)

end CancelHistory

section Operations

variable {M : Mutation → Prop} {p : AgentCronJob → Bool} {f : AgentCronJob → AgentCronJob}

theorem updateWhere_obeys : (AgentCronJobStore.updateWhere p f).Obeys (fun _ => True) (fun _ => True) M := by
  rintro jobs -
  dsimp only
  split <;> trivial

theorem changeHeartbeat_obeys (activeSessionId : String) :
    (AgentCronJobStore.changeHeartbeat activeSessionId f).Obeys (fun _ => True) (fun _ => True) M := by
  rintro jobs -
  dsimp only
  split
  · trivial
  · rintro jobs' -
    trivial

theorem StoreOp.transaction_mutates (op : StoreOp) :
    op.transaction.Obeys (fun _ => True) (fun _ => True) ContinuesJobs := by
  cases hNew : op.newId with
  | some uuid =>
    rcases op.creates hNew with ⟨message, hRefused⟩ | ⟨g, job, hAdded, -, -⟩
    · rw [hRefused]
      trivial
    · rw [hAdded]
      rintro jobs -
      trivial
  | none =>
    cases op with
    | create | createHeartbeat | createRlmHeartbeat => cases hNew
    | rebindSessionJobs | cancelJobsForSession | cancelRlmHeartbeatsForSession =>
      exact (Transaction.obeys_map _).mpr updateWhere_obeys
    | cancel | recordRunResult | recordSkipResult | deleteRlmHeartbeat =>
      exact (Transaction.obeys_map _).mpr ((Transaction.obeys_map _).mpr updateWhere_obeys)
    | deferNextRun id untilMs clock => exact deferInState_continuesJobs id untilMs clock
    | claimDue uuids dueAt claimedAt => exact claimDueInState_continuesJobs uuids dueAt claimedAt
    | recordDispatchResult dispatchId result => exact recordDispatchInState_continuesJobs dispatchId result
    | recoverInterruptedDispatches now => exact recoverInterruptedInState_continuesJobs none now
    | recoverInterruptedDispatchesById dispatchIds now => exact recoverInterruptedInState_continuesJobs (some dispatchIds) now
    | pauseHeartbeat activeSessionId | clearHeartbeat activeSessionId =>
      exact (Transaction.obeys_map _).mpr (changeHeartbeat_obeys activeSessionId)
    | resumeHeartbeat activeSessionId now =>
      refine (Transaction.obeys_map _).mpr ?_
      rintro jobs -
      dsimp only
      split
      · trivial
      · split
        · trivial
        · trivial
        · rintro jobs' -
          trivial
    | manageHeartbeat activeSessionId id action now =>
      refine (Transaction.obeys_map _).mpr ?_
      rintro jobs -
      dsimp only
      split
      · trivial
      · split
        · split <;> trivial
        · trivial
    | updateRlmHeartbeat activeSessionId id update =>
      refine (Transaction.obeys_map _).mpr ?_
      rintro jobs -
      dsimp only
      split
      · split <;> trivial
      · trivial

end Operations

section Runs

open CancelHistory

variable {ι : Type} [DecidableEq ι]

abbrev CancelRun (terms : CancelHistory → List AgentCronJob → Prop) :
    Clients ι CancelHistory (StoreTransaction StoreResult) → Prop :=
  Clients.Run store Opened Starts terms

theorem cancelRun_honoured {c : Clients ι CancelHistory (StoreTransaction StoreResult)} (hRun : CancelRun WritesStale c) :
    c.state.Honoured := by
  have hStarts : ∀ s t s', Honoured s → Starts s t s' →
      s'.Honoured ∧ t.Obeys (fun _ => True) (fun _ => True) ContinuesJobs := by
    rintro s t s' hHonoured ⟨op, rfl, -, -, rfl⟩
    exact ⟨⟨hHonoured.ids, hHonoured.ended⟩, op.transaction_mutates⟩
  refine Clients.Run.invariant (fun s hFirst => hFirst.honoured) hStarts ?_ ?_ hRun
  · rintro order s draft hHonoured - hTerms
    exact hHonoured.written hTerms
  · rintro order s mutation hHonoured hKeeps
    exact hHonoured.mutated hKeeps

/-- Where no write has a live copy as fresh as the row of a cancelled job, no cancelled job is active or paused again. -/
theorem cancelRun_staysCancelled {c : Clients ι CancelHistory (StoreTransaction StoreResult)}
    (hRun : CancelRun WritesStale c) :
    ∀ job ∈ c.state.file.jobs, job.id ∈ c.state.cancelled → job.status ≠ .active ∧ job.status ≠ .paused := by
  rintro job hMem hCancelled
  have hHonoured := cancelRun_honoured hRun
  obtain ⟨row, hRow, hId, hOver⟩ := hHonoured.ended job.id hCancelled
  obtain rfl := job_eq_of_id hHonoured.ids hRow hMem hId
  constructor
  · intro hStatus
    rw [hStatus] at hOver
    cases hOver
  · intro hStatus
    rw [hStatus] at hOver
    cases hOver

end Runs

section Instances

open CancelHistory

def runningJob : AgentCronJob where
  id := "j"
  status := .active
  source := some "cron"
  runtimeKind := none
  deliveryMode := none
  activeSessionId := "a"
  sessionId := "s"
  sessionFile := "/w/1.jsonl"
  cwd := "/w"
  label := none
  prompt := "look at the queue"
  schedule := ⟨.interval, "every 5m", some 300000⟩
  createdAt := "1970-01-01T00:00:00.000Z"
  updatedAt := "1970-01-01T00:00:00.000Z"
  nextRunAt := some "1970-01-01T00:05:00.000Z"
  lastRunAt := none
  lastSkippedAt := none
  lastError := none
  runCount := 0

def runningFile : CancelHistory :=
  ⟨⟨[runningJob], []⟩, [], 0⟩

def ranAt (now : Nat) : AgentCronJob :=
  AgentCronJobStore.ranJob ⟨now, none⟩ runningJob

def Reads (op : StoreOp) (now : Nat) (draft : List AgentCronJob) : Prop :=
  op.time = some now ∧ op.newId = none ∧ ∃ next result, op.transaction = .read next ∧ next [runningJob] = .write draft result

theorem cancel_reads (now : Nat) : Reads (.cancel "j" now) now [runningJob.cancelledAt now] :=
  ⟨rfl, rfl, _, _, rfl, rfl⟩

theorem recordRunResult_reads (now : Nat) : Reads (.recordRunResult "j" ⟨now, none⟩) now [ranAt now] :=
  ⟨rfl, rfl, _, _, rfl, rfl⟩

theorem race_run {terms : CancelHistory → List AgentCronJob → Prop} {op op' : StoreOp} {now now' : Nat}
    {drafts : Bool → List AgentCronJob} (hReads : Reads op now (drafts true)) (hReads' : Reads op' now' (drafts false))
    (hTimes : now ≤ now') (first : Bool) (hTerms : terms ⟨runningFile.file, [], now'⟩ (drafts first))
    (hTerms' : terms ((store .stored).write (drafts first) ⟨runningFile.file, [], now'⟩) (drafts !first)) :
    ∃ c : Clients Bool CancelHistory (StoreTransaction StoreResult), CancelRun terms c ∧
      c.state = (store .stored).write (drafts !first) ((store .stored).write (drafts first) ⟨runningFile.file, [], now'⟩) := by
  obtain ⟨hTime, hNew, next, result, hTransaction, hNext⟩ := hReads
  obtain ⟨hTime', hNew', next', result', hTransaction', hNext'⟩ := hReads'
  have hStarts : Starts runningFile op.transaction ⟨runningFile.file, [], now⟩ := by
    refine ⟨op, rfl, fun _ _ => Nat.zero_le _, ?_, ?_⟩
    · rintro uuid hUuid
      rw [hNew] at hUuid
      cases hUuid
    · rw [hTime]
      rfl
  have hStarts' : Starts ⟨runningFile.file, [], now⟩ op'.transaction ⟨runningFile.file, [], now'⟩ := by
    refine ⟨op', rfl, ?_, ?_, ?_⟩
    · rintro time hHere
      rwa [← Option.some.inj (hTime'.symm.trans hHere)]
    · rintro uuid hUuid
      rw [hNew'] at hUuid
      cases hUuid
    · rw [hTime']
      rfl
  have hOpened : CancelRun terms ⟨runningFile, fun _ : Bool => none⟩ := .idle runningFile ⟨List.nodup_singleton _, rfl⟩
  have hBegun := (hOpened.begin true op.transaction rfl hStarts).read true .stored next (congrArg some hTransaction)
  have hBegun' := (hBegun.begin false op'.transaction rfl hStarts').read false .stored next' (congrArg some hTransaction')
  cases first with
  | true =>
    have hWritten := hBegun'.write true .stored _ result (congrArg some hNext) hTerms
    exact ⟨_, hWritten.write false .stored _ result' (congrArg some hNext') hTerms', rfl⟩
  | false =>
    have hWritten := hBegun'.write false .stored _ result' (congrArg some hNext') hTerms
    exact ⟨_, hWritten.write true .stored _ result (congrArg some hNext) hTerms', rfl⟩

theorem ranThenCancelled_staysCancelled : ∃ c : Clients Bool CancelHistory (StoreTransaction StoreResult),
    CancelRun WritesStale c ∧ "j" ∈ c.state.cancelled ∧ ∀ job ∈ c.state.file.jobs, job.id = "j" → job.status ≠ .active := by
  have hStale : WritesStale ((store .stored).write [runningJob.cancelledAt 61000] ⟨runningFile.file, [], 61000⟩)
      [ranAt 60000] ∧ "j" ∈ ((store .stored).write [ranAt 60000]
        ((store .stored).write [runningJob.cancelledAt 61000] ⟨runningFile.file, [], 61000⟩)).cancelled := by
    unfold WritesStale
    decide +kernel
  obtain ⟨c, hRun, hState⟩ := @race_run WritesStale _ _ 60000 61000
    (fun client => if client then [ranAt 60000] else [runningJob.cancelledAt 61000]) (recordRunResult_reads 60000)
    (cancel_reads 61000) (by decide) false (fun _ _ _ hMem => absurd hMem List.not_mem_nil) hStale.1
  have hCancelled : "j" ∈ c.state.cancelled := by
    rw [hState]
    exact hStale.2
  refine ⟨c, hRun, hCancelled, ?_⟩
  rintro job hMem hId
  exact (cancelRun_staysCancelled hRun job hMem (hId ▸ hCancelled)).1

theorem cancelledThenRan_undone : ∃ c : Clients Bool CancelHistory (StoreTransaction StoreResult),
    CancelRun (fun _ _ => True) c ∧ ∃ job ∈ c.state.file.jobs, job.id ∈ c.state.cancelled ∧ job.status = .active := by
  obtain ⟨c, hRun, hState⟩ := @race_run (fun _ _ => True) _ _ 60000 61000
    (fun client => if client then [runningJob.cancelledAt 60000] else [ranAt 61000]) (cancel_reads 60000)
    (recordRunResult_reads 61000) (by decide) true trivial trivial
  refine ⟨c, hRun, ?_⟩
  rw [hState]
  decide +kernel

end Instances

end PrimeAgent
