import PrimeAgent.Cron.Rewrites

/-! # Session artifacts

A store that spans the artifact files of the registered sessions. A write takes the jobs apart by session, and the
dispatches with them.
-/
namespace PrimeAgent

structure SessionArtifacts where
  files : HashMap String String
  disk : String → CronJobsState

namespace SessionArtifacts

def readJobs (order : IterationOrder) (s : SessionArtifacts) : List AgentCronJob :=
  (s.files.values order).flatMap fun path => (s.disk path).jobs

/-- `mutate_states`: the mutation of each file in turn. -/
def mutateStates (order : IterationOrder) (mutation : Mutation) (s : SessionArtifacts) : SessionArtifacts × Answer :=
  let (disk, answer) := (s.files.values order).foldl (fun (disk, answer) path =>
    let (state, next) := mutation (disk path)
    (Function.update disk path state, ⟨answer.dispatches ++ next.dispatches, answer.jobs ++ next.jobs⟩))
    (s.disk, ⟨[], []⟩)
  ({ s with disk := disk }, answer)

/-- The jobs of a file merged with those that are written to its session. A job whose incoming copy is of another
session is not retained. -/
def mergedJobs (order : IterationOrder) (jobs : List AgentCronJob) (s : SessionArtifacts) (sessionId path : String) :
    List AgentCronJob :=
  let incomingById := jobsById jobs
  let retained := (s.disk path).jobs.filter fun job => (incomingById.lookup job.id).all (·.sessionId = sessionId)
  mergeFreshJobs order retained (jobs.filter (·.sessionId = sessionId))

/-- `write_jobs_session_artifacts`. A job of a session that is not registered has nothing written. -/
def writeJobs (order : IterationOrder) (jobs : List AgentCronJob) (s : SessionArtifacts) : SessionArtifacts :=
  if jobs.any fun job => !(s.files.lookup job.sessionId).isSome then s
  else
    let artifactFiles := s.files.walk order
    let sessionIdByJobId : HashMap String String :=
      (artifactFiles.flatMap fun (sessionId, path) =>
        (mergedJobs order jobs s sessionId path).map fun job => (job.id, sessionId)).foldl
        (fun m (jobId, sessionId) => m.insert jobId sessionId) ∅
    let allDispatches := artifactFiles.flatMap fun (_, path) => (s.disk path).dispatches
    { s with
      disk := artifactFiles.foldl (fun disk (sessionId, path) => Function.update disk path
        ⟨mergedJobs order jobs s sessionId path,
          allDispatches.filter fun dispatch => sessionIdByJobId.lookup dispatch.jobId = some sessionId⟩) s.disk }

def store (order : IterationOrder) : Store SessionArtifacts (List AgentCronJob) (List AgentCronJob) Mutation Answer where
  view := readJobs order
  write := writeJobs order
  mutate := mutateStates order

def state (s : SessionArtifacts) (sessionId : String) : CronJobsState :=
  match s.files.lookup sessionId with
  | some path => s.disk path
  | none => ⟨[], []⟩

def OwnFiles (s : SessionArtifacts) : Prop :=
  ∀ sessionId sessionId' path, s.files.lookup sessionId = some path → s.files.lookup sessionId' = some path →
    sessionId = sessionId'

/-- The jobs are where their sessions are, each once, and the dispatches where their jobs are. -/
structure Partitioned (s : SessionArtifacts) : Prop where
  own : s.OwnFiles
  sessions : ∀ sessionId, ∀ job ∈ (s.state sessionId).jobs, job.sessionId = sessionId
  ids : ∀ sessionId, (jobIds (s.state sessionId).jobs).Nodup
  apart : ∀ id sessionId sessionId', id ∈ jobIds (s.state sessionId).jobs → id ∈ jobIds (s.state sessionId').jobs →
    sessionId = sessionId'
  pending : ∀ sessionId, ∀ dispatch ∈ (s.state sessionId).dispatches,
    dispatch.jobId ∈ jobIds (s.state sessionId).jobs

variable {s : SessionArtifacts} {order : IterationOrder} {sessionId path : String} {job : AgentCronJob}

theorem state_of_lookup (hFile : s.files.lookup sessionId = some path) : s.state sessionId = s.disk path := by
  unfold state
  rw [hFile]

theorem state_of_unregistered (hFile : s.files.lookup sessionId = none) : s.state sessionId = ⟨[], []⟩ := by
  unfold state
  rw [hFile]

theorem mem_readJobs : job ∈ s.readJobs order ↔ ∃ sessionId, job ∈ (s.state sessionId).jobs := by
  rw [readJobs, List.mem_flatMap]
  constructor
  · rintro ⟨path, hPath, hMem⟩
    obtain ⟨sessionId, hFile⟩ := (HashMap.mem_values order).mp hPath
    refine ⟨sessionId, ?_⟩
    rwa [state_of_lookup hFile]
  · rintro ⟨sessionId, hMem⟩
    cases hFile : s.files.lookup sessionId with
    | none =>
      rw [state_of_unregistered hFile] at hMem
      cases hMem
    | some path =>
      rw [state_of_lookup hFile] at hMem
      exact ⟨path, (HashMap.mem_values order).mpr ⟨sessionId, hFile⟩, hMem⟩

theorem mem_readJobs_ids {id : String} : id ∈ jobIds (s.readJobs order) ↔ ∃ sessionId, id ∈ jobIds (s.state sessionId).jobs := by
  rw [mem_jobIds]
  constructor
  · rintro ⟨job, hMem, rfl⟩
    obtain ⟨sessionId, hMem⟩ := mem_readJobs.mp hMem
    exact ⟨sessionId, mem_jobIds.mpr ⟨job, hMem, rfl⟩⟩
  · rintro ⟨sessionId, hId⟩
    obtain ⟨job, hMem, rfl⟩ := mem_jobIds.mp hId
    exact ⟨job, mem_readJobs.mpr ⟨sessionId, hMem⟩, rfl⟩

theorem Partitioned.registered (h : s.Partitioned) (hMem : job ∈ (s.state sessionId).jobs) :
    (s.files.lookup job.sessionId).isSome = true := by
  rw [h.sessions sessionId job hMem]
  cases hFile : s.files.lookup sessionId with
  | none =>
    rw [state_of_unregistered hFile] at hMem
    cases hMem
  | some path => rfl

theorem Partitioned.readJobs_nodup (h : s.Partitioned) (order : IterationOrder) : (jobIds (s.readJobs order)).Nodup := by
  have hWalk : (s.files.walk order).Nodup := (HashMap.walk_nodup order).of_map
  rw [readJobs, jobIds, List.map_flatMap, HashMap.values, List.flatMap_map, List.nodup_flatMap]
  constructor
  · rintro ⟨sessionId, path⟩ hMem
    rw [← state_of_lookup ((HashMap.mem_walk order).mp hMem)]
    exact h.ids sessionId
  · refine hWalk.pairwise_of_forall_ne ?_
    rintro ⟨sessionId, path⟩ hMem ⟨sessionId', path'⟩ hMem' hNe id hHere hThere
    have hFile := (HashMap.mem_walk order).mp hMem
    have hFile' := (HashMap.mem_walk order).mp hMem'
    dsimp only at hHere hThere
    rw [← state_of_lookup hFile] at hHere
    rw [← state_of_lookup hFile'] at hThere
    obtain rfl := h.apart id sessionId sessionId' hHere hThere
    rw [hFile] at hFile'
    exact hNe (congrArg (Prod.mk sessionId) (Option.some.inj hFile'))

theorem OwnFiles.values_nodup (h : s.OwnFiles) (order : IterationOrder) : (s.files.values order).Nodup := by
  refine (HashMap.walk_nodup order).of_map.map_on ?_
  rintro ⟨sessionId, path⟩ hMem ⟨sessionId', path'⟩ hMem' hPath
  dsimp only at hPath
  subst hPath
  rw [h sessionId sessionId' path ((HashMap.mem_walk order).mp hMem) ((HashMap.mem_walk order).mp hMem')]

section Mutations

theorem mutateStates_state (hOwn : s.OwnFiles) (mutation : Mutation) (hFile : s.files.lookup sessionId = some path) :
    (s.mutateStates order mutation).1.state sessionId = (mutation (s.state sessionId)).1 := by
  have hDisk : (s.mutateStates order mutation).1.disk
      = (s.files.values order).foldl (fun disk path => Function.update disk path (mutation (disk path)).1) s.disk :=
    (List.foldl_hom Prod.fst fun _ _ => rfl).symm
  have hMem : path ∈ s.files.values order := (HashMap.mem_values order).mpr ⟨sessionId, hFile⟩
  have hNodup : ((s.files.values order).map id).Nodup := by
    rw [List.map_id]
    exact hOwn.values_nodup order
  have hFile' : (s.mutateStates order mutation).1.files.lookup sessionId = some path := hFile
  rw [state_of_lookup hFile', state_of_lookup hFile, hDisk]
  exact (foldl_update_apply hNodup (fun _ state => (mutation state).1) s.disk).1 path hMem

theorem Partitioned.mutated (h : s.Partitioned) {mutation : Mutation} (hKeeps : ContinuesJobs mutation) :
    (s.mutateStates order mutation).1.Partitioned ∧
      ∀ sessionId, jobIds ((s.mutateStates order mutation).1.state sessionId).jobs = jobIds (s.state sessionId).jobs := by
  have hStates : ∀ sessionId, ∃ g, ((s.mutateStates order mutation).1.state sessionId).jobs
        = (s.state sessionId).jobs.map g ∧
      (∀ job ∈ (s.state sessionId).jobs, Continues job (g job)) ∧
        ∀ dispatch ∈ ((s.mutateStates order mutation).1.state sessionId).dispatches,
          dispatch ∈ (s.state sessionId).dispatches ∨ dispatch.jobId ∈ jobIds (s.state sessionId).jobs := by
    intro sessionId
    cases hFile : s.files.lookup sessionId with
    | none =>
      have hFile' : (s.mutateStates order mutation).1.files.lookup sessionId = none := hFile
      rw [state_of_unregistered hFile, state_of_unregistered hFile']
      exact ⟨id, rfl, by simp, by simp⟩
    | some path =>
      rw [mutateStates_state h.own mutation hFile]
      exact hKeeps (s.state sessionId)
  have hIds : ∀ sessionId,
      jobIds ((s.mutateStates order mutation).1.state sessionId).jobs = jobIds (s.state sessionId).jobs := by
    intro sessionId
    obtain ⟨g, hJobs, hSame, -⟩ := hStates sessionId
    rw [hJobs]
    exact jobIds_map fun job hMem => (hSame job hMem).id
  refine ⟨⟨h.own, ?_, ?_, ?_, ?_⟩, hIds⟩
  · rintro sessionId job hMem
    obtain ⟨g, hJobs, hSame, -⟩ := hStates sessionId
    rw [hJobs] at hMem
    obtain ⟨old, hOld, rfl⟩ := List.mem_map.mp hMem
    exact (hSame old hOld).sessionId.trans (h.sessions sessionId old hOld)
  · rintro sessionId
    rw [hIds]
    exact h.ids sessionId
  · rintro id sessionId sessionId' hHere hThere
    rw [hIds] at hHere hThere
    exact h.apart id sessionId sessionId' hHere hThere
  · rintro sessionId dispatch hMem
    obtain ⟨g, -, -, hDispatches⟩ := hStates sessionId
    rw [hIds]
    rcases hDispatches dispatch hMem with hOld | hNew
    · exact h.pending sessionId dispatch hOld
    · exact hNew

end Mutations

section Writes

variable {jobs : List AgentCronJob} {draft : List AgentCronJob}

theorem writeJobs_state (hOwn : s.OwnFiles) (hAll : ∀ job ∈ jobs, (s.files.lookup job.sessionId).isSome = true)
    (hFile : s.files.lookup sessionId = some path) :
    ((s.writeJobs order jobs).state sessionId).jobs = s.mergedJobs order jobs sessionId path ∧
      ∀ dispatch ∈ ((s.writeJobs order jobs).state sessionId).dispatches,
        dispatch.jobId ∈ jobIds (s.mergedJobs order jobs sessionId path) := by
  have hAny : ¬ (jobs.any fun job => !(s.files.lookup job.sessionId).isSome) = true := by
    rw [List.any_eq_true]
    rintro ⟨job, hMem, hNot⟩
    rw [hAll job hMem] at hNot
    cases hNot
  have hKeys : ((s.files.walk order).map Prod.snd).Nodup := hOwn.values_nodup order
  have hMem : (sessionId, path) ∈ s.files.walk order := (HashMap.mem_walk order).mpr hFile
  have hFile' : (s.writeJobs order jobs).files.lookup sessionId = some path := by
    rw [writeJobs, if_neg hAny]
    exact hFile
  rw [state_of_lookup hFile', writeJobs, if_neg hAny]
  dsimp only
  generalize hIdsBy : ((s.files.walk order).flatMap fun (sessionId, path) =>
    (s.mergedJobs order jobs sessionId path).map fun job => (job.id, sessionId)).foldl
      (fun (m : HashMap String String) p => m.insert p.1 p.2) ∅ = sessionIdByJobId
  have hDisk := (foldl_update_apply hKeys (fun (file : String × String) _ => (⟨s.mergedJobs order jobs file.1 file.2,
    ((s.files.walk order).flatMap fun (_, path) => (s.disk path).dispatches).filter fun dispatch =>
      sessionIdByJobId.lookup dispatch.jobId = some file.1⟩ : CronJobsState)) s.disk).1 (sessionId, path) hMem
  dsimp only at hDisk
  rw [hDisk]
  refine ⟨rfl, ?_⟩
  rintro dispatch hDispatch
  have hLookup := of_decide_eq_true (List.mem_filter.mp hDispatch).2
  rw [← hIdsBy, ← HashMap.get_view, HashMap.view_foldl_insert, HashMap.view_empty] at hLookup
  obtain ⟨before, after, hPairs, -⟩ := (KeyMap.get_ofPairs_eq_some_iff _ _ _).mp hLookup
  have hPair : (dispatch.jobId, sessionId) ∈ before ++ (dispatch.jobId, sessionId) :: after :=
    List.mem_append_right before List.mem_cons_self
  rw [← hPairs, List.mem_flatMap] at hPair
  obtain ⟨⟨sessionId', path'⟩, hWalk, hJob⟩ := hPair
  obtain ⟨job, hJobMem, hSame⟩ := List.mem_map.mp hJob
  obtain ⟨hId, rfl⟩ := Prod.mk.inj hSame
  rw [(HashMap.mem_walk order).mp hWalk] at hFile
  rw [← Option.some.inj hFile]
  exact mem_jobIds.mpr ⟨job, hJobMem, hId⟩

theorem mem_mergedJobs_ids {g : AgentCronJob → AgentCronJob} (hNodup : (jobIds draft).Nodup)
    (hDraft : ∀ job ∈ (s.disk path).jobs, g job ∈ draft ∧ (g job).id = job.id) {id : String} :
    id ∈ jobIds (s.mergedJobs order draft sessionId path) ↔ ∃ copy ∈ draft, copy.id = id ∧ copy.sessionId = sessionId := by
  rw [mergedJobs, mergeFreshJobs_ids]
  constructor
  · rintro (hOld | hNew)
    · obtain ⟨job, hMem, rfl⟩ := mem_jobIds.mp hOld
      obtain ⟨hJob, hRetained⟩ := List.mem_filter.mp hMem
      obtain ⟨hCopy, hId⟩ := hDraft job hJob
      rw [← hId, lookup_jobsById_of_mem hNodup hCopy, Option.all_some, decide_eq_true_eq] at hRetained
      exact ⟨g job, hCopy, hId, hRetained⟩
    · obtain ⟨job, hMem, rfl⟩ := mem_jobIds.mp hNew
      obtain ⟨hJob, hSession⟩ := List.mem_filter.mp hMem
      exact ⟨job, hJob, rfl, of_decide_eq_true hSession⟩
  · rintro ⟨copy, hCopy, rfl, hSession⟩
    exact Or.inr (mem_jobIds.mpr ⟨copy, List.mem_filter.mpr ⟨hCopy, decide_eq_true hSession⟩, rfl⟩)

theorem Partitioned.written (h : s.Partitioned) {order' : IterationOrder} {g : AgentCronJob → AgentCronJob}
    {extra : List AgentCronJob} (hIds : ∀ job ∈ s.readJobs order', (g job).id = job.id)
    (hNodup : (jobIds (s.readJobs order' ++ extra)).Nodup)
    (hAll : ∀ job ∈ (s.readJobs order').map g ++ extra, (s.files.lookup job.sessionId).isSome = true) :
    (s.writeJobs order ((s.readJobs order').map g ++ extra)).Partitioned ∧
      ∀ copy ∈ (s.readJobs order').map g ++ extra,
        copy.id ∈ jobIds ((s.writeJobs order ((s.readJobs order').map g ++ extra)).state copy.sessionId).jobs := by
  have hDraftIds : jobIds ((s.readJobs order').map g ++ extra) = jobIds (s.readJobs order' ++ extra) := by
    rw [jobIds_append, jobIds_append, jobIds_map hIds]
  rw [← hDraftIds] at hNodup
  generalize hDraft : (s.readJobs order').map g ++ extra = draft at *
  have hFiles : (s.writeJobs order draft).files = s.files := by
    unfold writeJobs
    split <;> rfl
  have hCopies : ∀ sessionId path, s.files.lookup sessionId = some path → ∀ job ∈ (s.disk path).jobs,
      g job ∈ draft ∧ (g job).id = job.id := by
    rintro sessionId path hFile job hMem
    rw [← state_of_lookup hFile] at hMem
    have hRead : job ∈ s.readJobs order' := mem_readJobs.mpr ⟨sessionId, hMem⟩
    rw [← hDraft]
    exact ⟨List.mem_append_left _ (List.mem_map.mpr ⟨job, hRead, rfl⟩), hIds job hRead⟩
  -- What each file holds after the write, or nothing where the session is not registered.
  have hStates : ∀ sessionId, (s.writeJobs order draft).state sessionId = ⟨[], []⟩ ∨
      ∃ path, s.files.lookup sessionId = some path ∧
        ((s.writeJobs order draft).state sessionId).jobs = s.mergedJobs order draft sessionId path := by
    intro sessionId
    cases hFile : s.files.lookup sessionId with
    | none => exact Or.inl (state_of_unregistered (hFiles ▸ hFile))
    | some path => exact Or.inr ⟨path, rfl, (writeJobs_state h.own hAll hFile).1⟩
  have hMems : ∀ id sessionId, id ∈ jobIds ((s.writeJobs order draft).state sessionId).jobs →
      ∃ copy ∈ draft, copy.id = id ∧ copy.sessionId = sessionId := by
    rintro id sessionId hMem
    rcases hStates sessionId with hNone | ⟨path, hFile, hJobs⟩
    · rw [hNone] at hMem
      cases hMem
    · rw [hJobs] at hMem
      exact (mem_mergedJobs_ids hNodup (hCopies sessionId path hFile)).mp hMem
  refine ⟨⟨?_, ?_, ?_, ?_, ?_⟩, ?_⟩
  · unfold OwnFiles
    rw [hFiles]
    exact h.own
  · rintro sessionId job hMem
    rcases hStates sessionId with hNone | ⟨path, hFile, hJobs⟩
    · rw [hNone] at hMem
      cases hMem
    · rw [hJobs] at hMem
      rcases mem_of_mem_mergeFreshJobs hMem with hOld | hNew
      · refine h.sessions sessionId job ?_
        rw [state_of_lookup hFile]
        exact (List.mem_filter.mp hOld).1
      · exact of_decide_eq_true (List.mem_filter.mp hNew).2
  · rintro sessionId
    rcases hStates sessionId with hNone | ⟨path, hFile, hJobs⟩
    · rw [hNone]
      exact List.nodup_nil
    · rw [hJobs]
      exact mergeFreshJobs_nodup order _ _
  · rintro id sessionId sessionId' hHere hThere
    obtain ⟨copy, hCopy, rfl, rfl⟩ := hMems id sessionId hHere
    obtain ⟨copy', hCopy', hId, rfl⟩ := hMems copy.id sessionId' hThere
    rw [job_eq_of_id hNodup hCopy' hCopy hId]
  · rintro sessionId dispatch hMem
    cases hFile : s.files.lookup sessionId with
    | none =>
      rw [state_of_unregistered (hFiles ▸ hFile)] at hMem
      cases hMem
    | some path =>
      obtain ⟨hJobs, hDispatches⟩ := @writeJobs_state s order sessionId path draft h.own hAll hFile
      rw [hJobs]
      exact hDispatches dispatch hMem
  · rintro copy hCopy
    obtain ⟨path, hFile⟩ := Option.isSome_iff_exists.mp (hAll copy hCopy)
    rw [(writeJobs_state h.own hAll hFile).1]
    exact (mem_mergedJobs_ids hNodup (hCopies copy.sessionId path hFile)).mpr ⟨copy, hCopy, rfl, rfl⟩

theorem mem_mergedJobs_of_new (hNodup : (jobIds draft).Nodup) (hJob : job ∈ draft)
    (hNew : job.id ∉ jobIds (s.disk path).jobs) : job ∈ s.mergedJobs order draft job.sessionId path := by
  have hSession : (jobIds (draft.filter (·.sessionId = job.sessionId))).Nodup :=
    hNodup.sublist (List.filter_sublist.map _)
  have hNone : (jobsById ((s.disk path).jobs.filter fun other =>
      ((jobsById draft).lookup other.id).all (·.sessionId = job.sessionId))).lookup job.id = none := by
    rw [← Option.not_isSome_iff_eq_none, lookup_jobsById_isSome]
    intro hMem
    obtain ⟨other, hOther, hId⟩ := mem_jobIds.mp hMem
    exact hNew (mem_jobIds.mpr ⟨other, (List.mem_filter.mp hOther).1, hId⟩)
  rw [mergedJobs, mem_mergeFreshJobs, mergedById, lookup_foldl_merge_of_mem hSession
    (List.mem_filter.mpr ⟨hJob, decide_eq_true rfl⟩), hNone]
  rfl

end Writes

end SessionArtifacts

section Runs

open SessionArtifacts

variable {s : SessionArtifacts} {order : IterationOrder} {op : StoreOp} {job : AgentCronJob}

def SessionArtifacts.HasJob (s : SessionArtifacts) (id : String) : Prop :=
  ∃ sessionId, id ∈ jobIds (s.state sessionId).jobs

inductive ArtifactRun (first : SessionArtifacts) : SessionArtifacts → Prop
  | opened : ArtifactRun first first
  | step {s : SessionArtifacts} (order : IterationOrder) (op : StoreOp) (hRun : ArtifactRun first s)
      (hNew : op.DrawsNewJob (s.readJobs order)) : ArtifactRun first (op.transaction.exec (store order) s).1

theorem Rewrites.nodup {jobs extra : List AgentCronJob} (hIds : (jobIds jobs).Nodup) (hNew : op.DrawsNewJob jobs)
    (hExtra : ∀ job ∈ extra, op.newId = some job.id) (hLength : extra.length ≤ 1) :
    (jobIds (jobs ++ extra)).Nodup := by
  rw [jobIds_append]
  refine List.nodup_append.mpr ⟨hIds, ?_, ?_⟩
  · rcases extra with - | ⟨job, - | ⟨job', extra⟩⟩
    · exact List.nodup_nil
    · exact List.nodup_singleton job.id
    · exact absurd hLength (by simp)
  · rintro id hMem id' hMem' rfl
    obtain ⟨job, hJob, rfl⟩ := mem_jobIds.mp hMem'
    exact hNew job.id (hExtra job hJob) hMem

theorem writeJobs_unregistered {jobs : List AgentCronJob} (hMem : job ∈ jobs)
    (hNot : ¬ (s.files.lookup job.sessionId).isSome = true) : s.writeJobs order jobs = s := by
  refine if_pos (List.any_eq_true.mpr ⟨job, hMem, ?_⟩)
  rw [Bool.not_eq_true']
  exact Bool.eq_false_iff.mpr hNot

theorem artifactStep_partitioned (h : s.Partitioned) (hNew : op.DrawsNewJob (s.readJobs order)) :
    (op.transaction.exec (store order) s).1.Partitioned ∧
      ∀ id, s.HasJob id → (op.transaction.exec (store order) s).1.HasJob id := by
  refine Transaction.exec_cases (store order)
    (motive := fun next : SessionArtifacts => next.Partitioned ∧ ∀ id, s.HasJob id → next.HasJob id)
    (op.transaction_rewrites (h.readJobs_nodup order)) ⟨h, fun _ hId => hId⟩ ?_ ?_
  · rintro draft ⟨g, extra, rfl, hSame, hExtra, hLength⟩
    by_cases hAll : ∀ job ∈ (s.readJobs order).map g ++ extra, (s.files.lookup job.sessionId).isSome = true
    · obtain ⟨hNext, hThere⟩ := @Partitioned.written s order h order g extra hSame
        (Rewrites.nodup (h.readJobs_nodup order) hNew hExtra hLength) hAll
      refine ⟨hNext, ?_⟩
      rintro id hId
      obtain ⟨job, hJob, rfl⟩ := mem_jobIds.mp (mem_readJobs_ids.mpr hId)
      have hCopy := hThere (g job) (List.mem_append_left _ (List.mem_map.mpr ⟨job, hJob, rfl⟩))
      rw [hSame job hJob] at hCopy
      exact ⟨_, hCopy⟩
    · push Not at hAll
      obtain ⟨job, hMem, hNot⟩ := hAll
      have hUnwritten : (store order).write ((s.readJobs order).map g ++ extra) s = s := writeJobs_unregistered hMem hNot
      exact hUnwritten.symm ▸ ⟨h, fun _ hId => hId⟩
  · rintro mutation hKeeps
    obtain ⟨hNext, hIds⟩ := @Partitioned.mutated s order h mutation hKeeps
    refine ⟨hNext, ?_⟩
    rintro id ⟨sessionId, hId⟩
    exact ⟨sessionId, (hIds sessionId).symm ▸ hId⟩

theorem mem_listJobs_created (h : s.Partitioned) (hNew : op.DrawsNewJob (s.readJobs order))
    (hCreates : op.newId.isSome = true) (hOk : (op.transaction.exec (store order) s).2 = .jobs [job])
    (order' : IterationOrder) :
    job ∈ listJobs ((op.transaction.exec (store order) s).1.readJobs order') ↔
      (s.files.lookup job.sessionId).isSome = true := by
  obtain ⟨uuid, hOp⟩ := Option.isSome_iff_exists.mp hCreates
  rcases op.creates hOp with ⟨message, hRefused⟩ | ⟨g, job', hAdded, hg, hId⟩
  · rw [hRefused] at hOk
    cases hOk
  · rw [hAdded] at hOk ⊢
    obtain rfl : job' = job := by
      injection hOk with hJobs
      exact (List.cons.inj hJobs).1
    have hDraft : job' ∈ (s.readJobs order).map g ++ [job'] := List.mem_append_right _ (List.mem_singleton_self job')
    have hFresh : job'.id ∉ jobIds (s.readJobs order) := by
      rw [hId]
      exact hNew uuid hOp
    change job' ∈ listJobs ((s.writeJobs order ((s.readJobs order).map g ++ [job'])).readJobs order') ↔ _
    rw [listJobs, List.mem_mergeSort]
    by_cases hRegistered : (s.files.lookup job'.sessionId).isSome = true
    · refine iff_of_true ?_ hRegistered
      obtain ⟨path, hFile⟩ := Option.isSome_iff_exists.mp hRegistered
      have hAll : ∀ copy ∈ (s.readJobs order).map g ++ [job'], (s.files.lookup copy.sessionId).isSome = true := by
        rintro copy hMem
        rcases List.mem_append.mp hMem with hOld | hLast
        · obtain ⟨old, hOldMem, rfl⟩ := List.mem_map.mp hOld
          obtain ⟨sessionId, hState⟩ := mem_readJobs.mp hOldMem
          rw [(hg old).2]
          exact h.registered hState
        · rwa [List.mem_singleton.mp hLast]
      have hNodup : (jobIds ((s.readJobs order).map g ++ [job'])).Nodup := by
        rw [jobIds_append, jobIds_map fun old _ => (hg old).1, ← jobIds_append]
        refine Rewrites.nodup (h.readJobs_nodup order) hNew ?_ le_rfl
        rintro copy hMem
        rw [List.mem_singleton.mp hMem, hId, hOp]
      refine mem_readJobs.mpr ⟨job'.sessionId, ?_⟩
      rw [(writeJobs_state h.own hAll hFile).1]
      refine mem_mergedJobs_of_new hNodup hDraft ?_
      rw [← state_of_lookup hFile]
      exact fun hMem => hFresh (mem_readJobs_ids.mpr ⟨_, hMem⟩)
    · refine iff_of_false ?_ hRegistered
      rw [writeJobs_unregistered hDraft hRegistered, mem_readJobs]
      rintro ⟨sessionId, hMem⟩
      exact hFresh (mem_readJobs_ids.mpr ⟨sessionId, mem_jobIds.mpr ⟨job', hMem, rfl⟩⟩)

theorem artifactRun_keeps {first : SessionArtifacts} (hFirst : first.Partitioned) (hRun : ArtifactRun first s) :
    s.Partitioned ∧ ∀ id, first.HasJob id → s.HasJob id := by
  induction hRun with
  | opened => exact ⟨hFirst, fun _ hId => hId⟩
  | step order op _ hNew ih =>
    obtain ⟨hNext, hKeeps⟩ := artifactStep_partitioned ih.1 hNew
    exact ⟨hNext, fun id hId => hKeeps id (ih.2 id hId)⟩

/-- In every state of a run the files are partitioned and have each job there ever was, and a job that is created then
is listed exactly where its session is registered. -/
theorem artifactRun_partitioned {first : SessionArtifacts} (hFirst : first.Partitioned) (hRun : ArtifactRun first s) :
    s.Partitioned ∧ (∀ id, first.HasJob id → s.HasJob id) ∧
      ∀ op : StoreOp, op.newId.isSome = true → op.DrawsNewJob (s.readJobs order) → ∀ job,
        (op.transaction.exec (store order) s).2 = .jobs [job] → ∀ order',
          (job ∈ listJobs ((op.transaction.exec (store order) s).1.readJobs order') ↔
            (s.files.lookup job.sessionId).isSome = true) := by
  obtain ⟨hPartitioned, hKeeps⟩ := artifactRun_keeps hFirst hRun
  exact ⟨hPartitioned, hKeeps, fun op hCreates hNew job hOk order' => mem_listJobs_created hPartitioned hNew hCreates hOk order'⟩

end Runs

section Instances

open SessionArtifacts

def oneArtifact : SessionArtifacts :=
  ⟨(∅ : HashMap String String).insert "s" "/a/s/scheduled-jobs.json", fun _ => ⟨[], []⟩⟩

theorem oneArtifact_partitioned : oneArtifact.Partitioned := by
  have hState : ∀ sessionId, oneArtifact.state sessionId = ⟨[], []⟩ := by
    intro sessionId
    unfold state
    split <;> rfl
  refine ⟨?_, ?_, ?_, ?_, ?_⟩
  · rintro sessionId sessionId' path hFile hFile'
    have hOnly : ∀ id path, oneArtifact.files.lookup id = some path → id = "s" := by
      rintro id path hLookup
      by_contra hNe
      rw [oneArtifact, AList.lookup_insert_ne hNe, AList.lookup_empty] at hLookup
      cases hLookup
    rw [hOnly sessionId path hFile, hOnly sessionId' path hFile']
  · rintro sessionId job hMem
    rw [hState] at hMem
    cases hMem
  · rintro sessionId
    rw [hState]
    exact List.nodup_nil
  · rintro id sessionId sessionId' hMem -
    rw [hState] at hMem
    cases hMem
  · rintro sessionId dispatch hMem
    rw [hState] at hMem
    cases hMem

def jobInput (sessionId : String) : CreateAgentCronJobInput where
  activeSessionId := "a"
  sessionId := sessionId
  sessionFile := "/w/1.jsonl"
  cwd := "/w"
  label := none
  prompt := "look at the queue"
  scheduleText := "every 5m"
  source := none
  runtimeKind := none
  deliveryMode := none
  now := 60000

theorem create_jobInput (sessionId : String) : ∃ job : AgentCronJob, job.sessionId = sessionId ∧
    (StoreOp.create "j" (jobInput sessionId)).transaction = .read fun jobs => .write (jobs ++ [job]) (.jobs [job]) := by
  have hAccepted : ¬ (trim "look at the queue".toList).isEmpty = true ∧
      (parseAgentCronSchedule "every 5m" 60000).toOption.isSome = true := by decide +kernel
  have hPrompt : ¬ (trim (jobInput sessionId).prompt.toList).isEmpty = true := hAccepted.1
  have hParses : (parseAgentCronSchedule (jobInput sessionId).scheduleText (jobInput sessionId).now).toOption.isSome = true :=
    hAccepted.2
  rw [StoreOp.transaction, AgentCronJobStore.create, if_neg hPrompt]
  revert hParses
  generalize parseAgentCronSchedule (jobInput sessionId).scheduleText (jobInput sessionId).now = parse
  intro hParses
  cases parse with
  | error message => cases hParses
  | ok parsed => exact ⟨AgentCronJobStore.newJob "j" (jobInput sessionId) _ none parsed, rfl, rfl⟩

theorem artifactRun_partitioned_created : ∃ job : AgentCronJob, job.sessionId = "s" ∧
    job ∈ listJobs (((StoreOp.create "j" (jobInput "s")).transaction.exec (store .stored) oneArtifact).1.readJobs
      .stored) := by
  obtain ⟨job, hSession, hAdded⟩ := create_jobInput "s"
  have hOk : ((StoreOp.create "j" (jobInput "s")).transaction.exec (store .stored) oneArtifact).2 = .jobs [job] := by
    rw [hAdded]
    rfl
  have hNew : (StoreOp.create "j" (jobInput "s")).DrawsNewJob (oneArtifact.readJobs .stored) := fun _ _ => List.not_mem_nil
  refine ⟨job, hSession, ((artifactRun_partitioned oneArtifact_partitioned .opened).2.2 _ rfl hNew job hOk .stored).mpr ?_⟩
  rw [hSession]
  exact congrArg Option.isSome (AList.lookup_insert _)

theorem create_unregistered : ∃ (s : SessionArtifacts) (op : StoreOp) (job : AgentCronJob), s.Partitioned ∧
    op.DrawsNewJob (s.readJobs .stored) ∧ (op.transaction.exec (store .stored) s).2 = .jobs [job] ∧
      job ∉ listJobs ((op.transaction.exec (store .stored) s).1.readJobs .stored) := by
  obtain ⟨job, hSession, hAdded⟩ := create_jobInput "t"
  refine ⟨oneArtifact, .create "j" (jobInput "t"), job, oneArtifact_partitioned, fun _ _ => List.not_mem_nil, ?_, ?_⟩
  · rw [hAdded]
    rfl
  · rw [hAdded]
    have hNone : oneArtifact.files.lookup job.sessionId = none := by
      rw [hSession]
      exact AList.lookup_insert_ne (by decide)
    have hUnwritten : oneArtifact.writeJobs .stored (oneArtifact.readJobs .stored ++ [job]) = oneArtifact := by
      refine writeJobs_unregistered (List.mem_append_right _ (List.mem_singleton_self _)) ?_
      rw [hNone]
      exact Bool.false_ne_true
    change job ∉ listJobs ((oneArtifact.writeJobs .stored (oneArtifact.readJobs .stored ++ [job])).readJobs .stored)
    rw [hUnwritten, listJobs, List.mem_mergeSort]
    exact List.not_mem_nil

end Instances

end PrimeAgent
