import PrimeAgent.Cron.Cancels

/-! # Merges in any order

Where the stamps of the copies of a job can be read and tell them apart, a merge keeps the newest copy of each, so that
snapshots merged in any order end as the same jobs.
-/
namespace PrimeAgent

variable {order order' order'' order''' : IterationOrder} {a b c jobs : List AgentCronJob} {job : AgentCronJob}
  {other : AgentCronJob}

structure Stamped (jobs : List AgentCronJob) : Prop where
  reads : ∀ job ∈ jobs, ∃ time, parseIsoMillis job.updatedAt = some time
  differ : ∀ job ∈ jobs, ∀ other ∈ jobs, job.id = other.id →
    parseIsoMillis job.updatedAt = parseIsoMillis other.updatedAt → job = other

theorem Stamped.subset (h : Stamped jobs) (hSubset : a ⊆ jobs) : Stamped a where
  reads job hMem := h.reads job (hSubset hMem)
  differ job hMem other hOther := h.differ job (hSubset hMem) other (hSubset hOther)

def Newest (jobs : List AgentCronJob) (job : AgentCronJob) : Prop :=
  job ∈ jobs ∧ ∀ other ∈ jobs, other.id = job.id → isAtLeastAsFresh job other = true

theorem Newest.unique (h : Stamped jobs) (hJob : Newest jobs job) (hOther : Newest jobs other) (hId : job.id = other.id) :
    job = other := by
  obtain ⟨time, hTime⟩ := h.reads job hJob.1
  obtain ⟨time', hTime'⟩ := h.reads other hOther.1
  have hLe := hJob.2 other hOther.1 hId.symm
  have hLe' := hOther.2 job hJob.1 hId
  simp only [isAtLeastAsFresh, hTime, hTime', decide_eq_true_eq] at hLe hLe'
  refine h.differ job hJob.1 other hOther.1 hId ?_
  rw [hTime, hTime', le_antisymm hLe' hLe]

theorem isAtLeastAsFresh_of_not (h : Stamped jobs) (hJob : job ∈ jobs) (hOther : other ∈ jobs)
    (hStale : ¬ isAtLeastAsFresh job other = true) : isAtLeastAsFresh other job = true := by
  obtain ⟨time, hTime⟩ := h.reads job hJob
  obtain ⟨time', hTime'⟩ := h.reads other hOther
  simp only [isAtLeastAsFresh, hTime, hTime', decide_eq_true_eq] at hStale ⊢
  omega

theorem newest_of_mem (h : Stamped (a ++ b)) (hA : (jobIds a).Nodup) (hB : (jobIds b).Nodup)
    (hMem : job ∈ mergeFreshJobs order a b) : Newest (a ++ b) job := by
  have hLookup := mem_mergeFreshJobs.mp hMem
  have hOf := mem_of_mem_mergeFreshJobs hMem
  have hOnly : ∀ {jobs : List AgentCronJob} {copy other : AgentCronJob}, (jobIds jobs).Nodup → copy ∈ jobs →
      other ∈ jobs → other.id = copy.id → other = copy := fun hNodup hCopy hOther hId =>
    List.inj_on_of_nodup_map hNodup hOther hCopy hId
  refine ⟨List.mem_append.mpr hOf, fun other hOther hId => ?_⟩
  rw [mergedById] at hLookup
  by_cases hNext : job.id ∈ jobIds b
  · obtain ⟨copy, hCopy, hCopyId⟩ := mem_jobIds.mp hNext
    rw [← hCopyId, lookup_foldl_merge_of_mem hB hCopy] at hLookup
    obtain hInA | hInB := List.mem_append.mp hOther
    · have hStored := lookup_jobsById_of_mem hA hInA
      rw [hId, ← hCopyId] at hStored
      rw [hStored, Option.all_some] at hLookup
      split at hLookup
      next hFresh => rwa [← Option.some.inj hLookup]
      next => rw [← Option.some.inj hLookup]; exact isAtLeastAsFresh_refl other
    · obtain rfl := hOnly hB hCopy hInB (hId.trans hCopyId.symm)
      split at hLookup
      next => rw [← Option.some.inj hLookup]; exact isAtLeastAsFresh_refl _
      next hStale =>
        rw [hLookup, Option.all_some] at hStale
        exact isAtLeastAsFresh_of_not h hOther (List.mem_append.mpr hOf) hStale
  · rw [lookup_foldl_merge_of_not_mem hNext] at hLookup
    obtain hInA | hInB := List.mem_append.mp hOther
    · obtain rfl := hOnly hA (mem_of_lookup_jobsById hLookup) hInA hId
      exact isAtLeastAsFresh_refl _
    · exact absurd (mem_jobIds.mpr ⟨other, hInB, hId⟩) hNext

theorem mem_merge_iff (h : Stamped (a ++ b)) (hA : (jobIds a).Nodup) (hB : (jobIds b).Nodup) :
    job ∈ mergeFreshJobs order a b ↔ Newest (a ++ b) job := by
  refine ⟨newest_of_mem h hA hB, fun hNewest => ?_⟩
  have hId : job.id ∈ jobIds (mergeFreshJobs order a b) :=
    mergeFreshJobs_ids.mpr ((List.mem_append.mp hNewest.1).imp (fun hIn => mem_jobIds.mpr ⟨job, hIn, rfl⟩)
      fun hIn => mem_jobIds.mpr ⟨job, hIn, rfl⟩)
  obtain ⟨merged, hMerged, hSame⟩ := mem_jobIds.mp hId
  rwa [← (newest_of_mem h hA hB hMerged).unique h hNewest hSame]

theorem merge_subset : mergeFreshJobs order a b ⊆ a ++ b :=
  fun _ hMem => List.mem_append.mpr (mem_of_mem_mergeFreshJobs hMem)

theorem mem_merge_append_left (hMem : job ∈ mergeFreshJobs order a b ++ c) : job ∈ a ++ b ++ c :=
  List.mem_append.mpr ((List.mem_append.mp hMem).imp_left fun hIn => merge_subset hIn)

theorem mem_merge_append_right (hMem : job ∈ c ++ mergeFreshJobs order a b) : job ∈ a ++ b ++ c :=
  List.mem_append.mpr ((List.mem_append.mp hMem).symm.imp_left fun hIn => merge_subset hIn)

/-- The newest copies stand for all that they are the newest of. -/
theorem newest_append (hIds : ∀ id ∈ jobIds a, id ∈ jobIds jobs) (hMem : ∀ job, job ∈ jobs ↔ Newest a job) :
    Newest (jobs ++ c) job ↔ Newest (a ++ c) job := by
  have hOf : ∀ job ∈ jobs ++ c, job ∈ a ++ c := fun job hIn =>
    List.mem_append.mpr ((List.mem_append.mp hIn).imp_left fun hNewest => ((hMem job).mp hNewest).1)
  constructor
  · rintro ⟨hIn, hFresh⟩
    refine ⟨hOf job hIn, fun other hOther hId => ?_⟩
    obtain hLeft | hRight := List.mem_append.mp hOther
    · obtain ⟨copy, hCopy, hSame⟩ := mem_jobIds.mp (hIds _ (mem_jobIds.mpr ⟨other, hLeft, rfl⟩))
      exact isAtLeastAsFresh_trans (hFresh copy (List.mem_append_left _ hCopy) (hSame.trans hId))
        (((hMem copy).mp hCopy).2 other hLeft hSame.symm)
    · exact hFresh other (List.mem_append_right _ hRight) hId
  · rintro ⟨hIn, hFresh⟩
    refine ⟨List.mem_append.mpr ((List.mem_append.mp hIn).imp_left fun hLeft => (hMem job).mpr ⟨hLeft, fun other hOther => ?_⟩),
      fun other hOther => hFresh other (hOf other hOther)⟩
    exact hFresh other (List.mem_append_left _ hOther)

theorem newest_merge_left (h : Stamped (a ++ b ++ c)) (hA : (jobIds a).Nodup) (hB : (jobIds b).Nodup) :
    Newest (mergeFreshJobs order a b ++ c) job ↔ Newest (a ++ b ++ c) job := by
  refine newest_append (fun id hId => ?_) fun job => mem_merge_iff (h.subset (List.subset_append_left (a ++ b) c)) hA hB
  rw [jobIds_append, List.mem_append] at hId
  exact mergeFreshJobs_ids.mpr hId

theorem newest_congr {other : List AgentCronJob} (hSame : ∀ job, job ∈ jobs ↔ job ∈ other) :
    Newest jobs job ↔ Newest other job := by
  simp only [Newest, hSame]

theorem merge_perm {jobs' : List AgentCronJob} (hNodup : (jobIds jobs').Nodup)
    (hMem : ∀ job, job ∈ mergeFreshJobs order a b ↔ job ∈ jobs') : (mergeFreshJobs order a b).Perm jobs' :=
  (List.perm_ext_iff_of_nodup (mergeFreshJobs_nodup order a b).of_map hNodup.of_map).mpr hMem

theorem merge_idem (h : Stamped a) (hA : (jobIds a).Nodup) : (mergeFreshJobs order a a).Perm a := by
  refine merge_perm hA fun job => ?_
  rw [mem_merge_iff (h.subset (by simp)) hA hA]
  constructor
  · rintro ⟨hMem, -⟩
    simpa using hMem
  · intro hMem
    refine ⟨List.mem_append_left _ hMem, fun other hOther hId => ?_⟩
    rw [List.inj_on_of_nodup_map hA (by simpa using hOther) hMem hId]
    exact isAtLeastAsFresh_refl job

theorem merge_comm (h : Stamped (a ++ b)) (hA : (jobIds a).Nodup) (hB : (jobIds b).Nodup) :
    (mergeFreshJobs order a b).Perm (mergeFreshJobs order' b a) := by
  refine merge_perm (mergeFreshJobs_nodup _ _ _) fun job => ?_
  rw [mem_merge_iff h hA hB, mem_merge_iff (h.subset (by simp)) hB hA]
  exact newest_congr fun job => by simp [or_comm]

theorem merge_assoc (h : Stamped (a ++ b ++ c)) (hA : (jobIds a).Nodup) (hB : (jobIds b).Nodup)
    (hC : (jobIds c).Nodup) : (mergeFreshJobs order (mergeFreshJobs order' a b) c).Perm
      (mergeFreshJobs order'' a (mergeFreshJobs order''' b c)) := by
  have hTurned : Stamped (b ++ c ++ a) := h.subset fun job hMem => by
    simp only [List.mem_append] at hMem ⊢
    tauto
  refine merge_perm (mergeFreshJobs_nodup _ _ _) fun job => ?_
  have hSwapped : ∀ job, job ∈ a ++ mergeFreshJobs order''' b c ↔ job ∈ mergeFreshJobs order''' b c ++ a := fun job => by
    simp only [List.mem_append, or_comm]
  rw [mem_merge_iff (h.subset fun _ => mem_merge_append_left) (mergeFreshJobs_nodup _ _ _) hC,
    newest_merge_left h hA hB,
    mem_merge_iff (hTurned.subset fun _ => mem_merge_append_right) hA (mergeFreshJobs_nodup _ _ _),
    newest_congr hSwapped, newest_merge_left hTurned hB hC]
  exact newest_congr fun job => by
    simp only [List.mem_append]
    tauto

theorem stamped_iff_all : Stamped jobs ↔
    (∀ job ∈ jobs, (parseIsoMillis job.updatedAt).isSome = true) ∧ ∀ job ∈ jobs, ∀ other ∈ jobs, job.id = other.id →
      parseIsoMillis job.updatedAt = parseIsoMillis other.updatedAt → job = other := by
  simp only [Option.isSome_iff_exists]
  exact ⟨fun h => ⟨h.reads, h.differ⟩, fun h => ⟨h.1, h.2⟩⟩

/-- What merges make of lists that they have heard of, each of them as often and as late as it comes. -/
inductive Merged : List AgentCronJob → List AgentCronJob → Prop where
  | heard {jobs : List AgentCronJob} (hIds : (jobIds jobs).Nodup) : Merged jobs jobs
  | merge {heard heard' jobs jobs' : List AgentCronJob} (order : IterationOrder) (h : Merged heard jobs)
      (h' : Merged heard' jobs') : Merged (heard ++ heard') (mergeFreshJobs order jobs jobs')

variable {heard heard' jobs' : List AgentCronJob}

theorem Merged.newest (h : Merged heard jobs) (hStamped : Stamped heard) :
    (jobIds jobs).Nodup ∧ (∀ id ∈ jobIds heard, id ∈ jobIds jobs) ∧ ∀ job, job ∈ jobs ↔ Newest heard job := by
  induction h with
  | heard hIds =>
    refine ⟨hIds, fun _ hId => hId, fun job => ⟨fun hMem => ⟨hMem, fun other hOther hId => ?_⟩, And.left⟩⟩
    rw [List.inj_on_of_nodup_map hIds hOther hMem hId]
    exact isAtLeastAsFresh_refl job
  | @merge heard heard' jobs jobs' order _ _ ih ih' =>
    obtain ⟨hNodup, hIds, hMem⟩ := ih (hStamped.subset (List.subset_append_left ..))
    obtain ⟨hNodup', hIds', hMem'⟩ := ih' (hStamped.subset (List.subset_append_right ..))
    refine ⟨mergeFreshJobs_nodup .., fun id hId => ?_, fun job => ?_⟩
    · rw [jobIds_append] at hId
      exact mergeFreshJobs_ids.mpr ((List.mem_append.mp hId).imp (hIds id) (hIds' id))
    have hOf : jobs ++ jobs' ⊆ heard ++ heard' := fun job hIn =>
      List.mem_append.mpr ((List.mem_append.mp hIn).imp (fun hIn => ((hMem job).mp hIn).1) fun hIn => ((hMem' job).mp hIn).1)
    have hSwap : ∀ {a b : List AgentCronJob}, Newest (a ++ b) job ↔ Newest (b ++ a) job :=
      newest_congr fun job => by simp [or_comm]
    rw [mem_merge_iff (hStamped.subset hOf) hNodup hNodup', newest_append hIds hMem, hSwap, newest_append hIds' hMem', hSwap]

end PrimeAgent
