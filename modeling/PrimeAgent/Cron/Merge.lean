import PrimeAgent.Cron.Store

/-! # Merging by freshness

A merge holds one job of each id, and of an id both lists have the fresher copy. Merged into the jobs it was made of,
a rewrite of them is one job at a time.
-/
namespace PrimeAgent

variable {order : IterationOrder} {current next : List AgentCronJob} {m : HashMap String AgentCronJob} {id : String}
  {job : AgentCronJob} {jobs : List AgentCronJob} {g : AgentCronJob → AgentCronJob}

def jobIds (jobs : List AgentCronJob) : List String :=
  jobs.map (·.id)

@[simp] theorem jobIds_nil : jobIds [] = [] := rfl

@[simp] theorem jobIds_cons (job : AgentCronJob) (jobs : List AgentCronJob) : jobIds (job :: jobs) = job.id :: jobIds jobs :=
  rfl

@[simp] theorem jobIds_append (jobs jobs' : List AgentCronJob) : jobIds (jobs ++ jobs') = jobIds jobs ++ jobIds jobs' :=
  List.map_append

theorem mem_jobIds : id ∈ jobIds jobs ↔ ∃ job ∈ jobs, job.id = id :=
  List.mem_map

def jobsById (jobs : List AgentCronJob) : HashMap String AgentCronJob :=
  jobs.foldl (fun merged job => merged.insert job.id job) ∅

def mergedById (current next : List AgentCronJob) : HashMap String AgentCronJob :=
  next.foldl mergeFreshJob (jobsById current)

def Keyed (m : HashMap String AgentCronJob) : Prop :=
  ∀ id job, m.lookup id = some job → job.id = id

theorem Keyed.insert (h : Keyed m) (job : AgentCronJob) : Keyed (m.insert job.id job) := by
  intro id job' hLookup
  by_cases hId : id = job.id
  · subst hId
    rw [AList.lookup_insert] at hLookup
    rw [← Option.some.inj hLookup]
  · rw [AList.lookup_insert_ne hId] at hLookup
    exact h id job' hLookup

theorem mergeFreshJob_keyed (h : Keyed m) (job : AgentCronJob) : Keyed (mergeFreshJob m job) := by
  unfold mergeFreshJob
  split
  · exact h.insert job
  · exact h

theorem jobsById_keyed (jobs : List AgentCronJob) : Keyed (jobsById jobs) := by
  refine List.foldlRecOn (motive := Keyed) _ _ ?_ ?_
  · rintro id job ⟨⟩
  · rintro m h job -
    exact h.insert job

theorem mergedById_keyed (current next : List AgentCronJob) : Keyed (mergedById current next) := by
  refine List.foldlRecOn (motive := Keyed) _ _ (jobsById_keyed current) ?_
  rintro m h job -
  exact mergeFreshJob_keyed h job

theorem mem_mergeFreshJobs :
    job ∈ mergeFreshJobs order current next ↔ (mergedById current next).lookup job.id = some job := by
  change job ∈ HashMap.values order (mergedById current next) ↔ _
  rw [HashMap.mem_values]
  constructor
  · rintro ⟨id, hLookup⟩
    rwa [mergedById_keyed _ _ id job hLookup]
  · exact fun hLookup => ⟨job.id, hLookup⟩

theorem mergeFreshJobs_nodup (order : IterationOrder) (current next : List AgentCronJob) :
    (jobIds (mergeFreshJobs order current next)).Nodup :=
  HashMap.nodup_map_values order (mergedById_keyed current next)

theorem mem_mergeFreshJobs_ids :
    id ∈ jobIds (mergeFreshJobs order current next) ↔ ((mergedById current next).lookup id).isSome = true := by
  rw [mem_jobIds, Option.isSome_iff_exists]
  constructor
  · rintro ⟨job, hMem, rfl⟩
    exact ⟨job, mem_mergeFreshJobs.mp hMem⟩
  · rintro ⟨job, hLookup⟩
    have hId := mergedById_keyed _ _ id job hLookup
    exact ⟨job, mem_mergeFreshJobs.mpr (hId ▸ hLookup), hId⟩

theorem lookup_jobsById_isSome (jobs : List AgentCronJob) (id : String) :
    ((jobsById jobs).lookup id).isSome = true ↔ id ∈ jobIds jobs := by
  suffices h : ∀ m : HashMap String AgentCronJob,
      ((jobs.foldl (fun merged job => merged.insert job.id job) m).lookup id).isSome = true ↔
        (m.lookup id).isSome = true ∨ id ∈ jobIds jobs by
    rw [jobsById, h ∅, AList.lookup_empty]
    simp
  induction jobs with
  | nil => simp
  | cons job jobs ih =>
    intro m
    rw [List.foldl_cons, ih, jobIds_cons, List.mem_cons]
    by_cases hId : id = job.id
    · subst hId
      simp [AList.lookup_insert]
    · simp [AList.lookup_insert_ne hId, hId]

theorem lookup_mergeFreshJob_ne (hId : id ≠ job.id) : (mergeFreshJob m job).lookup id = m.lookup id := by
  unfold mergeFreshJob
  split
  · exact AList.lookup_insert_ne hId
  · rfl

theorem lookup_mergeFreshJob_self : (mergeFreshJob m job).lookup job.id
    = if (m.lookup job.id).all (isAtLeastAsFresh job) then some job else m.lookup job.id := by
  unfold mergeFreshJob
  split
  · exact AList.lookup_insert m
  · rfl

theorem lookup_mergedById_isSome : ((mergedById current next).lookup id).isSome = true ↔
    id ∈ jobIds current ∨ id ∈ jobIds next := by
  rw [← lookup_jobsById_isSome, mergedById]
  generalize jobsById current = m
  induction next generalizing m with
  | nil => simp
  | cons job next ih =>
    rw [List.foldl_cons, ih, jobIds_cons, List.mem_cons]
    by_cases hId : id = job.id
    · subst hId
      rw [lookup_mergeFreshJob_self]
      cases m.lookup job.id with
      | none => simp
      | some stored =>
        rw [Option.all_some]
        split <;> simp
    · rw [lookup_mergeFreshJob_ne hId]
      simp [hId]

theorem mergeFreshJobs_ids :
    id ∈ jobIds (mergeFreshJobs order current next) ↔ id ∈ jobIds current ∨ id ∈ jobIds next := by
  rw [mem_mergeFreshJobs_ids, lookup_mergedById_isSome]

theorem mem_of_lookup_jobsById (h : (jobsById jobs).lookup id = some job) : job ∈ jobs := by
  suffices hAll : ∀ m : HashMap String AgentCronJob,
      (jobs.foldl (fun merged job => merged.insert job.id job) m).lookup id = some job →
        m.lookup id = some job ∨ job ∈ jobs by
    rcases hAll ∅ h with hNone | hMem
    · cases hNone
    · exact hMem
  clear h
  induction jobs with
  | nil => exact fun m hLookup => Or.inl hLookup
  | cons first jobs ih =>
    intro m hLookup
    rcases ih _ hLookup with hHere | hMem
    · by_cases hId : id = first.id
      · subst hId
        rw [AList.lookup_insert] at hHere
        rw [Option.some.inj hHere]
        exact Or.inr List.mem_cons_self
      · rw [AList.lookup_insert_ne hId] at hHere
        exact Or.inl hHere
    · exact Or.inr (List.mem_cons_of_mem first hMem)

theorem mem_of_mem_mergeFreshJobs (h : job ∈ mergeFreshJobs order current next) : job ∈ current ∨ job ∈ next := by
  suffices hAll : ∀ m : HashMap String AgentCronJob, (next.foldl mergeFreshJob m).lookup job.id = some job →
      m.lookup job.id = some job ∨ job ∈ next by
    rcases hAll _ (mem_mergeFreshJobs.mp h) with hCurrent | hNext
    · exact Or.inl (mem_of_lookup_jobsById hCurrent)
    · exact Or.inr hNext
  clear h
  induction next with
  | nil => exact fun m hLookup => Or.inl hLookup
  | cons first next ih =>
    intro m hLookup
    rcases ih _ hLookup with hHere | hMem
    · by_cases hId : job.id = first.id
      · rw [hId, lookup_mergeFreshJob_self] at hHere
        split at hHere
        · rw [Option.some.inj hHere]
          exact Or.inr List.mem_cons_self
        · exact Or.inl (hId ▸ hHere)
      · rw [lookup_mergeFreshJob_ne hId] at hHere
        exact Or.inl hHere
    · exact Or.inr (List.mem_cons_of_mem first hMem)

theorem lookup_foldl_merge_of_not_mem (hNew : id ∉ jobIds next) (m : HashMap String AgentCronJob) :
    (next.foldl mergeFreshJob m).lookup id = m.lookup id := by
  induction next generalizing m with
  | nil => rfl
  | cons first next ih =>
    rw [jobIds_cons, List.mem_cons, not_or] at hNew
    rw [List.foldl_cons, ih hNew.2, lookup_mergeFreshJob_ne hNew.1]

theorem lookup_foldl_merge_of_mem (hIds : (jobIds next).Nodup) (hMem : job ∈ next) (m : HashMap String AgentCronJob) :
    (next.foldl mergeFreshJob m).lookup job.id
      = if (m.lookup job.id).all (isAtLeastAsFresh job) then some job else m.lookup job.id := by
  induction next generalizing m with
  | nil => cases hMem
  | cons first next ih =>
    rw [jobIds_cons, List.nodup_cons] at hIds
    rw [List.foldl_cons]
    rcases List.mem_cons.mp hMem with rfl | hRest
    · rw [lookup_foldl_merge_of_not_mem hIds.1, lookup_mergeFreshJob_self]
    · have hId : job.id ≠ first.id := fun hSame => hIds.1 (hSame ▸ mem_jobIds.mpr ⟨job, hRest, rfl⟩)
      rw [ih hIds.2 hRest, lookup_mergeFreshJob_ne hId]

theorem lookup_jobsById_of_mem (hIds : (jobIds jobs).Nodup) (hMem : job ∈ jobs) :
    (jobsById jobs).lookup job.id = some job := by
  obtain ⟨stored, hStored⟩ := Option.isSome_iff_exists.mp
    ((lookup_jobsById_isSome jobs job.id).mpr (mem_jobIds.mpr ⟨job, hMem, rfl⟩))
  have hId := jobsById_keyed jobs job.id stored hStored
  rw [hStored, List.inj_on_of_nodup_map hIds (mem_of_lookup_jobsById hStored) hMem hId]

def fresher (g : AgentCronJob → AgentCronJob) (job : AgentCronJob) : AgentCronJob :=
  if isAtLeastAsFresh (g job) job then g job else job

theorem jobIds_map (hIds : ∀ job ∈ jobs, (g job).id = job.id) :
    jobIds (jobs.map g) = jobIds jobs := by
  rw [jobIds, jobIds, List.map_map]
  exact List.map_congr_left hIds

theorem fresher_id (hId : (g job).id = job.id) : (fresher g job).id = job.id := by
  unfold fresher
  split
  · exact hId
  · rfl

theorem mergeFreshJobs_perm (order : IterationOrder) {g : AgentCronJob → AgentCronJob} {extra : List AgentCronJob}
    (hIds : ∀ job ∈ current, (g job).id = job.id) (hNodup : (jobIds (current ++ extra)).Nodup) :
    (mergeFreshJobs order current (current.map g ++ extra)).Perm (current.map (fresher g) ++ extra) := by
  have hNext : jobIds (current.map g ++ extra) = jobIds (current ++ extra) := by
    rw [jobIds_append, jobIds_append, jobIds_map hIds]
  have hMerged : jobIds (current.map (fresher g) ++ extra) = jobIds (current ++ extra) := by
    rw [jobIds_append, jobIds_append, jobIds_map fun job hMem => fresher_id (hIds job hMem)]
  have hCurrent : (jobIds current).Nodup := by
    rw [jobIds_append] at hNodup
    exact (List.nodup_append.mp hNodup).1
  refine (List.perm_ext_iff_of_nodup (mergeFreshJobs_nodup order _ _).of_map (hMerged ▸ hNodup).of_map).mpr ?_
  intro merged
  have hLookup : ∀ job ∈ current, (mergedById current (current.map g ++ extra)).lookup job.id = some (fresher g job) := by
    intro job hMem
    have hRewritten := lookup_foldl_merge_of_mem (hNext ▸ hNodup)
      (List.mem_append_left extra (List.mem_map.mpr ⟨job, hMem, rfl⟩)) (jobsById current)
    rw [hIds job hMem, lookup_jobsById_of_mem hCurrent hMem] at hRewritten
    rw [mergedById, hRewritten, fresher, Option.all_some]
    split <;> rfl
  have hExtra : ∀ job ∈ extra, (mergedById current (current.map g ++ extra)).lookup job.id = some job := by
    intro job hMem
    have hNone : (jobsById current).lookup job.id = none := by
      rw [← Option.not_isSome_iff_eq_none, lookup_jobsById_isSome]
      intro hOld
      rw [jobIds_append] at hNodup
      exact (List.nodup_append.mp hNodup).2.2 _ hOld _ (mem_jobIds.mpr ⟨job, hMem, rfl⟩) rfl
    rw [mergedById, lookup_foldl_merge_of_mem (hNext ▸ hNodup) (List.mem_append_right _ hMem), hNone]
    rfl
  rw [mem_mergeFreshJobs]
  constructor
  · intro hMem
    have hId : merged.id ∈ jobIds current ∨ merged.id ∈ jobIds (current.map g ++ extra) := by
      rw [← lookup_mergedById_isSome, hMem]
      rfl
    rw [hNext, jobIds_append, List.mem_append, or_self_left, mem_jobIds, mem_jobIds] at hId
    rcases hId with ⟨job, hJob, hId⟩ | ⟨job, hJob, hId⟩
    · have hSame := hLookup job hJob
      rw [hId, hMem] at hSame
      rw [Option.some.inj hSame]
      exact List.mem_append_left _ (List.mem_map.mpr ⟨job, hJob, rfl⟩)
    · have hSame := hExtra job hJob
      rw [hId, hMem] at hSame
      rw [Option.some.inj hSame]
      exact List.mem_append_right _ hJob
  · intro hMem
    rcases List.mem_append.mp hMem with hOld | hNew
    · obtain ⟨job, hJob, rfl⟩ := List.mem_map.mp hOld
      rw [fresher_id (hIds job hJob)]
      exact hLookup job hJob
    · exact hExtra merged hNew

end PrimeAgent
