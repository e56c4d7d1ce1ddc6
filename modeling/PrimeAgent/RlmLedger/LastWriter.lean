import PrimeAgent.RlmLedger.Edges

/-! # The last writer of an edge

The ledger reads as the fold of its operations, as long as every check of a writer sees the seeded edges.
-/
namespace PrimeAgent.RlmLedger

open SessionStore (SessionUsageSummary)

variable {env : Env}

/-! ## Edges apart from each other -/

structure Apart (canonicalSessionPath : String → String) (edges : List RlmLedgerEdge) : Prop where
  keys : (edges.map (·.key canonicalSessionPath)).Nodup
  alone : ∀ a ∈ edges, ∀ b ∈ edges, a.deleted = none → b.deleted = none →
    canonicalSessionPath a.child = canonicalSessionPath b.child → a.childId = b.childId

variable {canonicalSessionPath : String → String} {f : RlmLedgerEdge → RlmLedgerEdge} {edges : List RlmLedgerEdge}
  {child : String} {ops : List Op} {s : Ledger} {input : RlmSpawnInput}

def From (edges edges' : List RlmLedgerEdge) : Prop :=
  ∀ edge' ∈ edges', ∃ edge ∈ edges, edge'.childId = edge.childId ∧ edge'.child = edge.child ∧
    (edge'.deleted = none → edge.deleted = none)

theorem from_updateWhere (hKeeps : KeepsKey f) (hDead : ∀ edge, (f edge).deleted = none → edge.deleted = none)
    (p : RlmLedgerEdge → Bool) (edges : List RlmLedgerEdge) : From edges (Keyed.updateWhere p f edges) := by
  intro edge' hMem
  obtain ⟨edge, hOld, rfl⟩ := Keyed.mem_updateWhere.mp hMem
  refine ⟨edge, hOld, ?_⟩
  split
  next => exact ⟨(hKeeps edge).1, (hKeeps edge).2, hDead edge⟩
  next => exact ⟨rfl, rfl, id⟩

theorem from_self (edges : List RlmLedgerEdge) : From edges edges :=
  fun edge hMem => ⟨edge, hMem, rfl, rfl, id⟩

theorem from_changeEdge (hKeeps : KeepsKey f) (hDead : ∀ edge, (f edge).deleted = none → edge.deleted = none)
    (childId child : String) (edges : List RlmLedgerEdge) :
    From edges (changeEdge canonicalSessionPath childId child f edges) := by
  unfold changeEdge
  split
  next => exact from_updateWhere hKeeps hDead _ edges
  next =>
    split
    next => exact from_updateWhere hKeeps hDead _ edges
    next => exact from_self edges

theorem rename_live (name : String) (edge : RlmLedgerEdge) (hLive : (edge.rename name).deleted = none) :
    edge.deleted = none :=
  hLive

theorem delete_dead (reason : RlmLedgerDeleteReason) (usage : Option SessionUsageSummary) (edge : RlmLedgerEdge)
    (hLive : (edge.delete reason usage).deleted = none) : edge.deleted = none :=
  absurd hLive (Option.some_ne_none reason)

theorem apply_cases (canonicalSessionPath : String → String) (edges : List RlmLedgerEdge) (op : Op) :
    (From edges (op.apply canonicalSessionPath edges) ∧
      (op.apply canonicalSessionPath edges).map (·.key canonicalSessionPath) =
        edges.map (·.key canonicalSessionPath)) ∨
    ∃ input, op = .spawn input ∧ ¬Taken canonicalSessionPath edges input ∧
      op.apply canonicalSessionPath edges = LedgerRecord.write canonicalSessionPath edges
        (.spawn (input.canonical canonicalSessionPath)) := by
  have hUpdate : ∀ {f : RlmLedgerEdge → RlmLedgerEdge}, KeepsKey f → ∀ p : RlmLedgerEdge → Bool,
      (Keyed.updateWhere p f edges).map (·.key canonicalSessionPath) = edges.map (·.key canonicalSessionPath) :=
    fun hKeeps p => Keyed.map_key_updateWhere fun edge _ => hKeeps.key edge
  have hChange : ∀ {f : RlmLedgerEdge → RlmLedgerEdge}, KeepsKey f → ∀ childId child : String,
      (changeEdge canonicalSessionPath childId child f edges).map (·.key canonicalSessionPath) =
        edges.map (·.key canonicalSessionPath) := by
    intro f hKeeps childId child
    unfold changeEdge
    split
    next => exact hUpdate hKeeps _
    next =>
      split
      next => exact hUpdate hKeeps _
      next => rfl
  cases op with
  | spawn input =>
    rw [Op.apply]
    split
    next => exact .inl ⟨from_self edges, rfl⟩
    next hAccept => exact .inr ⟨input, rfl, fun hTaken => hAccept (.inr hTaken), rfl⟩
  | rename childId child name =>
    exact .inl ⟨from_changeEdge (keepsKey_rename name) (rename_live name) childId child edges,
      hChange (keepsKey_rename name) childId child⟩
  | renameByChildPath child name =>
    exact .inl ⟨from_updateWhere (keepsKey_rename name) (rename_live name) _ edges, hUpdate (keepsKey_rename name) _⟩
  | delete childId child reason usage =>
    exact .inl ⟨from_changeEdge (keepsKey_delete reason _) (delete_dead reason _) childId child edges,
      hChange (keepsKey_delete reason _) childId child⟩
  | tombstoneChildPath child reason usage =>
    exact .inl ⟨from_updateWhere (keepsKey_delete reason _) (delete_dead reason _) _ edges,
      hUpdate (keepsKey_delete reason _) _⟩
  | edges includeDeleted => exact .inl ⟨from_self edges, rfl⟩

theorem apart_apply (hCanonical : Canonical canonicalSessionPath) (hApart : Apart canonicalSessionPath edges) (op : Op) :
    Apart canonicalSessionPath (op.apply canonicalSessionPath edges) := by
  obtain ⟨hFrom, hKeys⟩ | ⟨input, -, hFree, hWrite⟩ := apply_cases canonicalSessionPath edges op
  · constructor
    · rw [hKeys]
      exact hApart.keys
    · intro a hA b hB hLiveA hLiveB hPath
      obtain ⟨a', hA', hIdA, hChildA, hWasA⟩ := hFrom a hA
      obtain ⟨b', hB', hIdB, hChildB, hWasB⟩ := hFrom b hB
      rw [hIdA, hIdB]
      rw [hChildA, hChildB] at hPath
      exact hApart.alone a' hA' b' hB' (hWasA hLiveA) (hWasB hLiveB) hPath
  · rw [hWrite]
    have hNew : ∀ edge ∈ edges, edge.deleted = none →
        canonicalSessionPath edge.child = canonicalSessionPath (canonicalSessionPath input.child) →
        edge.childId = input.childId := by
      intro edge hMem hLive hPath
      rw [hCanonical] at hPath
      by_contra hOther
      exact hFree ⟨edge, hMem, hLive, hPath, hOther⟩
    constructor
    · exact Keyed.nodup_upsert hApart.keys
    · intro a hA b hB hLiveA hLiveB hPath
      obtain rfl | ⟨hOldA, -⟩ := Keyed.mem_upsert hA
      · obtain rfl | ⟨hOldB, -⟩ := Keyed.mem_upsert hB
        · rfl
        · exact (hNew b hOldB hLiveB hPath.symm).symm
      · obtain rfl | ⟨hOldB, -⟩ := Keyed.mem_upsert hB
        · exact hNew a hOldA hLiveA hPath
        · exact hApart.alone a hOldA b hOldB hLiveA hLiveB hPath

theorem apart_seededEdges (hCanonical : Canonical env.canonicalSessionPath) (hWalked : env.Walked) :
    Apart env.canonicalSessionPath env.seededEdges := by
  obtain ⟨hChildren, hPaths⟩ := seeded_distinct hCanonical hWalked
  constructor
  · unfold Env.seededEdges
    generalize env.seeded = inputs
    have hFold : ∀ (inputs : List RlmSpawnInput) (edges : List RlmLedgerEdge),
        (edges.map (·.key env.canonicalSessionPath)).Nodup →
        (((inputs.map .spawn).foldl (LedgerRecord.write env.canonicalSessionPath) edges).map
          (·.key env.canonicalSessionPath)).Nodup := by
      intro inputs
      induction inputs with
      | nil => exact fun _ hKeys => hKeys
      | cons input inputs ih => exact fun _ hKeys => ih _ (Keyed.nodup_upsert hKeys)
    exact hFold inputs [] List.nodup_nil
  · intro a hA b hB _ _ hPath
    obtain ⟨seedA, hSeedA, rfl⟩ := mem_seededEdges hA
    obtain ⟨seedB, hSeedB, rfl⟩ := mem_seededEdges hB
    have hChild : seedA.child = seedB.child := by
      rw [← hPaths seedA hSeedA, ← hPaths seedB hSeedB]
      exact hPath
    rw [List.inj_on_of_nodup_map hChildren hSeedA hSeedB hChild]

/-! ## Tombstones stay -/

def Buried (canonicalSessionPath : String → String) (child : String) (edges : List RlmLedgerEdge) : Prop :=
  ∀ edge ∈ edges, canonicalSessionPath edge.child = canonicalSessionPath child → edge.deleted ≠ none

theorem buried_tombstone (edges : List RlmLedgerEdge) (child : String) (reason : RlmLedgerDeleteReason)
    (usage : Option SessionUsageSummary) :
    Buried canonicalSessionPath child ((Op.tombstoneChildPath child reason usage).apply canonicalSessionPath edges) := by
  intro edge' hMem hPath
  obtain ⟨edge, -, rfl⟩ := Keyed.mem_updateWhere.mp hMem
  split
  next => exact Option.some_ne_none reason
  next hOther =>
    rw [if_neg hOther] at hPath
    exact absurd (decide_eq_true hPath) hOther

def SpawnsAt (canonicalSessionPath : String → String) (child : String) (op : Op) : Prop :=
  ∃ input, op = .spawn input ∧ canonicalSessionPath input.child = canonicalSessionPath child

theorem buried_apply (hCanonical : Canonical canonicalSessionPath) (hBuried : Buried canonicalSessionPath child edges)
    {op : Op} (hElse : ¬SpawnsAt canonicalSessionPath child op) :
    Buried canonicalSessionPath child (op.apply canonicalSessionPath edges) := by
  obtain ⟨hFrom, -⟩ | ⟨input, hOp, -, hWrite⟩ := apply_cases canonicalSessionPath edges op
  · intro edge' hMem hPath hLive
    obtain ⟨edge, hOld, -, hChild, hWas⟩ := hFrom edge' hMem
    rw [hChild] at hPath
    exact hBuried edge hOld hPath (hWas hLive)
  · rw [hWrite]
    intro edge hMem hPath
    obtain rfl | ⟨hOld, -⟩ := Keyed.mem_upsert hMem
    · refine absurd ⟨input, hOp, ?_⟩ hElse
      rw [← hPath]
      exact (hCanonical _).symm
    · exact hBuried edge hOld hPath

theorem buried_foldl (hCanonical : Canonical canonicalSessionPath)
    (hElse : ∀ op ∈ ops, ¬SpawnsAt canonicalSessionPath child op) (hBuried : Buried canonicalSessionPath child edges) :
    Buried canonicalSessionPath child (ops.foldl (Op.apply canonicalSessionPath) edges) := by
  induction ops generalizing edges with
  | nil => exact hBuried
  | cons op ops ih =>
    exact ih (fun other hMem => hElse other (List.mem_cons_of_mem _ hMem))
      (buried_apply hCanonical hBuried (hElse op (List.mem_cons_self ..)))

/-! ## One operation -/

def SeesSeed (env : Env) (s : Ledger) : Op → Prop
  | .spawn input =>
    s.seedAttempted = true ∨ input.Invalid ∨
      ∀ seed ∈ env.seeded, seed.child = env.canonicalSessionPath input.child → seed.childId = input.childId
  | .renameByChildPath child name =>
    s.seedAttempted = true ∨ ∀ seed ∈ env.seeded, seed.child = env.canonicalSessionPath child → seed.name = name
  | .tombstoneChildPath child _ _ =>
    s.seedAttempted = true ∨ ∀ seed ∈ env.seeded, seed.child ≠ env.canonicalSessionPath child
  | _ => True

theorem size_seedOnce (hBound : s.size ≤ rlmLedgerMaxRecords) (stamp : Stamp) :
    (s.seedOnce env stamp).size ≤ rlmLedgerMaxRecords := by
  unfold Ledger.seedOnce
  split
  next => exact hBound
  next =>
    split
    next => exact hBound
    next =>
      simp only [Ledger.size, Option.getD_some, List.length_cons, List.length_map]
      unfold Env.seeded
      split
      next => decide
      next hFits => omega

theorem edges_read (hSeedable : env.Seedable) (hViews : Views env s edges) (hBound : s.size ≤ rlmLedgerMaxRecords)
    (stamp : Stamp) (includeDeleted : Bool) :
    ∃ s', s.edges env stamp includeDeleted =
        .ok (edges.filter fun edge => includeDeleted ∨ edge.deleted = none, s') ∧ FileShows env s' edges := by
  obtain ⟨state, s', hCached, ⟨rfl, -⟩, hFile, -⟩ :=
    replayCached_shows (fileShows_seedOnce hSeedable hViews stamp) (size_seedOnce hBound stamp)
  refine ⟨s', ?_, hFile⟩
  unfold Ledger.edges
  rw [hCached]
  rfl

theorem appendSpawn_step {s s' : Ledger} {state : ReplayState} (hCached : s.replayCached env = .ok (state, s'))
    (hValid : ¬input.Invalid) (stamp : Stamp) :
    (Op.spawn input).step env stamp s =
      if Taken env.canonicalSessionPath state.edges input then s
      else s'.appendRecord env stamp (spawnRecord stamp.time (input.canonical env.canonicalSessionPath)) := by
  have hRefused : Taken env.canonicalSessionPath state.edges input ↔ (state.edges.find? fun edge =>
      edge.deleted = none ∧ env.canonicalSessionPath edge.child = env.canonicalSessionPath input.child ∧
        edge.childId ≠ input.childId).isSome := by
    rw [List.find?_isSome]
    simp only [Taken, decide_eq_true_eq]
  unfold RlmSpawnInput.Invalid at hValid
  rw [Op.step, Op.run, Ledger.appendSpawn, if_neg hValid, hCached]
  simp only [bind, Except.bind]
  cases hFind : state.edges.find? fun edge =>
      edge.deleted = none ∧ env.canonicalSessionPath edge.child = env.canonicalSessionPath input.child ∧
        edge.childId ≠ input.childId with
  | some edge =>
    rw [hFind] at hRefused
    rw [if_pos (hRefused.mpr rfl)]
  | none =>
    rw [hFind] at hRefused
    rw [if_neg (by simp [hRefused])]
    rfl

theorem changeEdge_canonical (hCanonical : Canonical canonicalSessionPath) (childId child : String)
    (f : RlmLedgerEdge → RlmLedgerEdge) (edges : List RlmLedgerEdge) :
    changeEdge canonicalSessionPath childId (canonicalSessionPath child) f edges =
      changeEdge canonicalSessionPath childId child f edges := by
  have hKey : edgeKey canonicalSessionPath childId (canonicalSessionPath child) =
      edgeKey canonicalSessionPath childId child := by
    unfold edgeKey
    rw [hCanonical]
  unfold changeEdge
  rw [hKey]

theorem readable_readableUsage {usage : Option SessionUsageSummary} {known : SessionUsageSummary}
    (hKnown : readableUsage usage = some known) : Readable known := by
  have hTest := (Option.filter_eq_some_iff.mp hKnown).2
  simpa [Readable] using hTest

theorem appendDelete_record (s : Ledger) (stamp : Stamp) (childId child : String) (reason : RlmLedgerDeleteReason)
    (usage : Option SessionUsageSummary) :
    (match usage with
      | some usage => s.appendDeleteWithUsage env stamp childId child reason usage
      | none => s.appendDelete env stamp childId child reason) =
      s.appendRecord env stamp
        (deleteRecord stamp.time childId (env.canonicalSessionPath child) reason (readableUsage usage)) := by
  cases usage with
  | none => rfl
  | some usage =>
    by_cases hRefused : ¬isFinite usage.cost ∨ isSignNegative usage.cost
    · have hNone : readableUsage (some usage) = none := by
        rw [readableUsage, Option.filter_some, if_neg]
        simp only [decide_eq_true_eq]
        tauto
      rw [hNone]
      exact if_pos hRefused
    · have hSome : readableUsage (some usage) = some usage := by
        rw [readableUsage, Option.filter_some, if_pos]
        simp only [decide_eq_true_eq]
        tauto
      rw [hSome]
      exact if_neg hRefused

theorem views_spawn (hCanonical : Canonical env.canonicalSessionPath) (hSeedable : env.Seedable) (hWalked : env.Walked)
    (hViews : Views env s edges) (hBound : s.size ≤ rlmLedgerMaxRecords) (stamp : Stamp)
    (hSees : SeesSeed env s (.spawn input)) :
    Views env ((Op.spawn input).step env stamp s) ((Op.spawn input).apply env.canonicalSessionPath edges) := by
  by_cases hInvalid : input.Invalid
  · have hStep : (Op.spawn input).step env stamp s = s := by
      unfold RlmSpawnInput.Invalid at hInvalid
      simp only [Op.step, Op.run, Ledger.appendSpawn, if_pos hInvalid]
    rw [hStep, Op.apply, if_pos (.inl hInvalid)]
    exact hViews
  have hDepth : (input.canonical env.canonicalSessionPath).depth ≥ 1 := by
    apply UInt32.not_lt.mp
    exact fun hLess => hInvalid (.inr (.inr (.inr hLess)))
  have hParse := fun index => parse_spawn stamp.time hDepth index
  obtain hFile | hFresh := hViews
  · obtain ⟨state, s', hCached, ⟨rfl, -⟩, hFile', -⟩ := replayCached_shows hFile hBound
    rw [appendSpawn_step hCached hInvalid, Op.apply]
    by_cases hTaken : Taken env.canonicalSessionPath state.edges input
    · rw [if_pos hTaken, if_pos (.inr hTaken)]
      exact .inl hFile
    · rw [if_neg hTaken, if_neg (by tauto)]
      exact .inl (fileShows_appendRecord hSeedable (.inl hFile') stamp hParse)
  · have hFree : ¬Taken env.canonicalSessionPath edges input := by
      rintro ⟨edge, hMem, -, hPath, hOther⟩
      rw [hFresh.seeded] at hMem
      obtain ⟨seed, hSeed, rfl⟩ := mem_seededEdges hMem
      have hChild : seed.child = env.canonicalSessionPath input.child := by
        rw [← (seeded_distinct hCanonical hWalked).2 seed hSeed]
        exact hPath
      obtain hAttempted | hRefused | hSame := hSees
      · rw [hFresh.notAttempted] at hAttempted
        cases hAttempted
      · exact hInvalid hRefused
      · exact hOther (hSame seed hSeed hChild)
    have hUnseen : ¬Taken env.canonicalSessionPath ReplayState.empty.edges input := by
      rintro ⟨edge, hMem, -⟩
      exact absurd hMem List.not_mem_nil
    rw [appendSpawn_step (replayCached_fresh hFresh) hInvalid, if_neg hUnseen, Op.apply, if_neg (by tauto)]
    exact .inl (fileShows_appendRecord hSeedable (.inr hFresh) stamp hParse)

theorem fileShows_bulk (hSeedable : env.Seedable) (hKeys : (edges.map (·.key env.canonicalSessionPath)).Nodup)
    (hFile : FileShows env s edges) (stamp : Stamp) (hKeeps : KeepsKey f) {p : RlmLedgerEdge → Bool}
    (path : RlmLedgerEdge → String) (hPath : ∀ edge, p edge = true →
      edgeKey env.canonicalSessionPath edge.childId (path edge) = edge.key env.canonicalSessionPath)
    {value : RlmLedgerEdge → Json} {record : RlmLedgerEdge → LedgerRecord}
    (hParse : ∀ edge index, parseLedgerLine (value edge) index = .ok (some (record edge)))
    (hWrite : ∀ edges edge, (record edge).write env.canonicalSessionPath edges =
      changeEdge env.canonicalSessionPath edge.childId (path edge) f edges) :
    FileShows env ((edges.filter p).foldl (fun s edge => s.appendRecord env stamp (value edge)) s)
      (Keyed.updateWhere p f edges) := by
  have hAll := fileShows_appendAll hSeedable stamp hParse (edges.filter p) hFile
  simp only [hWrite] at hAll
  rwa [foldl_changeEdge hKeys hKeeps hPath] at hAll

section

variable (hCanonical : Canonical env.canonicalSessionPath)

include hCanonical

theorem views_renameByChildPath (hSeedable : env.Seedable) (hWalked : env.Walked) (hViews : Views env s edges)
    (hKeys : (edges.map (·.key env.canonicalSessionPath)).Nodup) (hBound : s.size ≤ rlmLedgerMaxRecords) (stamp : Stamp)
    {child name : String} (hSees : SeesSeed env s (.renameByChildPath child name)) :
    Views env ((Op.renameByChildPath child name).step env stamp s)
      ((Op.renameByChildPath child name).apply env.canonicalSessionPath edges) := by
  have hStep : ∀ {state s'}, s.replayCached env = .ok (state, s') →
      (Op.renameByChildPath child name).step env stamp s = (state.edges.filter fun edge => edge.deleted = none ∧
        env.canonicalSessionPath edge.child = env.canonicalSessionPath child).foldl
        (fun s edge => s.appendRecord env stamp
          (renameRecord stamp.time edge.childId (env.canonicalSessionPath child) name)) s' := by
    intro state s' hCached
    simp only [Op.step, Op.run, Ledger.appendRenameByChildPath, hCached, bind, Except.bind]
  obtain hFile | hFresh := hViews
  · obtain ⟨state, s', hCached, ⟨rfl, -⟩, hFile', -⟩ := replayCached_shows hFile hBound
    rw [hStep hCached]
    refine .inl (fileShows_bulk hSeedable hKeys hFile' stamp (keepsKey_rename name)
      (fun _ => env.canonicalSessionPath child) ?_ (fun edge index => parse_rename _ _ _ _ index)
      (fun edges edge => rfl))
    intro edge hTest
    unfold RlmLedgerEdge.key edgeKey
    rw [hCanonical, (of_decide_eq_true hTest).2]
  · rw [hStep (replayCached_fresh hFresh)]
    have hSame : (Op.renameByChildPath child name).apply env.canonicalSessionPath edges = edges := by
      apply Keyed.updateWhere_eq_self
      intro edge hMem hTest
      rw [hFresh.seeded] at hMem
      obtain ⟨seed, hSeed, rfl⟩ := mem_seededEdges hMem
      obtain hAttempted | hNames := hSees
      · rw [hFresh.notAttempted] at hAttempted
        cases hAttempted
      · have hChild : seed.child = env.canonicalSessionPath child := by
          rw [← (seeded_distinct hCanonical hWalked).2 seed hSeed]
          exact (of_decide_eq_true hTest).2
        rw [← hNames seed hSeed hChild]
        rfl
    rw [hSame]
    exact .inr hFresh

theorem views_tombstoneChildPath (hSeedable : env.Seedable) (hWalked : env.Walked) (hViews : Views env s edges)
    (hKeys : (edges.map (·.key env.canonicalSessionPath)).Nodup) (hBound : s.size ≤ rlmLedgerMaxRecords) (stamp : Stamp)
    {reason : RlmLedgerDeleteReason} {usage : Option SessionUsageSummary}
    (hSees : SeesSeed env s (.tombstoneChildPath child reason usage)) :
    Views env ((Op.tombstoneChildPath child reason usage).step env stamp s)
      ((Op.tombstoneChildPath child reason usage).apply env.canonicalSessionPath edges) := by
  have hStep : ∀ {state s'}, s.replayCached env = .ok (state, s') →
      (Op.tombstoneChildPath child reason usage).step env stamp s =
        (state.edges.filter fun edge => env.canonicalSessionPath edge.child = env.canonicalSessionPath child).foldl
          (fun s edge => s.appendRecord env stamp (deleteRecord stamp.time edge.childId
            (env.canonicalSessionPath edge.child) reason (readableUsage usage))) s' := by
    intro state s' hCached
    simp only [Op.step, Op.run, Ledger.tombstoneChildPathWithUsage, hCached, bind, Except.bind, Except.map]
    congr 1
    funext s edge
    exact appendDelete_record s stamp edge.childId edge.child reason usage
  obtain hFile | hFresh := hViews
  · obtain ⟨state, s', hCached, ⟨rfl, -⟩, hFile', -⟩ := replayCached_shows hFile hBound
    rw [hStep hCached]
    refine .inl (fileShows_bulk hSeedable hKeys hFile' stamp (keepsKey_delete reason (readableUsage usage))
      (fun edge => env.canonicalSessionPath edge.child) ?_
      (fun edge index => parse_delete _ _ _ _ (fun _ => readable_readableUsage) index) (fun edges edge => rfl))
    intro edge _
    unfold RlmLedgerEdge.key edgeKey
    rw [hCanonical]
  · rw [hStep (replayCached_fresh hFresh)]
    have hSame : (Op.tombstoneChildPath child reason usage).apply env.canonicalSessionPath edges = edges := by
      apply Keyed.updateWhere_eq_self
      intro edge hMem hTest
      rw [hFresh.seeded] at hMem
      obtain ⟨seed, hSeed, rfl⟩ := mem_seededEdges hMem
      obtain hAttempted | hNowhere := hSees
      · rw [hFresh.notAttempted] at hAttempted
        cases hAttempted
      · refine absurd ?_ (hNowhere seed hSeed)
        rw [← (seeded_distinct hCanonical hWalked).2 seed hSeed]
        exact of_decide_eq_true hTest
    rw [hSame]
    exact .inr hFresh

theorem views_step (hSeedable : env.Seedable) (hWalked : env.Walked) (hViews : Views env s edges)
    (hApart : Apart env.canonicalSessionPath edges) (hBound : s.size ≤ rlmLedgerMaxRecords) (stamp : Stamp) {op : Op}
    (hSees : SeesSeed env s op) :
    Views env (op.step env stamp s) (op.apply env.canonicalSessionPath edges) := by
  cases op with
  | spawn input => exact views_spawn hCanonical hSeedable hWalked hViews hBound stamp hSees
  | rename childId child name =>
    have hFile := fileShows_appendRecord hSeedable hViews stamp
      fun index => parse_rename stamp.time childId (env.canonicalSessionPath child) name index
    rw [LedgerRecord.write, changeEdge_canonical hCanonical] at hFile
    exact .inl hFile
  | renameByChildPath child name =>
    exact views_renameByChildPath hCanonical hSeedable hWalked hViews hApart.keys hBound stamp hSees
  | delete childId child reason usage =>
    have hFile := fileShows_appendRecord hSeedable hViews stamp fun index =>
      parse_delete stamp.time childId (env.canonicalSessionPath child) reason
        (fun _ => @readable_readableUsage usage _) index
    rw [LedgerRecord.write, changeEdge_canonical hCanonical, ← appendDelete_record] at hFile
    cases usage with
    | none | some usage => exact .inl hFile
  | tombstoneChildPath child reason usage =>
    exact views_tombstoneChildPath hCanonical hSeedable hWalked hViews hApart.keys hBound stamp hSees
  | edges includeDeleted =>
    obtain ⟨s', hRead, hFile⟩ := edges_read hSeedable hViews hBound stamp includeDeleted
    have hStep : (Op.edges includeDeleted).step env stamp s = s' := by
      simp only [Op.step, Op.run, hRead, Except.map]
    rw [hStep]
    exact .inl hFile

end

/-! ## Runs -/

/-- The states of a new ledger under operations that are allowed, the file below the read bound. -/
inductive Run (env : Env) (allowed : Ledger → Op → Prop) : List Op → Ledger → Prop where
  | start : Run env allowed [] .start
  | step {ops : List Op} {s : Ledger} (stamp : Stamp) (op : Op) (hRun : Run env allowed ops s) (hAllowed : allowed s op)
      (hBound : (op.step env stamp s).size ≤ rlmLedgerMaxRecords) : Run env allowed (ops ++ [op]) (op.step env stamp s)

def Env.edgesAfter (env : Env) (ops : List Op) : List RlmLedgerEdge :=
  ops.foldl (Op.apply env.canonicalSessionPath) env.seededEdges

theorem fresh_start : Fresh env .start env.seededEdges :=
  ⟨rfl, rfl, rfl, rfl⟩

theorem run_views (hCanonical : Canonical env.canonicalSessionPath) (hSeedable : env.Seedable) (hWalked : env.Walked)
    (hRun : Run env (SeesSeed env) ops s) :
    Views env s (env.edgesAfter ops) ∧ Apart env.canonicalSessionPath (env.edgesAfter ops) ∧
      s.size ≤ rlmLedgerMaxRecords := by
  induction hRun with
  | start => exact ⟨.inr fresh_start, apart_seededEdges hCanonical hWalked, Nat.zero_le _⟩
  | step stamp op _ hSees hBound ih =>
    obtain ⟨hViews, hApart, hSize⟩ := ih
    rw [Env.edgesAfter, List.foldl_append]
    exact ⟨views_step hCanonical hSeedable hWalked hViews hApart hSize stamp hSees, apart_apply hCanonical hApart op,
      hBound⟩

theorem edges_lastWriter (hCanonical : Canonical env.canonicalSessionPath) (hSeedable : env.Seedable)
    (hWalked : env.Walked) {ops : List Op} {s : Ledger} (hRun : Run env (SeesSeed env) ops s) :
    (∃ state, s.replay env = .ok state) ∧
    (∀ stamp includeDeleted, ∃ s', s.edges env stamp includeDeleted =
      .ok ((env.edgesAfter ops).filter fun edge => includeDeleted ∨ edge.deleted = none, s')) ∧
    ((env.edgesAfter ops).map fun edge => (edge.childId, env.canonicalSessionPath edge.child)).Nodup ∧
    (∀ a ∈ env.edgesAfter ops, ∀ b ∈ env.edgesAfter ops, a.deleted = none → b.deleted = none →
      env.canonicalSessionPath a.child = env.canonicalSessionPath b.child → a.childId = b.childId) ∧
    ∀ before after child reason usage, ops = before ++ .tombstoneChildPath child reason usage :: after →
      (∀ op ∈ after, ¬SpawnsAt env.canonicalSessionPath child op) →
      ∀ edge ∈ env.edgesAfter ops, env.canonicalSessionPath edge.child = env.canonicalSessionPath child →
        edge.deleted ≠ none := by
  obtain ⟨hViews, hApart, hSize⟩ := run_views hCanonical hSeedable hWalked hRun
  refine ⟨?_, fun stamp includeDeleted => ?_, ?_, hApart.alone, ?_⟩
  · obtain hFile | hFresh := hViews
    · obtain ⟨state, hReplay, -⟩ := replay_shows hFile hSize
      exact ⟨state, hReplay⟩
    · refine ⟨.empty, ?_⟩
      rw [Ledger.replay, hFresh.noFile]
  · obtain ⟨s', hRead, -⟩ := edges_read hSeedable hViews hSize stamp includeDeleted
    exact ⟨s', hRead⟩
  · apply List.Nodup.of_map fun pair : String × String => pair.1 ++ "\x00" ++ pair.2
    rw [List.map_map]
    exact hApart.keys
  · rintro before after child reason usage rfl hElse
    unfold Env.edgesAfter
    rw [List.foldl_append, List.foldl_cons]
    exact buried_foldl hCanonical hElse (buried_tombstone _ child reason usage)

/-! ## A seeded child -/

def seedChild : RlmSpawnInput :=
  { childId := "c1", parent := "/s/root.jsonl", child := "/s/child.jsonl", depth := 1, name := "first" }

def seedRegistries : Registries where
  sessionsDir := "/s"
  rootFiles := ["/s/root.jsonl"]
  readLegacyRegistry path :=
    if path = "/s/root.jsonl" then
      [{ childId := "c1", sessionName := "first", sessionFile := "/s/child.jsonl", rlmDepth := 0, status := "done" }]
    else []

def seedEnv : Env :=
  { canonicalSessionPath := id, sessionsDir := "/s", found := [seedChild] }

def firstStamp : Stamp :=
  { time := "t1", identity := 1 }

theorem seedEnv_seedable : seedEnv.Seedable := by
  intro input hMem
  obtain rfl := List.mem_singleton.mp (show input ∈ [seedChild] from hMem)
  decide

theorem seedEnv_walked : seedEnv.Walked :=
  ⟨seedRegistries, 2, by decide +kernel⟩

theorem edges_lastWriter_read :
    ∃ s, Run seedEnv (SeesSeed seedEnv) [.edges false, .tombstoneChildPath "/s/child.jsonl" .user none] s ∧
      (∃ s', s.edges seedEnv firstStamp true =
        .ok ([{ seedChild.edge with deleted := some .user }], s')) := by
  have hRead : Run seedEnv (SeesSeed seedEnv) [.edges false] (Op.step seedEnv firstStamp .start (.edges false)) :=
    .step firstStamp (.edges false) .start trivial (by decide +kernel)
  have hRun := Run.step firstStamp (.tombstoneChildPath "/s/child.jsonl" .user none) hRead
    (.inl (by decide +kernel)) (by decide +kernel)
  refine ⟨_, hRun, ?_⟩
  exact (edges_lastWriter (fun _ => rfl) seedEnv_seedable seedEnv_walked hRun).2.1 firstStamp true

theorem edges_firstChecks :
    (∃ s s', Run seedEnv (fun _ _ => True) [.tombstoneChildPath "/s/child.jsonl" .user none] s ∧
      s.edges seedEnv firstStamp false = .ok ([seedChild.edge], s')) ∧
    ∃ s s', Run seedEnv (fun _ _ => True) [.spawn { seedChild with childId := "c2" }] s ∧
      s.edges seedEnv firstStamp false = .ok ([seedChild.edge, { seedChild.edge with childId := "c2" }], s') := by
  constructor
  · exact ⟨_, _, .step firstStamp _ .start trivial (by decide +kernel), rfl⟩
  · exact ⟨_, _, .step firstStamp _ .start trivial (by decide +kernel), rfl⟩

end PrimeAgent.RlmLedger
