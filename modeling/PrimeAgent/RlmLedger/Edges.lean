import PrimeAgent.RlmLedger.Ledger

/-! # What the ledger says

The operations as a fold over the edges, and the replay of the file as the same fold over its records.
-/
namespace PrimeAgent.RlmLedger

open SessionStore (SessionUsageSummary)

variable (canonicalSessionPath : String → String)

/-! ## The fold -/

def RlmLedgerEdge.key (edge : RlmLedgerEdge) : String :=
  edgeKey canonicalSessionPath edge.childId edge.child

def changeEdge (childId child : String) (f : RlmLedgerEdge → RlmLedgerEdge) (edges : List RlmLedgerEdge) :
    List RlmLedgerEdge :=
  if edges.any (·.key canonicalSessionPath = edgeKey canonicalSessionPath childId child) then
    Keyed.updateWhere (·.key canonicalSessionPath = edgeKey canonicalSessionPath childId child) f edges
  else if (edges.filter (·.childId = childId)).length = 1 then Keyed.updateWhere (·.childId = childId) f edges
  else edges

def LedgerRecord.write (edges : List RlmLedgerEdge) : LedgerRecord → List RlmLedgerEdge
  | .spawn input => Keyed.upsert (·.key canonicalSessionPath) input.edge edges
  | .rename childId child name => changeEdge canonicalSessionPath childId child (.rename name) edges
  | .delete childId child reason usage => changeEdge canonicalSessionPath childId child (.delete reason usage) edges

def RlmSpawnInput.Invalid (input : RlmSpawnInput) : Prop :=
  input.childId = "" ∨ input.parent = "" ∨ input.child = "" ∨ input.depth < 1

instance (input : RlmSpawnInput) : Decidable input.Invalid :=
  inferInstanceAs (Decidable (_ ∨ _ ∨ _ ∨ _))

def Taken (edges : List RlmLedgerEdge) (input : RlmSpawnInput) : Prop :=
  ∃ edge ∈ edges, edge.deleted = none ∧ canonicalSessionPath edge.child = canonicalSessionPath input.child ∧
    edge.childId ≠ input.childId

instance (edges : List RlmLedgerEdge) (input : RlmSpawnInput) : Decidable (Taken canonicalSessionPath edges input) :=
  inferInstanceAs (Decidable (∃ edge ∈ edges, _))

def RlmSpawnInput.canonical (input : RlmSpawnInput) : RlmSpawnInput :=
  { input with parent := canonicalSessionPath input.parent, child := canonicalSessionPath input.child }

def readableUsage (usage : Option SessionUsageSummary) : Option SessionUsageSummary :=
  usage.filter fun usage => isFinite usage.cost ∧ ¬isSignNegative usage.cost

def Op.apply (edges : List RlmLedgerEdge) : Op → List RlmLedgerEdge
  | .spawn input =>
    if input.Invalid ∨ Taken canonicalSessionPath edges input then edges
    else LedgerRecord.write canonicalSessionPath edges (.spawn (input.canonical canonicalSessionPath))
  | .rename childId child name => changeEdge canonicalSessionPath childId child (.rename name) edges
  | .renameByChildPath child name =>
    Keyed.updateWhere
      (fun edge => edge.deleted = none ∧ canonicalSessionPath edge.child = canonicalSessionPath child)
      (.rename name) edges
  | .delete childId child reason usage =>
    changeEdge canonicalSessionPath childId child (.delete reason (readableUsage usage)) edges
  | .tombstoneChildPath child reason usage =>
    Keyed.updateWhere (canonicalSessionPath ·.child = canonicalSessionPath child)
      (.delete reason (readableUsage usage)) edges
  | .edges _ => edges

def Env.seededEdges (env : Env) : List RlmLedgerEdge :=
  (env.seeded.map .spawn).foldl (LedgerRecord.write env.canonicalSessionPath) []

/-! ## Replay is the fold of the records -/

variable {canonicalSessionPath} {childId : String} {state : ReplayState} {f : RlmLedgerEdge → RlmLedgerEdge}
  {edges : List RlmLedgerEdge}

def ReplayState.Shows (canonicalSessionPath : String → String) (state : ReplayState) (edges : List RlmLedgerEdge) :
    Prop :=
  state.edges = edges ∧ Keyed.Indexed (·.key canonicalSessionPath) state.index state.edges

theorem shows_empty : ReplayState.empty.Shows canonicalSessionPath [] :=
  ⟨rfl, Keyed.indexed_nil⟩

theorem length_filter_zipIdx (edges : List RlmLedgerEdge) (childId : String) :
    (edges.zipIdx.filter (·.1.childId = childId)).length = (edges.filter (·.childId = childId)).length := by
  rw [← List.countP_eq_length_filter, ← List.countP_eq_length_filter]
  conv_rhs => rw [← List.zipIdx_map_fst 0 edges]
  exact (List.countP_map (p := fun edge : RlmLedgerEdge => decide (edge.childId = childId)) (f := Prod.fst)).symm

theorem soleEdge_some {row : Nat} (hSole : soleEdgeByChildId state childId = some row) :
    (state.edges.filter (·.childId = childId)).length = 1 ∧
      ∀ (j : Nat) (edge : RlmLedgerEdge), state.edges[j]? = some edge →
        (decide (edge.childId = childId) = true ↔ j = row) := by
  unfold soleEdgeByChildId at hSole
  split at hSole
  next edge at' hOne =>
    cases hSole
    have hMem : ∀ p : RlmLedgerEdge × Nat,
        p = (edge, row) ↔ state.edges[p.2]? = some p.1 ∧ p.1.childId = childId := by
      intro p
      rw [← List.mem_singleton, ← hOne, List.mem_filter, List.mem_zipIdx_iff_getElem?, decide_eq_true_eq]
    constructor
    · rw [← length_filter_zipIdx, hOne]
      rfl
    · intro j other hAt
      rw [decide_eq_true_eq]
      constructor
      · exact fun hSame => congrArg Prod.snd ((hMem (other, j)).mpr ⟨hAt, hSame⟩)
      · rintro rfl
        obtain ⟨hHere, hChild⟩ := (hMem (edge, j)).mp rfl
        rw [hAt] at hHere
        rwa [← Option.some.inj hHere] at hChild
  next => cases hSole

theorem soleEdge_none (hSole : soleEdgeByChildId state childId = none) :
    (state.edges.filter (·.childId = childId)).length ≠ 1 := by
  intro hLength
  rw [← length_filter_zipIdx] at hLength
  obtain ⟨p, hOne⟩ := List.length_eq_one_iff.mp hLength
  unfold soleEdgeByChildId at hSole
  rw [hOne] at hSole
  cases hSole

def KeepsKey (f : RlmLedgerEdge → RlmLedgerEdge) : Prop :=
  ∀ edge, (f edge).childId = edge.childId ∧ (f edge).child = edge.child

theorem KeepsKey.key (hKeeps : KeepsKey f) (edge : RlmLedgerEdge) :
    (f edge).key canonicalSessionPath = edge.key canonicalSessionPath := by
  unfold RlmLedgerEdge.key
  rw [(hKeeps edge).1, (hKeeps edge).2]

theorem keepsKey_rename (name : String) : KeepsKey (.rename name) :=
  fun _ => ⟨rfl, rfl⟩

theorem keepsKey_delete (reason : RlmLedgerDeleteReason) (usage : Option SessionUsageSummary) :
    KeepsKey (.delete reason usage) :=
  fun _ => ⟨rfl, rfl⟩

section

variable (hShows : state.Shows canonicalSessionPath edges)

include hShows

theorem shows_change (hKeeps : KeepsKey f) (childId child : String) :
    (state.change canonicalSessionPath childId child f).Shows canonicalSessionPath
      (changeEdge canonicalSessionPath childId child f edges) := by
  obtain ⟨rfl, hIndexed⟩ := hShows
  have hUpdated : ∀ p : RlmLedgerEdge → Bool, (Keyed.updateWhere p f state.edges).map (·.key canonicalSessionPath) =
      state.edges.map (·.key canonicalSessionPath) :=
    fun p => Keyed.map_key_updateWhere fun edge _ => hKeeps.key edge
  have hAny := hIndexed.any_iff (edgeKey canonicalSessionPath childId child)
  unfold ReplayState.change changeEdge
  cases hGet : state.index.get (edgeKey canonicalSessionPath childId child) with
  | some row =>
    rw [hGet] at hAny
    rw [if_pos (hAny.mpr rfl), Option.some_or]
    have hChange := Keyed.modify_eq_updateWhere (f := f) (hIndexed.alone hGet)
    exact ⟨hChange, hIndexed.congr ((congrArg (List.map _) hChange).trans (hUpdated _))⟩
  | none =>
    rw [hGet] at hAny
    rw [if_neg (by simp [hAny]), Option.none_or]
    cases hSole : soleEdgeByChildId state childId with
    | some row =>
      obtain ⟨hOne, hAlone⟩ := soleEdge_some hSole
      rw [if_pos hOne]
      have hChange := Keyed.modify_eq_updateWhere (f := f) hAlone
      exact ⟨hChange, hIndexed.congr ((congrArg (List.map _) hChange).trans (hUpdated _))⟩
    | none =>
      rw [if_neg (soleEdge_none hSole)]
      exact ⟨rfl, hIndexed⟩

theorem shows_spawn (input : RlmSpawnInput) :
    (state.apply canonicalSessionPath (.spawn input)).Shows canonicalSessionPath
      (Keyed.upsert (·.key canonicalSessionPath) input.edge edges) := by
  obtain ⟨rfl, hIndexed⟩ := hShows
  have hAny := hIndexed.any_iff (edgeKey canonicalSessionPath input.childId input.child)
  have hKey : input.edge.key canonicalSessionPath = edgeKey canonicalSessionPath input.childId input.child := rfl
  unfold ReplayState.apply Keyed.upsert
  simp only [hKey]
  cases hGet : state.index.get (edgeKey canonicalSessionPath input.childId input.child) with
  | some row =>
    rw [hGet] at hAny
    rw [if_pos (hAny.mpr rfl)]
    have hChange := Keyed.modify_eq_updateWhere (f := fun _ => input.edge) (hIndexed.alone hGet)
    refine ⟨hChange, hIndexed.congr ((congrArg (List.map _) hChange).trans ?_)⟩
    apply Keyed.map_key_updateWhere
    intro edge hSame
    rw [hKey]
    exact (of_decide_eq_true hSame).symm
  | none =>
    rw [hGet] at hAny
    rw [if_neg (by simp [hAny])]
    exact ⟨rfl, hIndexed.concat (a := input.edge) hGet⟩

theorem shows_apply (record : LedgerRecord) :
    (state.apply canonicalSessionPath record).Shows canonicalSessionPath
      (record.write canonicalSessionPath edges) := by
  cases record with
  | spawn input => exact shows_spawn hShows input
  | rename childId child name => exact shows_change hShows (keepsKey_rename name) childId child
  | delete childId child reason usage => exact shows_change hShows (keepsKey_delete reason usage) childId child

end

/-! ## Lines -/

theorem replayLines_append (state : ReplayState) (index : Nat) (lines more : List Json) :
    replayLines canonicalSessionPath state index (lines ++ more) =
      (replayLines canonicalSessionPath state index lines).bind
        fun state => replayLines canonicalSessionPath state (index + lines.length) more := by
  induction lines generalizing state index with
  | nil => rfl
  | cons line lines ih =>
    rw [List.cons_append, replayLines, replayLines, List.length_cons, Nat.add_comm lines.length 1, ← Nat.add_assoc]
    split
    next => rfl
    next =>
      split
      next => rfl
      next => exact ih _ _
      next => exact ih _ _

def LinesShow (canonicalSessionPath : String → String) (lines : List Json) (edges : List RlmLedgerEdge) : Prop :=
  lines.length ≤ rlmLedgerMaxRecords → ∃ state,
    replayLines canonicalSessionPath .empty 0 lines = .ok state ∧ state.Shows canonicalSessionPath edges

theorem linesShow_meta (time sessionsDir : String) :
    LinesShow canonicalSessionPath [metaRecord time sessionsDir] [] := by
  intro _
  refine ⟨.empty, ?_, shows_empty⟩
  rw [replayLines, if_neg (by decide), parse_meta]
  rfl

theorem LinesShow.concat {lines : List Json} (hLines : LinesShow canonicalSessionPath lines edges) {line : Json}
    {record : LedgerRecord} (hParse : ∀ index, parseLedgerLine line index = .ok (some record)) :
    LinesShow canonicalSessionPath (lines ++ [line]) (record.write canonicalSessionPath edges) := by
  intro hBound
  rw [List.length_append, List.length_singleton] at hBound
  obtain ⟨state, hReplay, hShows⟩ := hLines (by omega)
  refine ⟨_, ?_, shows_apply hShows record⟩
  rw [replayLines_append, hReplay]
  simp only [Except.bind, replayLines, Nat.zero_add, hParse]
  rw [if_neg (by omega)]

end PrimeAgent.RlmLedger

/-! ## Runs of the ledger

The ledger of a process follows the fold over the seeded edges, once each check reads the file after the seed. A check
that comes before the seed reads no edges at all.
-/
namespace PrimeAgent.RlmLedger

open SessionStore (SessionUsageSummary)

variable {env : Env} {edges : List RlmLedgerEdge} {s : Ledger} {canonicalSessionPath : String → String}
  {walk : SeedWalk}

/-! ## What the ledger holds -/

structure FileShows (env : Env) (s : Ledger) (edges : List RlmLedgerEdge) : Prop where
  attempted : s.seedAttempted = true
  file : match s.lines with
    | some lines => lines ≠ [] ∧ LinesShow env.canonicalSessionPath lines edges
    | none => edges = []
  cache : ∀ identity state, s.cache = some (identity, state) → s.lines.isSome → identity = s.identity →
    s.replay env = .ok state

/-- Before the seed there is no file, and the edges are those that the seed would write. -/
structure Fresh (env : Env) (s : Ledger) (edges : List RlmLedgerEdge) : Prop where
  notAttempted : s.seedAttempted = false
  noFile : s.lines = none
  noCache : s.cache = none
  seeded : edges = env.seededEdges

def Views (env : Env) (s : Ledger) (edges : List RlmLedgerEdge) : Prop :=
  FileShows env s edges ∨ Fresh env s edges

def Ledger.size (s : Ledger) : Nat :=
  (s.lines.getD []).length

def Env.Seedable (env : Env) : Prop :=
  ∀ input ∈ env.seeded, input.depth ≥ 1

/-! ## Seeding -/

theorem linesShow_spawns {inputs : List RlmSpawnInput} (hDepth : ∀ input ∈ inputs, input.depth ≥ 1) (time : String)
    {lines : List Json} (hLines : LinesShow env.canonicalSessionPath lines edges) :
    LinesShow env.canonicalSessionPath (lines ++ inputs.map (spawnRecord time))
      ((inputs.map .spawn).foldl (LedgerRecord.write env.canonicalSessionPath) edges) := by
  induction inputs generalizing lines edges with
  | nil =>
    rw [List.map_nil, List.append_nil]
    exact hLines
  | cons input inputs ih =>
    have hNext := hLines.concat fun index => parse_spawn time (hDepth input (List.mem_cons_self ..)) index
    have hRest := ih (fun other hMem => hDepth other (List.mem_cons_of_mem _ hMem)) hNext
    rwa [List.append_assoc, List.singleton_append] at hRest

theorem fileShows_seedOnce (hSeedable : env.Seedable) (hViews : Views env s edges) (stamp : Stamp) :
    FileShows env (s.seedOnce env stamp) edges := by
  unfold Ledger.seedOnce
  obtain hFile | hFresh := hViews
  · rw [if_pos hFile.attempted]
    exact hFile
  · rw [if_neg (by simp [hFresh.notAttempted])]
    split
    next hNone =>
      have hSeeded : env.seeded = [] := by simpa [hFresh.noFile] using hNone
      refine ⟨rfl, ?_, fun identity state hCache => by simp [hFresh.noCache] at hCache⟩
      simp only [hFresh.noFile, hFresh.seeded, Env.seededEdges, hSeeded]
      rfl
    next =>
      refine ⟨rfl, ⟨List.cons_ne_nil _ _, ?_⟩, fun identity state hCache => by simp [hFresh.noCache] at hCache⟩
      rw [hFresh.seeded]
      exact linesShow_spawns hSeedable stamp.time (linesShow_meta stamp.time env.sessionsDir)

theorem fileShows_appendRecord (hSeedable : env.Seedable) (hViews : Views env s edges) (stamp : Stamp) {value : Json}
    {record : LedgerRecord} (hParse : ∀ index, parseLedgerLine value index = .ok (some record)) :
    FileShows env (s.appendRecord env stamp value) (record.write env.canonicalSessionPath edges) := by
  have hFile := fileShows_seedOnce hSeedable hViews stamp
  refine ⟨hFile.attempted, ⟨by simp, ?_⟩, fun identity state hCache => by simp [Ledger.appendRecord] at hCache⟩
  have hHolds := hFile.file
  cases hLines : (s.seedOnce env stamp).lines with
  | none =>
    rw [hLines] at hHolds
    subst hHolds
    exact (linesShow_meta stamp.time env.sessionsDir).concat hParse
  | some lines =>
    rw [hLines] at hHolds
    obtain ⟨hSome, hShow⟩ := hHolds
    obtain ⟨line, rest, rfl⟩ := List.exists_cons_of_ne_nil hSome
    exact hShow.concat hParse

/-! ## Replays -/

theorem replay_shows (hFile : FileShows env s edges) (hBound : s.size ≤ rlmLedgerMaxRecords) :
    ∃ state, s.replay env = .ok state ∧ state.Shows env.canonicalSessionPath edges := by
  have hHolds := hFile.file
  unfold Ledger.replay
  unfold Ledger.size at hBound
  cases hLines : s.lines with
  | none =>
    rw [hLines] at hHolds
    subst hHolds
    exact ⟨.empty, rfl, shows_empty⟩
  | some lines =>
    rw [hLines] at hHolds hBound
    exact hHolds.2 hBound

theorem replayCached_shows (hFile : FileShows env s edges) (hBound : s.size ≤ rlmLedgerMaxRecords) :
    ∃ state s', s.replayCached env = .ok (state, s') ∧ state.Shows env.canonicalSessionPath edges ∧
      FileShows env s' edges ∧ s'.size = s.size := by
  obtain ⟨state, hReplay, hShows⟩ := replay_shows hFile hBound
  have hReread : ∃ s', (s.replay env).map (fun state => (state, if s.lines.isSome then
      { s with cache := some (s.identity, state) } else s)) = .ok (state, s') ∧ FileShows env s' edges ∧
      s'.size = s.size := by
    rw [hReplay]
    refine ⟨_, rfl, ?_⟩
    split
    next =>
      refine ⟨⟨hFile.attempted, hFile.file, fun identity cached hCache _ _ => ?_⟩, rfl⟩
      obtain ⟨-, rfl⟩ := Prod.mk.inj (Option.some.inj hCache)
      exact hReplay
    next => exact ⟨hFile, rfl⟩
  obtain ⟨s', hRead, hFile', hSize⟩ := hReread
  unfold Ledger.replayCached
  cases hCache : s.cache with
  | none => exact ⟨state, s', hRead, hShows, hFile', hSize⟩
  | some pair =>
    obtain ⟨identity, cached⟩ := pair
    dsimp only
    by_cases hHit : s.lines.isSome ∧ identity = s.identity
    · rw [if_pos hHit]
      have hSame := hFile.cache identity cached hCache hHit.1 hHit.2
      rw [hReplay] at hSame
      cases hSame
      exact ⟨state, s, rfl, hShows, hFile, rfl⟩
    · rw [if_neg hHit]
      exact ⟨state, s', hRead, hShows, hFile', hSize⟩

theorem replayCached_fresh (hFresh : Fresh env s edges) :
    s.replayCached env = .ok (.empty, s) := by
  unfold Ledger.replayCached Ledger.replay
  rw [hFresh.noCache, hFresh.noFile]
  rfl

/-! ## Several records at once -/

theorem fileShows_appendAll (hSeedable : env.Seedable) (stamp : Stamp) {α : Type} {value : α → Json}
    {record : α → LedgerRecord} (hParse : ∀ a index, parseLedgerLine (value a) index = .ok (some (record a)))
    (items : List α) (hFile : FileShows env s edges) :
    FileShows env (items.foldl (fun s a => s.appendRecord env stamp (value a)) s)
      (items.foldl (fun edges a => (record a).write env.canonicalSessionPath edges) edges) := by
  induction items generalizing s edges with
  | nil => exact hFile
  | cons a items ih => exact ih (fileShows_appendRecord hSeedable (.inl hFile) stamp (hParse a))

theorem foldl_changeEdge (hKeys : (edges.map (·.key canonicalSessionPath)).Nodup) {f : RlmLedgerEdge → RlmLedgerEdge}
    (hKeeps : KeepsKey f) {p : RlmLedgerEdge → Bool} {path : RlmLedgerEdge → String} (hPath : ∀ edge, p edge = true →
      edgeKey canonicalSessionPath edge.childId (path edge) = edge.key canonicalSessionPath) :
    (edges.filter p).foldl (fun edges edge => changeEdge canonicalSessionPath edge.childId (path edge) f edges) edges =
      Keyed.updateWhere p f edges := by
  have hStep : ∀ (items now : List RlmLedgerEdge),
      (∀ edge ∈ items, p edge = true ∧ edge.key canonicalSessionPath ∈ now.map (·.key canonicalSessionPath)) →
      items.foldl (fun edges edge => changeEdge canonicalSessionPath edge.childId (path edge) f edges) now =
        (items.map (·.key canonicalSessionPath)).foldl
          (fun edges k => Keyed.updateWhere (·.key canonicalSessionPath = k) f edges) now := by
    intro items
    induction items with
    | nil => exact fun _ _ => rfl
    | cons edge items ih =>
      intro now hItems
      obtain ⟨hTest, hIn⟩ := hItems edge (List.mem_cons_self ..)
      have hAny : now.any (·.key canonicalSessionPath = edge.key canonicalSessionPath) = true := by
        obtain ⟨other, hMem, hSame⟩ := List.mem_map.mp hIn
        exact List.any_eq_true.mpr ⟨other, hMem, decide_eq_true hSame⟩
      have hChange : changeEdge canonicalSessionPath edge.childId (path edge) f now =
          Keyed.updateWhere (·.key canonicalSessionPath = edge.key canonicalSessionPath) f now := by
        unfold changeEdge
        rw [hPath edge hTest, if_pos hAny]
      rw [List.foldl_cons, List.map_cons, List.foldl_cons, hChange]
      apply ih
      intro other hMem
      rw [Keyed.map_key_updateWhere fun edge _ => hKeeps.key edge]
      exact hItems other (List.mem_cons_of_mem _ hMem)
  rw [hStep, Keyed.foldl_updateWhere ((List.filter_sublist.map _).nodup hKeys) hKeeps.key, Keyed.updateWhere_filter hKeys]
  intro edge hMem
  obtain ⟨hIn, hTest⟩ := List.mem_filter.mp hMem
  exact ⟨hTest, List.mem_map_of_mem hIn⟩

/-! ## What the walk finds -/

structure SeedWalk.Distinct (canonicalSessionPath : String → String) (walk : SeedWalk) : Prop where
  children : (walk.records.map (·.child)).Nodup
  visited : ∀ input ∈ walk.records, input.child ∈ walk.visited
  canonical : ∀ input ∈ walk.records, canonicalSessionPath input.child = input.child

def Canonical (canonicalSessionPath : String → String) : Prop :=
  ∀ path, canonicalSessionPath (canonicalSessionPath path) = canonicalSessionPath path

theorem distinct_entry (hCanonical : Canonical canonicalSessionPath) (sessionFile : String) (depth : UInt32)
    (hDistinct : walk.Distinct canonicalSessionPath) (entry : LegacyRlmSubagentEntry) :
    (walk.entry canonicalSessionPath sessionFile depth entry).Distinct canonicalSessionPath := by
  unfold SeedWalk.entry
  dsimp only
  split
  next => exact hDistinct
  next hNew =>
    constructor
    · rw [List.map_append]
      apply hDistinct.children.append (List.nodup_singleton _)
      intro child hOld hSame
      obtain ⟨input, hMem, rfl⟩ := List.mem_map.mp hOld
      have hChild : input.child = canonicalSessionPath entry.sessionFile := List.mem_singleton.mp hSame
      apply hNew
      refine .inr (.inr ?_)
      rw [← hChild]
      exact hDistinct.visited input hMem
    · intro input hMem
      obtain hOld | hLast := List.mem_append.mp hMem
      · exact List.mem_append_left _ (hDistinct.visited input hOld)
      · rw [List.mem_singleton.mp hLast]
        exact List.mem_append_right _ (List.mem_singleton_self _)
    · intro input hMem
      obtain hOld | hLast := List.mem_append.mp hMem
      · exact hDistinct.canonical input hOld
      · rw [List.mem_singleton.mp hLast]
        exact hCanonical _

theorem distinct_run (hCanonical : Canonical canonicalSessionPath) {registries : Registries} {fuel : Nat}
    (hDistinct : walk.Distinct canonicalSessionPath) {found : List RlmSpawnInput}
    (hRun : walk.run canonicalSessionPath registries fuel = some found) :
    (found.map (·.child)).Nodup ∧ ∀ input ∈ found, canonicalSessionPath input.child = input.child := by
  induction fuel generalizing walk with
  | zero =>
    rw [SeedWalk.run] at hRun
    split at hRun
    next =>
      cases hRun
      exact ⟨hDistinct.children, hDistinct.canonical⟩
    next => cases hRun
  | succ fuel ih =>
    rw [SeedWalk.run] at hRun
    split at hRun
    next =>
      cases hRun
      exact ⟨hDistinct.children, hDistinct.canonical⟩
    next sessionFile depth queue _ =>
      refine ih ?_ hRun
      have hEntries : ∀ (entries : List LegacyRlmSubagentEntry) (walk : SeedWalk), walk.Distinct canonicalSessionPath →
          (entries.foldl (SeedWalk.entry canonicalSessionPath sessionFile depth) walk).Distinct
            canonicalSessionPath := by
        intro entries
        induction entries with
        | nil => exact fun _ hNow => hNow
        | cons entry entries ih => exact fun _ hNow => ih _ (distinct_entry hCanonical sessionFile depth hNow entry)
      exact hEntries _ _ ⟨hDistinct.children, hDistinct.visited, hDistinct.canonical⟩

def Env.Walked (env : Env) : Prop :=
  ∃ (registries : Registries) (fuel : Nat), registries.walk env.canonicalSessionPath fuel = some env.found

theorem seeded_distinct (hCanonical : Canonical env.canonicalSessionPath) (hWalked : env.Walked) :
    (env.seeded.map (·.child)).Nodup ∧ ∀ input ∈ env.seeded, env.canonicalSessionPath input.child = input.child := by
  obtain ⟨registries, fuel, hWalk⟩ := hWalked
  rw [Registries.walk] at hWalk
  unfold Env.seeded
  split
  next => exact ⟨List.nodup_nil, fun _ hMem => absurd hMem List.not_mem_nil⟩
  next =>
    refine distinct_run hCanonical ?_ hWalk
    exact ⟨List.nodup_nil, by simp, by simp⟩

theorem mem_seededEdges {edge : RlmLedgerEdge} (hMem : edge ∈ env.seededEdges) :
    ∃ input ∈ env.seeded, edge = input.edge := by
  have hFold : ∀ (inputs : List RlmSpawnInput) (edges : List RlmLedgerEdge),
      edge ∈ (inputs.map .spawn).foldl (LedgerRecord.write env.canonicalSessionPath) edges →
      edge ∈ edges ∨ ∃ input ∈ inputs, edge = input.edge := by
    intro inputs
    induction inputs with
    | nil => exact fun _ hMem => .inl hMem
    | cons input inputs ih =>
      intro edges hMem
      obtain hOld | ⟨other, hOther, hSame⟩ := ih _ hMem
      · obtain hNew | ⟨hOld, -⟩ := Keyed.mem_upsert hOld
        · exact .inr ⟨input, List.mem_cons_self .., hNew⟩
        · exact .inl hOld
      · exact .inr ⟨other, List.mem_cons_of_mem _ hOther, hSame⟩
  obtain hNone | hSome := hFold env.seeded [] hMem
  · exact absurd hNone List.not_mem_nil
  · exact hSome

end PrimeAgent.RlmLedger
