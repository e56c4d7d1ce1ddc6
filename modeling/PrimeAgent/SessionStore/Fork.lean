import PrimeAgent.SessionStore.ForkContext

/-! # A fork and its source

A fork keeps the branch of its leaf exactly where no label stands between two rows that stay and the ids drawn for the
carried labels are new.
-/
namespace PrimeAgent.SessionStore

open SessionFile

variable {file forked : SessionFile} {serde : StoreSerde} {env : ForkEnv} {leafId : String}
  {path carried : List SessionEntry} {disk : Option Bytes}

/-- The rows that record the labels of `kept` again, under any ids, each below the row before it. -/
structure Carries (labels : LabelState) (kept carried : List SessionEntry) : Prop where
  recorded : carried.map recorded = recordedLabels labels (kept.map (·.id))
  labels : ∀ entry ∈ carried, ∃ id parent timestamp targetId label,
    entry = labelRow id parent timestamp targetId label
  chain : carried.IsChain Below
  tail : ∀ entry, carried.head? = some entry → entry.parentId = kept.getLast?.map (·.id)

structure Adopted (source : SessionFile) (path carried : List SessionEntry) (forked : SessionFile) : Prop where
  carries : Carries (LabelState.fromEntries source.entries) (keptRows path) carried
  shown : ∀ entry ∈ keptRows path, (LabelState.fromEntries (keptRows path ++ carried)).shown entry.id =
    (LabelState.fromEntries source.entries).shown entry.id
  rows : ∃ base : SessionFile, base.entries = [] ∧ base.byId = .empty ∧ base.leafId = none ∧
    forked = (keptRows path ++ carried).foldl adoptEntry base

theorem adopted_of_base (source base : SessionFile) (env : ForkEnv) (path : List SessionEntry)
    (hEntries : base.entries = []) (hById : base.byId = .empty) (hLeaf : base.leafId = none) :
    ∃ carried, Adopted source path carried
      (carryLabels (LabelState.fromEntries source.entries) env ((keptRows path).map (·.id)) 0
        ((keptRows path).getLast?.map (·.id)) ((keptRows path).foldl adoptEntry base)) := by
  have hTimed := timed_fromEntries source.entries
  obtain ⟨hChain, hHead⟩ := @carriedRows_chain env (LabelState.fromEntries source.entries) ((keptRows path).map (·.id)) 0
    ((keptRows path).getLast?.map (·.id)) ((keptRows path).foldl adoptEntry base)
  refine ⟨_, ⟨carriedRows_recorded hTimed _ _ _ _, carriedRows_label _ _ _ _, hChain, hHead⟩, ?_, base, hEntries, hById,
    hLeaf, ?_⟩
  · intro entry hMem
    unfold LabelState.fromEntries
    rw [List.foldl_append, foldl_apply_kept _ fun other hOther => keptRows_not_label hOther]
    exact shown_carried hTimed _ _ _ _ _ _ (.inr ⟨List.mem_map_of_mem hMem, rfl⟩)
  · rw [carryLabels_eq, List.foldl_append]

theorem createBranchedFile_adopted (hFork : file.createBranchedFile serde env leafId = some (forked, disk)) :
    ∃ path carried, file.branchPathEntries leafId = some path ∧ Adopted file path carried forked := by
  unfold createBranchedFile at hFork
  obtain ⟨path, hPath, hFork⟩ := Option.bind_eq_some_iff.mp hFork
  simp only at hFork
  split at hFork
  next =>
    obtain ⟨disk, -, hFork⟩ := Option.map_eq_some_iff.mp hFork
    obtain ⟨rfl, -⟩ := Prod.mk.inj hFork
    obtain ⟨carried, hAdopted⟩ := adopted_of_base file (file.forkBase env) env path rfl rfl rfl
    exact ⟨path, carried, hPath, hAdopted⟩
  next => cases hFork

theorem replaceWithBranch_adopted (hCut : file.replaceWithBranch env (some leafId) = some forked) :
    ∃ path carried, file.branchPathEntries leafId = some path ∧ Adopted file path carried forked := by
  unfold replaceWithBranch at hCut
  obtain ⟨path, hPath, rfl⟩ := Option.map_eq_some_iff.mp hCut
  obtain ⟨carried, hAdopted⟩ := adopted_of_base file { file with entries := [], byId := .empty, leafId := none } env path
    rfl rfl rfl
  refine ⟨path, carried, hPath, ?_⟩
  simp only
  rw [adoptAll_leaf]
  simpa [keptRows] using hAdopted

namespace Adopted

section

variable (a : Adopted file path carried forked)

include a

theorem entries : forked.entries = keptRows path ++ carried := by
  obtain ⟨base, hEntries, -, -, rfl⟩ := a.rows
  rw [adoptAll_entries, hEntries, List.nil_append]

theorem bound : forked.Bound := by
  obtain ⟨base, hEntries, hById, -, rfl⟩ := a.rows
  refine bound_adoptAll ?_ _
  intro id row hGet
  rw [hById] at hGet
  cases hGet

theorem leaf : forked.leafId = forked.entries.getLast?.map (·.id) := by
  rw [a.entries]
  obtain ⟨base, -, -, hLeaf, rfl⟩ := a.rows
  rw [adoptAll_leaf, hLeaf, Option.or_none]

theorem indexed (hIds : ((keptRows path ++ carried).map (·.id)).Nodup) :
    Keyed.Indexed (·.id) forked.byId forked.entries := by
  rw [a.entries]
  obtain ⟨base, hEntries, hById, -, rfl⟩ := a.rows
  have hIndexed : Keyed.Indexed (·.id) base.byId base.entries := by
    rw [hById, hEntries]
    exact Keyed.indexed_nil
  have hFresh : ((base.entries ++ (keptRows path ++ carried)).map (·.id)).Nodup := by
    rw [hEntries]
    exact hIds
  have hAll := adoptAll_indexed hIndexed hFresh
  rwa [hEntries, List.nil_append] at hAll

theorem carried_labels {entry : SessionEntry} (hMem : entry ∈ carried) :
    entry.isLabel = true := by
  obtain ⟨id, parent, timestamp, targetId, label, rfl⟩ := a.carries.labels entry hMem
  rfl

theorem keptRows_rows : keptRows (keptRows path ++ carried) = keptRows path := by
  rw [keptRows_append, keptRows_labels fun entry hMem => a.carried_labels hMem, List.append_nil]
  exact List.filter_eq_self.mpr fun entry hMem => (List.mem_filter.mp hMem).2

theorem chain_iff (hChain : path.IsChain Below) (hIds : (path.map (·.id)).Nodup) :
    (keptRows path ++ carried).IsChain Below ↔ NoInnerLabel path := by
  rw [List.isChain_append, keptRows_chain_iff hChain hIds]
  constructor
  · exact fun hAll => hAll.1
  · intro hInner
    refine ⟨hInner, a.carries.chain, ?_⟩
    intro parent hParent child hChild
    show child.parentId = some parent.id
    rw [a.carries.tail child hChild, hParent]
    rfl

theorem branch_iff (hChain : path.IsChain Below) (hIds : (path.map (·.id)).Nodup) :
    forked.branch = keptRows path ++ carried ↔
      NoInnerLabel path ∧ ((keptRows path ++ carried).map (·.id)).Nodup := by
  constructor
  · intro hBranch
    have hForkChain := branch_chain a.bound
    have hForkIds := branch_ids_nodup a.bound
    rw [hBranch] at hForkChain hForkIds
    exact ⟨(a.chain_iff hChain hIds).mp hForkChain, hForkIds⟩
  · rintro ⟨hInner, hFresh⟩
    have hForkChain := (a.chain_iff hChain hIds).mpr hInner
    rw [branch_of_chain (a.indexed hFresh) (by rw [a.entries]; exact hForkChain) a.leaf, a.entries]

theorem context_iff (hChain : path.IsChain Below) (hIds : (path.map (·.id)).Nodup)
    (hRows : ∀ entry ∈ path, entry.Written) (hBranch : forked.branch = keptRows path ++ carried) :
    rebuiltContext forked.branch = rebuiltContext path ↔ PinFree path := by
  obtain ⟨hInner, hFresh⟩ := (a.branch_iff hChain hIds).mp hBranch
  have hForkChain := (a.chain_iff hChain hIds).mpr hInner
  have hTyped : ∀ entry ∈ path, entry.Typed := fun entry hMem => typed_of_written (hRows entry hMem)
  have hInert : LabelsInert path := fun entry hMem hLabel => label_inert (hRows entry hMem) hLabel
  have hForkTyped : ∀ entry ∈ keptRows path ++ carried, entry.Typed := by
    intro entry hMem
    obtain hKept | hCarried := List.mem_append.mp hMem
    · exact hTyped entry (List.mem_filter.mp hKept).1
    · obtain ⟨id, parent, timestamp, targetId, label, rfl⟩ := a.carries.labels entry hCarried
      exact (labelRow_typed id parent timestamp targetId label).1
  have hForkInert : LabelsInert (keptRows path ++ carried) := by
    intro entry hMem hLabel
    obtain hKept | hCarried := List.mem_append.mp hMem
    · rw [keptRows_not_label hKept] at hLabel
      cases hLabel
    · obtain ⟨id, parent, timestamp, targetId, label, rfl⟩ := a.carries.labels entry hCarried
      exact (labelRow_typed id parent timestamp targetId label).2
  have hForkInner : NoInnerLabel (keptRows path ++ carried) := by
    refine (keptRows_chain_iff hForkChain hFresh).mp ?_
    rw [a.keptRows_rows]
    exact (List.isChain_append.mp hForkChain).1
  have hForkFree : PinFree (keptRows path ++ carried) := by
    rintro before compaction after payload base hSplit hRow - ⟨label, hMem, hLabel, -⟩
    have hStays : compaction.isLabel = false := by
      cases hOther : compaction.isLabel with
      | false => rfl
      | true =>
        have hNone := (hForkInert compaction (by rw [hSplit]; simp) hOther).compaction
        rw [hRow] at hNone
        cases hNone
    obtain ⟨gap, -, hCarried⟩ | ⟨gap, hKept, -⟩ := List.append_eq_append_iff.mp hSplit
    · rw [a.carried_labels (by rw [hCarried]; simp)] at hStays
      cases hStays
    · rw [keptRows_not_label (by rw [hKept]; simp [hMem])] at hLabel
      cases hLabel
  rw [hBranch, rebuiltContext_eq hForkTyped hForkChain hFresh, rebuiltContext_eq hTyped hChain hIds,
    ← contextOfRows_keptRows_iff hInert hTyped hIds hInner,
    ← (contextOfRows_keptRows_iff hForkInert hForkTyped hFresh hForkInner).mpr hForkFree, a.keptRows_rows]

end

end Adopted

/-! ## What a fork keeps -/

def SessionFile.atLeaf (file : SessionFile) (leafId : String) : SessionFile :=
  { file with leafId := some leafId }

theorem atLeaf_branch (hPath : file.branchPathEntries leafId = some path) : (file.atLeaf leafId).branch = path := by
  unfold branchPathEntries at hPath
  simp only at hPath
  split at hPath
  next => cases hPath
  next => exact Option.some.inj hPath

/-- The fork's branch is the path without its labels, then the labels recorded again; messages, labels and context are
those of the source at the leaf. -/
structure KeepsBranch (file : SessionFile) (leafId : String) (carried : List SessionEntry) (forked : SessionFile) :
    Prop where
  branch : forked.branch = keptRows (file.atLeaf leafId).branch ++ carried
  messages : ∀ isoToUnixMs, forked.messages isoToUnixMs = (file.atLeaf leafId).messages isoToUnixMs
  shown : ∀ entry ∈ keptRows (file.atLeaf leafId).branch,
    (LabelState.fromEntries forked.entries).shown entry.id = (LabelState.fromEntries file.entries).shown entry.id
  context : (∀ entry ∈ (file.atLeaf leafId).branch, entry.Written) →
    rebuiltContext forked.branch = rebuiltContext (file.atLeaf leafId).branch

structure Forkable (path carried : List SessionEntry) : Prop where
  inner : NoInnerLabel path
  fresh : ((keptRows path ++ carried).map (·.id)).Nodup
  pins : (∀ entry ∈ path, entry.Written) → PinFree path

theorem Adopted.keeps_iff (a : Adopted file path carried forked) (hBound : file.Bound)
    (hPath : (file.atLeaf leafId).branch = path) :
    KeepsBranch file leafId carried forked ↔ Forkable path carried := by
  have hMoved : (file.atLeaf leafId).Bound := hBound
  have hChain := branch_chain hMoved
  have hIds := branch_ids_nodup hMoved
  rw [hPath] at hChain hIds
  constructor
  · intro hKeeps
    have hBranch := hKeeps.branch
    rw [hPath] at hBranch
    obtain ⟨hInner, hFresh⟩ := (a.branch_iff hChain hIds).mp hBranch
    refine ⟨hInner, hFresh, fun hRows => (a.context_iff hChain hIds hRows hBranch).mp ?_⟩
    have hContext := hKeeps.context
    rw [hPath] at hContext
    exact hContext hRows
  · intro hForkable
    have hBranch := (a.branch_iff hChain hIds).mpr ⟨hForkable.inner, hForkable.fresh⟩
    constructor
    · rw [hPath]
      exact hBranch
    · intro isoToUnixMs
      unfold SessionFile.messages
      rw [hBranch, hPath, ← branchMessages_keptRows, a.keptRows_rows, branchMessages_keptRows]
    · rw [hPath, a.entries]
      exact a.shown
    · intro hRows
      rw [hPath] at hRows ⊢
      exact (a.context_iff hChain hIds hRows hBranch).mpr (hForkable.pins hRows)

theorem branched_file_iff (hStore : Reached serde file)
    (hFork : file.createBranchedFile serde env leafId = some (forked, disk)) :
    ∃ carried, Carries (LabelState.fromEntries file.entries) (keptRows (file.atLeaf leafId).branch) carried ∧
      forked.entries = keptRows (file.atLeaf leafId).branch ++ carried ∧
      (∀ env' cut, file.replaceWithBranch env' (some leafId) = some cut → ∃ carried',
        Carries (LabelState.fromEntries file.entries) (keptRows (file.atLeaf leafId).branch) carried' ∧
        cut.entries = keptRows (file.atLeaf leafId).branch ++ carried') ∧
      (KeepsBranch file leafId carried forked ↔ Forkable (file.atLeaf leafId).branch carried) := by
  obtain ⟨path, carried, hPath, hAdopted⟩ := createBranchedFile_adopted hFork
  have hBranch := atLeaf_branch hPath
  rw [hBranch]
  refine ⟨carried, hAdopted.carries, hAdopted.entries, ?_, hAdopted.keeps_iff (bound_of_reached hStore) hBranch⟩
  intro env' cut hCut
  obtain ⟨path', carried', hPath', hAdopted'⟩ := replaceWithBranch_adopted hCut
  obtain rfl := Option.some.inj (hPath.symm.trans hPath')
  exact ⟨carried', hAdopted'.carries, hAdopted'.entries⟩

/-! ## Two stores -/

def idSerde : StoreSerde where
  value _ := none
  entry _ := none
  write entry := some entry.id.toList
  writeHeader _ := []

def appendCall (id type : String) (fields : Json) : PersistCall :=
  ⟨type, fields, "2026-01-01T00:00:00.000Z", fun _ => id, id, true⟩

def userFields (text : String) : Json :=
  .object [("message", .object [("role", .string "user"), ("content", .string text)])]

def markFields (targetId label : String) : Json :=
  .object [("targetId", .string targetId), ("label", .string label)]

def storeAfter (calls : List PersistCall) : SessionFile :=
  calls.foldl (fun file call => (persistEntryAt idSerde call file none).2.1)
    (.empty "" ⟨some 3, "session", "", "/work", none, none, none⟩)

theorem storeAfter_reached (calls : List PersistCall) : Reached idSerde (storeAfter calls) := by
  induction calls using List.reverseRecOn with
  | nil => exact .created _ _
  | append_singleton calls call ih =>
    unfold storeAfter
    rw [List.foldl_append]
    exact .persisted call none ih

def forkEnv : ForkEnv where
  draw k _ := if k = 0 then "first" else "second"
  now _ := ""
  sessionId := "fork"
  timestamp := ""
  git := none
  path := "/sessions/fork.jsonl"
  leased := true
  written := true

def endLabelled : SessionFile :=
  storeAfter [appendCall "a" "message" (userFields "one"), appendCall "b" "message" (userFields "two"),
    appendCall "m" "label" (markFields "a" "mark")]

theorem endLabelled_branch : (endLabelled.atLeaf "m").branch.map (fun entry => (entry.id, entry.isLabel)) =
    [("a", false), ("b", false), ("m", true)] := by
  decide +kernel

theorem endLabelled_inner : NoInnerLabel (endLabelled.atLeaf "m").branch := by
  intro before label after hPath hLabel
  have hShape := endLabelled_branch
  rw [hPath, List.map_append, List.map_cons, hLabel] at hShape
  refine .inr ?_
  obtain rfl | ⟨last, other, rfl⟩ := List.eq_nil_or_concat' after
  · simp
  · exfalso
    have hLast := congrArg List.length hShape
    have hAt := congrArg (fun rows => (rows[before.length]?).map Prod.snd) hShape
    simp at hLast hAt
    have hPlace : before.length = 0 ∨ before.length = 1 := by omega
    obtain hPlace | hPlace := hPlace
    all_goals simp [hPlace] at hAt

theorem endLabelled_kept : ∃ forked disk, endLabelled.createBranchedFile idSerde forkEnv "m" = some (forked, disk) ∧
    ∃ carried, forked.entries = keptRows (endLabelled.atLeaf "m").branch ++ carried ∧
      KeepsBranch endLabelled "m" carried forked := by
  obtain ⟨⟨forked, disk⟩, hFork⟩ : ∃ result, endLabelled.createBranchedFile idSerde forkEnv "m" = some result :=
    Option.isSome_iff_exists.mp (by decide +kernel)
  refine ⟨forked, disk, hFork, ?_⟩
  have hForkIds : forked.entries.map (·.id) = ["a", "b", "first"] := by
    have hHere : (endLabelled.createBranchedFile idSerde forkEnv "m").map (fun result => result.1.entries.map (·.id)) =
        some ["a", "b", "first"] := by decide +kernel
    rw [hFork] at hHere
    exact Option.some.inj hHere
  have hStore : Reached idSerde endLabelled := storeAfter_reached _
  obtain ⟨carried, -, hEntries, -, hKeeps⟩ := branched_file_iff hStore hFork
  refine ⟨carried, hEntries, hKeeps.mpr ⟨endLabelled_inner, ?_, ?_⟩⟩
  · rw [← hEntries, hForkIds]
    decide
  · intro _ before compaction after payload base hPath hRow
    exfalso
    have hNone : (endLabelled.atLeaf "m").branch.all (fun entry => !entry.row.isCompaction) = true := by decide +kernel
    have hHere := List.all_eq_true.mp hNone compaction (by rw [hPath]; simp)
    rw [hRow] at hHere
    cases hHere

def midLabelled : SessionFile :=
  storeAfter [appendCall "a" "message" (userFields "one"), appendCall "m" "label" (markFields "a" "mark"),
    appendCall "c" "message" (userFields "two")]

theorem midLabelled_loses : ∃ forked disk, Reached idSerde midLabelled ∧
    midLabelled.createBranchedFile idSerde forkEnv "c" = some (forked, disk) ∧
    ∀ carried, ¬ KeepsBranch midLabelled "c" carried forked := by
  obtain ⟨⟨forked, disk⟩, hFork⟩ : ∃ result, midLabelled.createBranchedFile idSerde forkEnv "c" = some result :=
    Option.isSome_iff_exists.mp (by decide +kernel)
  refine ⟨forked, disk, storeAfter_reached _, hFork, fun carried hKeeps => ?_⟩
  have hMessages := hKeeps.messages fun _ => none
  have hLost : (midLabelled.createBranchedFile idSerde forkEnv "c").map (fun result =>
      decide (result.1.messages (fun _ => none) = (midLabelled.atLeaf "c").messages fun _ => none)) = some false := by
    decide +kernel
  rw [hFork, Option.map_some, hMessages] at hLost
  simp at hLost

end PrimeAgent.SessionStore
