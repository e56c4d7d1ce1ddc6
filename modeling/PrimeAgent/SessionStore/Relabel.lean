import PrimeAgent.SessionStore.Persist
import PrimeAgent.SessionStore.Tree

/-! # The branch of any store

The index of a store leads from an id to a row of that id, whatever the file held. A branch is then a chain of rows with
distinct ids, and a store whose rows form such a chain is its own branch.
-/
namespace PrimeAgent.SessionStore

open ParentWalk

variable {file : SessionFile} {entry : SessionEntry} {serde : StoreSerde} {row : Nat}

def SessionFile.Bound (file : SessionFile) : Prop :=
  ∀ id row, file.byId.get id = some row → (file.entries[row]?).map (·.id) = some id

theorem bound_congr {entries : List SessionEntry} {byId : KeyMap String Nat} (hBound : file.Bound)
    (hIds : entries.map (·.id) = file.entries.map (·.id)) (hIndex : ∀ id row, byId.get id = some row →
      file.byId.get id = some row) (file' : SessionFile) (hEntries : file'.entries = entries) (hById : file'.byId = byId) :
    file'.Bound := by
  intro id row hGet
  rw [hById] at hGet
  have hHere := hBound id row (hIndex id row hGet)
  rw [← List.getElem?_map] at hHere ⊢
  rw [hEntries, hIds]
  exact hHere

theorem bound_concat (hBound : file.Bound) (file' : SessionFile)
    (hById : file'.byId = file.byId.insert entry.id file.entries.length)
    (hEntries : file'.entries = file.entries ++ [entry]) : file'.Bound := by
  intro id row hGet
  rw [hById, KeyMap.get_insert] at hGet
  rw [hEntries]
  split at hGet
  next hSame =>
    obtain rfl := Option.some.inj hGet
    rw [List.getElem?_concat_length, Option.map_some, hSame]
  next =>
    have hHere := hBound id row hGet
    obtain ⟨other, hOther, -⟩ := Option.map_eq_some_iff.mp hHere
    rw [List.getElem?_append_left (List.getElem?_eq_some_iff.mp hOther).1]
    exact hHere

theorem ids_of_envelopes {entries entries' : List SessionEntry}
    (hSame : entries.map SessionEntry.envelope = entries'.map SessionEntry.envelope) :
    entries.map (·.id) = entries'.map (·.id) := by
  have hIds := congrArg (List.map Envelope.id) hSame
  simpa [List.map_map, Function.comp_def, SessionEntry.envelope] using hIds

theorem bound_foldLive (hBound : file.Bound) (entry : SessionEntry) : (file.foldLiveAttribution entry).Bound := by
  refine bound_congr hBound (ids_of_envelopes (envelopes_foldLiveAttribution file entry)) ?_ _ rfl rfl
  intro id row hGet
  unfold SessionFile.foldLiveAttribution at hGet
  split at hGet
  next => exact hGet
  next => exact hGet

theorem bound_pushIndexInner (hBound : file.Bound) (entry : SessionEntry) (foldLive : Bool) :
    (file.pushIndexInner entry foldLive).Bound := by
  unfold SessionFile.pushIndexInner
  split
  next => exact bound_concat (bound_foldLive hBound entry) _ rfl rfl
  next => exact bound_concat hBound _ rfl rfl

theorem bound_adoptEntry (hBound : file.Bound) (entry : SessionEntry) : (file.adoptEntry entry).Bound :=
  bound_concat hBound _ rfl rfl

theorem bound_empty (path : String) (header : SessionHeader) : (SessionFile.empty path header).Bound := by
  intro id row hGet
  cases hGet

/-! ## The stores that the daemon can hold -/

/-- A store that is created, opened from any file, persisted to, moved to a row, or forked; all its rows are loaded. -/
inductive Reached (serde : StoreSerde) : SessionFile → Prop where
  | created (path : String) (header : SessionHeader) : Reached serde (.empty path header)
  | opened {path : String} {content : Bytes} {file : SessionFile} (hOpen : openFile serde path content = some file) :
      Reached serde file
  | persisted {file : SessionFile} (call : PersistCall) (disk : Option Bytes) (hFile : Reached serde file) :
      Reached serde (persistEntryAt serde call file disk).2.1
  | moved {file file' : SessionFile} {id : Option String} (hFile : Reached serde file)
      (hMove : file.branchTo id = some file') : Reached serde file'
  | forked {file forked : SessionFile} {env : ForkEnv} {leafId : String} {disk : Option Bytes}
      (hFile : Reached serde file) (hFork : file.createBranchedFile serde env leafId = some (forked, disk)) :
      Reached serde forked
  | replaced {file file' : SessionFile} {env : ForkEnv} {leafId : Option String} (hFile : Reached serde file)
      (hCut : file.replaceWithBranch env leafId = some file') : Reached serde file'

theorem bound_loadLines (lines : List Text) (hBound : file.Bound) : (lines.foldl (loadLine serde) file).Bound := by
  induction lines generalizing file with
  | nil => exact hBound
  | cons line lines ih =>
    refine ih ?_
    unfold loadLine
    split
    next => exact hBound
    next =>
      split
      next entry _ => exact bound_pushIndexInner hBound entry true
      next => exact hBound

theorem bound_openFile {path : String} {content : Bytes} (hOpen : openFile serde path content = some file) :
    file.Bound := by
  unfold openFile at hOpen
  simp only [Option.bind_eq_bind, Option.bind_eq_some_iff] at hOpen
  obtain ⟨lines, -, hOpen⟩ := hOpen
  split at hOpen
  next => cases hOpen
  next first rest _ =>
    obtain ⟨header, -, hFile⟩ := Option.bind_eq_some_iff.mp hOpen
    obtain rfl := Option.some.inj hFile
    refine bound_congr (bound_loadLines rest (bound_empty path header))
      (ids_of_envelopes (envelopes_foldChildUsageAttributions _)) ?_ _ rfl rfl
    exact fun _ _ hGet => hGet

theorem bound_foldAttributionId (hBound : file.Bound) (id : String) : (file.foldAttributionId id).Bound := by
  unfold SessionFile.foldAttributionId
  split
  next entry _ =>
    split
    next => exact bound_foldLive hBound entry
    next => exact hBound
  next => exact hBound

theorem bound_rolledBack (hBound : file.Bound) (entry : SessionEntry) :
    SessionFile.Bound { file.pushIndexInner entry false with
      byId := (file.pushIndexInner entry false).byId.remove entry.id
      entries := (file.pushIndexInner entry false).entries.dropLast
      leafId := file.leafId } := by
  refine bound_congr hBound ?_ ?_ _ rfl rfl
  · simp [SessionFile.pushIndexInner]
  · intro id row hGet
    simp only [SessionFile.pushIndexInner, Bool.false_and, Bool.false_eq_true, if_false, KeyMap.get_remove,
      KeyMap.get_insert] at hGet
    split at hGet
    next => cases hGet
    next => exact hGet

theorem bound_persistEntryAt (hBound : file.Bound) (call : PersistCall) (disk : Option Bytes) :
    (persistEntryAt serde call file disk).2.1.Bound := by
  unfold persistEntryAt
  extract_lets existing entry indexed
  clear_value existing
  split
  next => exact hBound
  next =>
    cases existing with
    | some content =>
      simp only
      split
      next =>
        split
        next => exact bound_pushIndexInner hBound entry true
        next => exact hBound
      next => exact hBound
    | none =>
      simp only
      split
      next => exact bound_foldAttributionId (bound_pushIndexInner hBound entry false) entry.id
      next => exact bound_rolledBack hBound entry

theorem bound_adoptAll (hBound : file.Bound) (entries : List SessionEntry) :
    (entries.foldl SessionFile.adoptEntry file).Bound := by
  induction entries generalizing file with
  | nil => exact hBound
  | cons entry entries ih => exact ih (bound_adoptEntry hBound entry)

theorem bound_carryLabels (labels : LabelState) (env : ForkEnv) (ids : List String) (k : Nat) (parent : Option String)
    (hBound : file.Bound) : (SessionFile.carryLabels labels env ids k parent file).Bound := by
  induction ids generalizing file k parent with
  | nil => exact hBound
  | cons id ids ih =>
    unfold SessionFile.carryLabels
    split
    next => exact ih _ _ (bound_adoptEntry hBound _)
    next => exact ih _ _ hBound

theorem bound_of_reached (hReached : Reached serde file) : file.Bound := by
  induction hReached with
  | created path header => exact bound_empty path header
  | opened hOpen => exact bound_openFile hOpen
  | persisted call disk _ ih => exact bound_persistEntryAt ih call disk
  | moved _ hMove ih =>
    unfold SessionFile.branchTo at hMove
    split at hMove
    next =>
      split at hMove
      next =>
        obtain rfl := Option.some.inj hMove
        exact ih
      next => cases hMove
    next =>
      obtain rfl := Option.some.inj hMove
      exact ih
  | forked _ hFork ih =>
    unfold SessionFile.createBranchedFile at hFork
    obtain ⟨path, -, hFork⟩ := Option.bind_eq_some_iff.mp hFork
    simp only at hFork
    split at hFork
    next =>
      obtain ⟨disk, -, hFork⟩ := Option.map_eq_some_iff.mp hFork
      obtain ⟨rfl, -⟩ := Prod.mk.inj hFork
      refine bound_carryLabels _ _ _ _ _ (bound_adoptAll ?_ _)
      intro id row hGet
      cases hGet
    next => cases hFork
  | replaced _ hCut ih =>
    unfold SessionFile.replaceWithBranch at hCut
    obtain ⟨path, -, hCut⟩ := Option.map_eq_some_iff.mp hCut
    subst hCut
    refine bound_carryLabels _ _ _ _ _ (bound_adoptAll ?_ _)
    intro id row hGet
    cases hGet

/-! ## What a branch is -/

def Below (parent child : SessionEntry) : Prop :=
  child.parentId = some parent.id

def SessionFile.OnIndex (file : SessionFile) (row : Nat) : Prop :=
  ∃ entry, file.entries[row]? = some entry ∧ file.byId.get entry.id = some row

theorem onIndex_of_get (hBound : file.Bound) {id : String} (hGet : file.byId.get id = some row) :
    file.OnIndex row := by
  obtain ⟨entry, hEntry, rfl⟩ := Option.map_eq_some_iff.mp (hBound id row hGet)
  exact ⟨entry, hEntry, hGet⟩

theorem parentPosition_get {row parent : Nat} (hParent : file.parentPosition row = some parent) :
    ∃ entry id, file.entries[row]? = some entry ∧ entry.parentId = some id ∧ file.byId.get id = some parent := by
  obtain ⟨entry, hEntry, hParent⟩ := Option.bind_eq_some_iff.mp hParent
  obtain ⟨id, hId, hGet⟩ := Option.bind_eq_some_iff.mp hParent
  exact ⟨entry, id, hEntry, hId, hGet⟩

def SessionFile.positions (file : SessionFile) : List Nat :=
  (followGuarded file.parentPosition (file.entries.length + 1) [] (file.leafId.bind file.byId.get)).getD []

theorem positions_collected (file : SessionFile) :
    Collected file.parentPosition [] (file.leafId.bind file.byId.get) file.positions := by
  unfold SessionFile.positions
  cases hLoop : followGuarded file.parentPosition (file.entries.length + 1) [] (file.leafId.bind file.byId.get) with
  | none => exact collected_nil
  | some path => exact collected_of_followGuarded _ hLoop

theorem positions_onIndex (hBound : file.Bound) (hMem : row ∈ file.positions) : file.OnIndex row := by
  obtain hLeaf | ⟨child, hParent⟩ := (positions_collected file).reached row hMem
  · obtain ⟨id, -, hGet⟩ := Option.bind_eq_some_iff.mp hLeaf
    exact onIndex_of_get hBound hGet
  · obtain ⟨-, id, -, -, hGet⟩ := parentPosition_get hParent
    exact onIndex_of_get hBound hGet

def SessionFile.rowAt (file : SessionFile) (row : Nat) : SessionEntry :=
  (file.entries[row]?).getD ⟨"", "", none, "", .null⟩

theorem rowAt_of_getElem? (hEntry : file.entries[row]? = some entry) : file.rowAt row = entry := by
  unfold SessionFile.rowAt
  rw [hEntry]
  rfl

theorem branch_eq (hBound : file.Bound) : file.branch = (file.positions.map file.rowAt).reverse := by
  unfold SessionFile.branch
  rw [← SessionFile.positions, List.filterMap_reverse, ← List.filterMap_eq_map]
  congr 1
  apply List.filterMap_congr
  intro row hMem
  obtain ⟨entry, hEntry, -⟩ := positions_onIndex hBound hMem
  rw [Function.comp_apply, rowAt_of_getElem? hEntry, hEntry]

theorem branch_chain (hBound : file.Bound) : file.branch.IsChain Below := by
  rw [branch_eq hBound, List.isChain_reverse, List.isChain_map]
  refine (positions_collected file).chain.imp_of_mem_imp ?_
  intro child parent _ _ hParent
  obtain ⟨entry, id, hEntry, hId, hGet⟩ := parentPosition_get hParent
  obtain ⟨other, hOther, rfl⟩ := Option.map_eq_some_iff.mp (hBound id parent hGet)
  show (file.rowAt child).parentId = some (file.rowAt parent).id
  rw [rowAt_of_getElem? hEntry, rowAt_of_getElem? hOther, hId]

theorem branch_ids_nodup (hBound : file.Bound) : (file.branch.map (·.id)).Nodup := by
  rw [branch_eq hBound, List.map_reverse, List.nodup_reverse, List.map_map]
  refine List.Nodup.map_on ?_ (positions_collected file).once
  intro row hRow other hOther hSame
  obtain ⟨entry, hEntry, hGet⟩ := positions_onIndex hBound hRow
  obtain ⟨entry', hEntry', hGet'⟩ := positions_onIndex hBound hOther
  simp only [Function.comp_apply, rowAt_of_getElem? hEntry, rowAt_of_getElem? hEntry'] at hSame
  rw [hSame, hGet'] at hGet
  exact (Option.some.inj hGet).symm

theorem filterMap_range_getElem (entries : List SessionEntry) :
    (List.range entries.length).filterMap (entries[·]?) = entries := by
  induction entries using List.reverseRecOn with
  | nil => rfl
  | append_singleton entries last ih =>
    have hEarlier : ∀ row ∈ List.range entries.length, (entries ++ [last])[row]? = entries[row]? := by
      intro row hMem
      exact List.getElem?_append_left (List.mem_range.mp hMem)
    rw [List.length_append, List.length_singleton, List.range_succ, List.filterMap_append,
      List.filterMap_congr hEarlier, ih]
    simp

theorem branch_of_chain (hIndexed : Keyed.Indexed (·.id) file.byId file.entries) (hChain : file.entries.IsChain Below)
    (hLeaf : file.leafId = file.entries.getLast?.map (·.id)) : file.branch = file.entries := by
  obtain hNil | ⟨rows, last, hRows⟩ := List.eq_nil_or_concat file.entries
  · unfold SessionFile.branch
    rw [hLeaf, hNil]
    rfl
  · rw [List.concat_eq_append] at hRows
    have hLength : file.entries.length = rows.length + 1 := by rw [hRows]; simp
    have hTop : file.leafId.bind file.byId.get = some rows.length := by
      rw [hLeaf, hRows, List.getLast?_concat, Option.map_some, Option.bind_some, hIndexed last.id rows.length, hRows,
        List.getElem?_concat_length]
      rfl
    have hStep : ∀ i, i < rows.length → file.parentPosition (i + 1) = some i := by
      intro i hLess
      have hAbove := List.isChain_iff_getElem.mp hChain i (by omega)
      unfold SessionFile.parentPosition
      rw [List.getElem?_eq_getElem (by omega), Option.bind_some, hAbove, Option.bind_some, hIndexed,
        List.getElem?_eq_getElem (by omega)]
      rfl
    have hEnd : ∀ j, file.parentPosition 0 = some j → j ≤ rows.length := by
      intro j hParent
      obtain ⟨-, id, -, -, hGet⟩ := parentPosition_get hParent
      obtain ⟨entry, hEntry, -⟩ := Option.map_eq_some_iff.mp ((hIndexed id j).mp hGet)
      have := (List.getElem?_eq_some_iff.mp hEntry).1
      omega
    have hWalk := followGuarded_stairs hStep hEnd rows.length (file.entries.length + 1) [] (Nat.le_refl _)
      (by simp) (by omega)
    unfold SessionFile.branch
    rw [hTop, hWalk, Option.getD_some, List.reverse_reverse, ← hLength]
    exact filterMap_range_getElem file.entries

end PrimeAgent.SessionStore

/-! ## The rows of a fork

A fork holds the rows of the path that are no labels, then the labels of those rows. It is its own branch exactly where
no label stood between two rows that stay and no drawn id was in use.
-/
namespace PrimeAgent.SessionStore

open LastSplit

variable {file : SessionFile} {env : ForkEnv} {labels : LabelState} {path rows : List SessionEntry} {ids : List String}

/-! ## Adopted rows -/

theorem adoptAll_entries (rows : List SessionEntry) (file : SessionFile) :
    (rows.foldl SessionFile.adoptEntry file).entries = file.entries ++ rows := by
  induction rows generalizing file with
  | nil => simp
  | cons entry rows ih =>
    rw [List.foldl_cons, ih]
    simp [SessionFile.adoptEntry]

theorem adoptAll_leaf (rows : List SessionEntry) (file : SessionFile) :
    (rows.foldl SessionFile.adoptEntry file).leafId = (rows.getLast?.map (·.id)).or file.leafId := by
  induction rows using List.reverseRecOn with
  | nil => rfl
  | append_singleton rows last _ =>
    rw [List.foldl_append, List.getLast?_concat]
    rfl

theorem adoptAll_indexed (hIndexed : Keyed.Indexed (·.id) file.byId file.entries)
    (hIds : ((file.entries ++ rows).map (·.id)).Nodup) :
    Keyed.Indexed (·.id) (rows.foldl SessionFile.adoptEntry file).byId (file.entries ++ rows) := by
  induction rows generalizing file with
  | nil => simpa using hIndexed
  | cons entry rows ih =>
    have hSplit : file.entries ++ entry :: rows = (file.adoptEntry entry).entries ++ rows := by
      simp [SessionFile.adoptEntry]
    have hNew : file.byId.get entry.id = none := by
      cases hGet : file.byId.get entry.id with
      | none => rfl
      | some row =>
        obtain ⟨other, hOther, hSame⟩ := Option.map_eq_some_iff.mp ((hIndexed entry.id row).mp hGet)
        rw [List.map_append, List.nodup_append] at hIds
        have hApart := hIds.2.2 other.id (List.mem_map_of_mem (List.mem_of_getElem? hOther)) entry.id (by simp)
        exact absurd hSame hApart
    rw [hSplit] at hIds ⊢
    exact ih (hIndexed.concat hNew) hIds

/-! ## The labels that are carried over -/

/-- The rows that `carryLabels` adopts. -/
def carriedRows (labels : LabelState) (env : ForkEnv) :
    List String → Nat → Option String → SessionFile → List SessionEntry
  | [], _, _, _ => []
  | id :: ids, k, parent, forked =>
    match labels.labels.get id with
    | some label =>
      let entry := SessionFile.labelRow (newEntryId forked.byId (env.draw k)) parent
        ((labels.timestamps.get id).getD (env.now k)) id label
      entry :: carriedRows labels env ids (k + 1) (some entry.id) (forked.adoptEntry entry)
    | none => carriedRows labels env ids k parent forked

theorem carryLabels_eq (labels : LabelState) (env : ForkEnv) (ids : List String) (k : Nat) (parent : Option String)
    (forked : SessionFile) : SessionFile.carryLabels labels env ids k parent forked =
      (carriedRows labels env ids k parent forked).foldl SessionFile.adoptEntry forked := by
  induction ids generalizing k parent forked with
  | nil => rfl
  | cons id ids ih =>
    unfold SessionFile.carryLabels carriedRows
    cases labels.labels.get id with
    | none => exact ih k parent forked
    | some label => exact ih _ _ _

def LabelState.Timed (labels : LabelState) : Prop :=
  ∀ id, (labels.labels.get id).isSome ↔ (labels.timestamps.get id).isSome

theorem timed_apply (hTimed : labels.Timed) (entry : SessionEntry) : (labels.apply entry).Timed := by
  unfold LabelState.apply
  split
  next =>
    split
    next =>
      intro id
      simp only [KeyMap.get_insert]
      split
      next => simp
      next => exact hTimed id
    next =>
      intro id
      simp only [KeyMap.get_remove]
      split
      next => simp
      next => exact hTimed id
    next => exact hTimed
  next => exact hTimed

theorem timed_fromEntries (entries : List SessionEntry) : (LabelState.fromEntries entries).Timed := by
  unfold LabelState.fromEntries
  have hEmpty : LabelState.Timed ⟨.empty, .empty⟩ := fun id => by simp
  revert hEmpty
  generalize (⟨.empty, .empty⟩ : LabelState) = state
  intro hState
  induction entries generalizing state with
  | nil => exact hState
  | cons entry entries ih => exact ih _ (timed_apply hState entry)

def recorded (entry : SessionEntry) : String × String × Json :=
  (entry.type, entry.timestamp, entry.fields)

def recordedLabels (labels : LabelState) (ids : List String) : List (String × String × Json) :=
  ids.filterMap fun id => (labels.labels.get id).map fun label =>
    ("label", (labels.timestamps.get id).getD "", .object [("targetId", .string id), ("label", .string label)])

theorem carriedRows_recorded (hTimed : labels.Timed) (ids : List String) (k : Nat) (parent : Option String)
    (forked : SessionFile) :
    (carriedRows labels env ids k parent forked).map recorded = recordedLabels labels ids := by
  induction ids generalizing k parent forked with
  | nil => rfl
  | cons id ids ih =>
    unfold carriedRows recordedLabels
    cases hLabel : labels.labels.get id with
    | none =>
      rw [List.filterMap_cons_none (by rw [hLabel]; rfl)]
      exact ih k parent forked
    | some label =>
      obtain ⟨timestamp, hTime⟩ := Option.isSome_iff_exists.mp ((hTimed id).mp (by rw [hLabel]; rfl))
      rw [List.filterMap_cons_some (by rw [hLabel]; rfl), List.map_cons, ih, hTime]
      rfl

theorem carriedRows_label (ids : List String) (k : Nat) (parent : Option String) (forked : SessionFile) :
    ∀ entry ∈ carriedRows labels env ids k parent forked,
      ∃ id parent timestamp targetId label, entry = SessionFile.labelRow id parent timestamp targetId label := by
  induction ids generalizing k parent forked with
  | nil => intro entry hMem; cases hMem
  | cons id ids ih =>
    unfold carriedRows
    cases labels.labels.get id with
    | none => exact ih k parent forked
    | some label =>
      intro entry hMem
      obtain rfl | hMem := List.mem_cons.mp hMem
      · exact ⟨_, _, _, _, _, rfl⟩
      · exact ih _ _ _ entry hMem

theorem carriedRows_chain (ids : List String) (k : Nat) (parent : Option String) (forked : SessionFile) :
    (carriedRows labels env ids k parent forked).IsChain Below ∧
      ∀ entry, (carriedRows labels env ids k parent forked).head? = some entry → entry.parentId = parent := by
  induction ids generalizing k parent forked with
  | nil => exact ⟨.nil, fun entry hHead => by cases hHead⟩
  | cons id ids ih =>
    unfold carriedRows
    cases labels.labels.get id with
    | none => exact ih k parent forked
    | some label =>
      obtain ⟨hChain, hHead⟩ := ih (k + 1) (some (newEntryId forked.byId (env.draw k)))
        (forked.adoptEntry (SessionFile.labelRow (newEntryId forked.byId (env.draw k)) parent
          ((labels.timestamps.get id).getD (env.now k)) id label))
      constructor
      · exact List.isChain_cons.mpr ⟨fun next hNext => hHead next hNext, hChain⟩
      · intro entry hFirst
        obtain rfl := Option.some.inj hFirst
        rfl

/-! ## The label state of a fork -/

theorem apply_labelRow (state : LabelState) (id : String) (parent : Option String) (timestamp targetId label : String) :
    state.apply (SessionFile.labelRow id parent timestamp targetId label) =
      ⟨state.labels.insert targetId label, state.timestamps.insert targetId timestamp⟩ := rfl

theorem apply_kept (state : LabelState) {entry : SessionEntry} (hKept : entry.isLabel = false) :
    state.apply entry = state := by
  unfold LabelState.apply
  rw [hKept]
  rfl

theorem foldl_apply_kept (state : LabelState) (hKept : ∀ entry ∈ rows, entry.isLabel = false) :
    rows.foldl LabelState.apply state = state := by
  induction rows with
  | nil => rfl
  | cons entry rows ih =>
    rw [List.foldl_cons, apply_kept state (hKept entry List.mem_cons_self)]
    exact ih fun other hMem => hKept other (List.mem_cons_of_mem _ hMem)

theorem shown_carried (hTimed : labels.Timed) (ids : List String) (k : Nat) (parent : Option String)
    (forked : SessionFile) (state : LabelState) (id : String)
    (hBefore : state.shown id = labels.shown id ∨ id ∈ ids ∧ state.shown id = (none, none)) :
    ((carriedRows labels env ids k parent forked).foldl LabelState.apply state).shown id = labels.shown id := by
  induction ids generalizing k parent forked state with
  | nil =>
    obtain hSame | ⟨hMem, -⟩ := hBefore
    · exact hSame
    · cases hMem
  | cons other ids ih =>
    unfold carriedRows
    cases hLabel : labels.labels.get other with
    | none =>
      refine ih k parent forked state ?_
      obtain hSame | ⟨hMem, hNone⟩ := hBefore
      · exact .inl hSame
      · obtain rfl | hMem := List.mem_cons.mp hMem
        · have hTime : labels.timestamps.get id = none := by
            rw [← Option.not_isSome_iff_eq_none, ← hTimed id, hLabel]
            simp
          refine .inl ?_
          rw [hNone, LabelState.shown, hLabel, hTime]
        · exact .inr ⟨hMem, hNone⟩
    | some label =>
      obtain ⟨timestamp, hTime⟩ := Option.isSome_iff_exists.mp ((hTimed other).mp (by rw [hLabel]; rfl))
      refine ih _ _ _ _ ?_
      rw [apply_labelRow, hTime, Option.getD_some]
      by_cases hHere : id = other
      · subst hHere
        refine .inl ?_
        simp [LabelState.shown, hLabel, hTime]
      · have hShown : LabelState.shown ⟨state.labels.insert other label, state.timestamps.insert other timestamp⟩ id =
            state.shown id := by
          simp [LabelState.shown, KeyMap.get_insert_of_ne _ hHere]
        rw [hShown]
        obtain hSame | ⟨hMem, hNone⟩ := hBefore
        · exact .inl hSame
        · refine .inr ⟨?_, hNone⟩
          exact (List.mem_cons.mp hMem).resolve_left hHere

end PrimeAgent.SessionStore
