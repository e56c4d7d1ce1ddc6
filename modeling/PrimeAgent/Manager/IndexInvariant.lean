import PrimeAgent.Manager.Ops

/-! # The index invariant

What every operation is to keep true of the rows and the index over them, and which steps do.
-/
namespace PrimeAgent

def OneHeader (entries : List FileEntry) : Prop :=
  ∃ header rest, entries = .header header :: rest ∧ ∀ row ∈ rest, row.isHeader = false

structure EntryIndex.SameLabels (index index' : EntryIndex) : Prop where
  labels : index.labelsById = index'.labelsById
  timestamps : index.labelTimestampsById = index'.labelTimestampsById

structure Indexed (entries : List FileEntry) (index : EntryIndex) : Prop where
  positions : ∀ (id : String) (i : Nat), index.byId.get id = some i → (entries[i]?).bind FileEntry.id = some id
  header : OneHeader entries
  leaf : ∀ id, index.leafId = some id → (index.byId.get id).isSome
  labels : index.SameLabels (EntryIndex.ofEntries entries)

namespace EntryIndex

variable {index index' : EntryIndex} {row : FileEntry}

theorem SameLabels.addId (h : index.SameLabels index') (id? id?' : Option String) (position position' : Nat) :
    (index.addId id? position).SameLabels (index'.addId id?' position') := by
  cases id? <;> cases id?' <;> exact ⟨h.labels, h.timestamps⟩

theorem SameLabels.applyLabel (h : index.SameLabels index') (targetId : String) (label : Option String)
    (timestamp : String) :
    (index.applyLabel targetId label timestamp).SameLabels (index'.applyLabel targetId label timestamp) := by
  obtain ⟨hLabels, hTimestamps⟩ := h
  cases label <;> constructor <;> simp only [EntryIndex.applyLabel, hLabels, hTimestamps]

theorem applyLabel_leafId (index : EntryIndex) (targetId : String) (label : Option String) (timestamp : String) :
    (index.applyLabel targetId label timestamp).leafId = index.leafId := by
  cases label <;> rfl

theorem add_of_base {base : EntryBase} (h : row.base? = some base) (index : EntryIndex) (position : Nat) :
    index.add (row, position) = (index.addId row.id position).addLabel row := by
  rw [add, FileEntry.isHeader_of_base h]
  rfl

theorem addLabel_plain (h : row.isPlain = true) (index : EntryIndex) : index.addLabel row = index := by
  cases row <;> first | rfl | cases h

theorem add_setUsage (index : EntryIndex) (usage : Usage) (entry : FileEntry) (position : Nat) :
    index.add (entry.setUsage usage, position) = index.add (entry, position) := by
  cases entry with
  | message message base => cases message <;> rfl
  | _ => rfl

theorem ofEntries_map_setUsage (usage : Usage) (entries : List FileEntry) :
    ofEntries (entries.map (FileEntry.setUsage usage)) = ofEntries entries := by
  rw [ofEntries, ofEntries, List.zipIdx_map, List.foldl_map]
  congr 1
  funext index row
  exact add_setUsage index usage row.1 row.2

theorem ofEntries_modify_setUsage (usage : Usage) (entries : List FileEntry) (i : Nat) :
    ofEntries (entries.modify i (FileEntry.setUsage usage)) = ofEntries entries := by
  rw [← ofEntries_map_setUsage usage (entries.modify i _), ← ofEntries_map_setUsage usage entries]
  congr 1
  apply List.ext_getElem?
  intro j
  rw [List.getElem?_map, List.getElem?_map, List.getElem?_modify]
  cases entries[j]? with
  | none => simp
  | some entry =>
    by_cases hHere : i = j
    · simp [hHere, FileEntry.setUsage_setUsage]
    · simp [hHere]

end EntryIndex

variable {entries : List FileEntry}

theorem indexed_ofEntries (hHeader : OneHeader entries) :
    Indexed entries (EntryIndex.ofEntries entries) where
  positions _ _ h := EntryIndex.ofEntries_getElem? h
  header := hHeader
  leaf _ h := EntryIndex.ofEntries_leaf h
  labels := ⟨rfl, rfl⟩

theorem OneHeader.concat {row : FileEntry} (h : OneHeader entries) (hRow : row.isHeader = false) :
    OneHeader (entries ++ [row]) := by
  obtain ⟨header, rest, rfl, hRest⟩ := h
  refine ⟨header, rest ++ [row], rfl, ?_⟩
  intro r hr
  rcases List.mem_append.mp hr with hr | hr
  · exact hRest r hr
  · rwa [List.mem_singleton.mp hr]

theorem oneHeader_modify (h : OneHeader entries) (i : Nat) (usage : Usage) :
    OneHeader (entries.modify i (FileEntry.setUsage usage)) := by
  obtain ⟨header, rest, rfl, hRest⟩ := h
  cases i with
  | zero => exact ⟨header, rest, rfl, hRest⟩
  | succ i =>
    refine ⟨header, rest.modify i (FileEntry.setUsage usage), by rw [List.modify_succ_cons], ?_⟩
    intro r hr
    obtain ⟨j, hj⟩ := List.mem_iff_getElem?.mp hr
    rw [List.getElem?_modify, Option.map_eq_map, Option.map_eq_some_iff] at hj
    obtain ⟨row, hAt, rfl⟩ := hj
    have hRow := hRest row (List.mem_of_getElem? hAt)
    split
    · rwa [FileEntry.setUsage_isHeader]
    · exact hRow

section Push

variable {entries : List FileEntry} {index : EntryIndex} {row : FileEntry} {id : String}

theorem push_positions (hIndexed : Indexed entries index) (hId : row.id = some id) (leafId : Option String)
    (other : String) (i : Nat)
    (h : (({ index with leafId := leafId } : EntryIndex).addId row.id entries.length).byId.get other = some i) :
    ((entries ++ [row])[i]?).bind FileEntry.id = some other := by
  rw [hId, EntryIndex.addId, KeyMap.get_insert] at h
  split at h
  · rename_i hSame
    obtain rfl := Option.some.inj h
    simp [hId, hSame]
  · have hAt := hIndexed.positions other i h
    have hLt : i < entries.length := by
      by_contra hGe
      rw [List.getElem?_eq_none (by omega)] at hAt
      cases hAt
    rwa [List.getElem?_append_left hLt]

theorem push_leaf (hId : row.id = some id) (position : Nat) (other : String)
    (h : (index.addId row.id position).leafId = some other) :
    ((index.addId row.id position).byId.get other).isSome := by
  rw [hId, EntryIndex.addId] at h ⊢
  obtain rfl := Option.some.inj h
  rw [KeyMap.get_insert_self]
  rfl

end Push

section Append

variable {env : Env} {m : SessionManager} {write : RowWrite}

theorem row_base (hValid : write.Valid env m) :
    (write.row env m).base? = some ((m.setLeafId write.leafId).nextBase env) :=
  hValid.base _

theorem row_id (hValid : write.Valid env m) :
    (write.row env m).id = some (generateId m.byId.contains (env.ids 0)) :=
  FileEntry.id_of_base (row_base hValid)

def pushedIndex (env : Env) (m : SessionManager) (write : RowWrite) : EntryIndex :=
  ({ m.index with leafId := write.leafId } : EntryIndex).addId (write.row env m).id m.fileEntries.length

theorem pushed_eq (env : Env) (m : SessionManager) (write : RowWrite) :
    ((m.setLeafId write.leafId).push (write.row env m)).indexLast (write.row env m)
      = ({ m with
        hasAssistantEntry := m.hasAssistantEntry || (write.row env m).assistant?.isSome
        fileEntries := m.fileEntries ++ [write.row env m] } : SessionManager).setIndex (pushedIndex env m write) := by
  unfold SessionManager.indexLast pushedIndex
  rw [show ((m.setLeafId write.leafId).push (write.row env m)).fileEntries.length - 1 = m.fileEntries.length by
    simp [SessionManager.push, SessionManager.setLeafId]]
  cases (write.row env m).id <;> rfl

theorem written_indexed (hIndexed : Indexed m.fileEntries m.index) (hValid : write.Valid env m) :
    Indexed (write.written env m).fileEntries (write.written env m).index := by
  have hPositions : ∀ (id : String) (i : Nat), (pushedIndex env m write).byId.get id = some i →
      ((m.fileEntries ++ [write.row env m])[i]?).bind FileEntry.id = some id :=
    push_positions hIndexed (row_id hValid) write.leafId
  have hLeaf : ∀ id, (pushedIndex env m write).leafId = some id → ((pushedIndex env m write).byId.get id).isSome :=
    push_leaf (row_id hValid) m.fileEntries.length
  have hHeader := hIndexed.header.concat (FileEntry.isHeader_of_base (row_base hValid))
  have hMoved : ({ m.index with leafId := write.leafId } : EntryIndex).SameLabels (EntryIndex.ofEntries m.fileEntries) :=
    ⟨hIndexed.labels.labels, hIndexed.labels.timestamps⟩
  have hLabels : (pushedIndex env m write).SameLabels
      ((EntryIndex.ofEntries m.fileEntries).addId (write.row env m).id m.fileEntries.length) :=
    hMoved.addId _ _ _ _
  have hConcat : EntryIndex.ofEntries (m.fileEntries ++ [write.row env m])
      = ((EntryIndex.ofEntries m.fileEntries).addId (write.row env m).id m.fileEntries.length).addLabel
        (write.row env m) := by
    rw [EntryIndex.ofEntries_concat, EntryIndex.add_of_base (row_base hValid)]
  rw [RowWrite.written, pushed_eq]
  cases hValid.settles with
  | plain hSettle hPlain =>
    rw [hSettle]
    refine ⟨hPositions, hHeader, hLeaf, ?_⟩
    have hRow : (write.row env m).isPlain = true := hPlain _
    rw [EntryIndex.addLabel_plain hRow] at hConcat
    exact hConcat ▸ hLabels
  | label payload _ hBuild hSettle =>
    have hRow : write.row env m = .label payload ((m.setLeafId write.leafId).nextBase env) := by
      rw [RowWrite.row, hBuild]
    have hLabel : EntryIndex.ofEntries (m.fileEntries ++ [write.row env m])
        = ((EntryIndex.ofEntries m.fileEntries).addId (write.row env m).id m.fileEntries.length).applyLabel
          payload.targetId payload.label env.now := by
      rw [hConcat, hRow]
      rfl
    rw [hSettle]
    refine ⟨?_, hHeader, ?_, ?_⟩
    · intro id i h
      exact hPositions id i (EntryIndex.applyLabel_byId _ _ _ _ ▸ h)
    · intro id h
      rw [show SessionManager.index _ = (pushedIndex env m write).applyLabel _ _ _ from rfl] at h ⊢
      rw [EntryIndex.applyLabel_leafId] at h
      rw [EntryIndex.applyLabel_byId]
      exact hLeaf id h
    · exact hLabel ▸ hLabels.applyLabel payload.targetId payload.label env.now
  | usage payload position _ hBuild _ hSettle =>
    have hRow : write.row env m = .childUsageAttributed payload ((m.setLeafId write.leafId).nextBase env) := by
      rw [RowWrite.row, hBuild]
    have hIndex : EntryIndex.ofEntries
          ((m.fileEntries ++ [write.row env m]).modify position (FileEntry.setUsage payload.aggregateUsage))
        = (EntryIndex.ofEntries m.fileEntries).addId (write.row env m).id m.fileEntries.length := by
      rw [EntryIndex.ofEntries_modify_setUsage, hConcat, hRow]
      rfl
    rw [hSettle]
    refine ⟨?_, oneHeader_modify hHeader _ _, hLeaf, hIndex ▸ hLabels⟩
    intro id i h
    have hAt := hPositions id i h
    rw [Option.bind_eq_some_iff] at hAt ⊢
    obtain ⟨row, hRowAt, hId⟩ := hAt
    rw [show SessionManager.fileEntries _ = (m.fileEntries ++ [write.row env m]).modify position _ from rfl,
      List.getElem?_modify, hRowAt]
    refine ⟨_, rfl, ?_⟩
    split
    · rwa [FileEntry.setUsage_id]
    · exact hId

end Append

section Lifecycle

variable {serde : Serde} {env : Env} {m : SessionManager} {w : World}

theorem oneHeader_iff_map (entries : List FileEntry) :
    OneHeader entries ↔ ∃ rest, entries.map FileEntry.isHeader = true :: rest ∧ ∀ b ∈ rest, b = false := by
  constructor
  · rintro ⟨header, rest, rfl, hRest⟩
    exact ⟨rest.map FileEntry.isHeader, rfl, by simpa using hRest⟩
  · rintro ⟨flags, hMap, hFlags⟩
    cases entries with
    | nil => cases hMap
    | cons row rest =>
      obtain ⟨hRow, rfl⟩ := List.cons.inj hMap
      cases row with
      | header header => exact ⟨header, rest, rfl, by simpa using hFlags⟩
      | _ => cases hRow

theorem upgradeEntries_isHeader (env : Env) (entries : List FileEntry) :
    (World.upgradeEntries env entries).1.map FileEntry.isHeader = entries.map FileEntry.isHeader := by
  have hMigrated := migrateToCurrentVersion_isHeader env.ids entries
  unfold World.upgradeEntries
  simp only
  split
  · rename_i header rest hRows
    split
    · rw [hRows] at hMigrated
      exact hMigrated
    · exact hMigrated
  · exact hMigrated

theorem oneHeader_upgradeEntries (env : Env) (entries : List FileEntry) :
    OneHeader (World.upgradeEntries env entries).1 ↔ OneHeader entries := by
  rw [oneHeader_iff_map, oneHeader_iff_map, upgradeEntries_isHeader]

def Fresh (m : SessionManager) : Prop :=
  ∃ header, m.fileEntries = [.header header] ∧ m.index = EntryIndex.empty

theorem Fresh.indexed (h : Fresh m) : Indexed m.fileEntries m.index := by
  obtain ⟨header, hRows, hIndex⟩ := h
  rw [hRows, hIndex]
  exact indexed_ofEntries ⟨header, [], rfl, by simp⟩

theorem newSession_fresh {w w' : World} {options : NewSessionOptions} (h : w.newSession env options = some w') :
    Fresh w'.manager := by
  unfold World.newSession at h
  simp only at h
  split at h
  · cases h
  · obtain rfl := Option.some.inj h
    exact ⟨_, rfl, rfl⟩

theorem newDefaultSession_fresh (env : Env) (w : World) : Fresh (w.newDefaultSession env).manager := by
  have hSome : (w.newSession env NewSessionOptions.default).isSome := by
    simp [World.newSession, NewSessionOptions.default]
  obtain ⟨w', hw'⟩ := Option.isSome_iff_exists.mp hSome
  rw [World.newDefaultSession, hw', Option.getD_some]
  exact newSession_fresh hw'

def foundEntries (serde : Serde) (env : Env) (w : World) (file : Path) (preloaded : Option (List FileEntry)) :
    List FileEntry :=
  (World.readEntries serde env w file preloaded).2

theorem setSessionFile_manager (w : World) (file : Path) (preloaded : Option (List FileEntry)) :
    Fresh (w.setSessionFile serde env file preloaded).manager ∧
        (w.disk.contains file = true → foundEntries serde env w file preloaded = []) ∨
      w.disk.contains file = true ∧ foundEntries serde env w file preloaded ≠ [] ∧
        (w.setSessionFile serde env file preloaded).manager.fileEntries
          = (World.upgradeEntries env (foundEntries serde env w file preloaded)).1 ∧
        (w.setSessionFile serde env file preloaded).manager.index
          = EntryIndex.ofEntries (World.upgradeEntries env (foundEntries serde env w file preloaded)).1 := by
  have hFound : World.readEntries serde env (w.onManager fun m => { m with sessionFile := some file }) file preloaded
      = World.readEntries serde env w file preloaded := by
    cases preloaded <;> rfl
  unfold World.setSessionFile
  simp only [hFound]
  cases hFile : w.disk.contains file with
  | false =>
    rw [show (w.onManager fun m => { m with sessionFile := some file }).disk.contains file = false from hFile]
    refine Or.inl ⟨?_, fun h => by cases h⟩
    obtain ⟨header, hRows, hIndex⟩ :=
      newDefaultSession_fresh env (w.onManager fun m => { m with sessionFile := some file })
    exact ⟨header, hRows, hIndex⟩
  | true =>
    rw [show (w.onManager fun m => { m with sessionFile := some file }).disk.contains file = true from hFile,
      if_pos rfl]
    cases hEmpty : (World.readEntries serde env w file preloaded).2.isEmpty with
    | true =>
      rw [if_pos rfl]
      refine Or.inl ⟨?_, fun _ => List.isEmpty_iff.mp hEmpty⟩
      obtain ⟨header, hRows, hIndex⟩ := newDefaultSession_fresh env
        ⟨(w.onManager fun m => { m with sessionFile := some file }).manager.refreshHasAssistantEntry
          (World.readEntries serde env w file preloaded).2, (World.readEntries serde env w file preloaded).1⟩
      refine ⟨header, ?_, ?_⟩
      · rw [World.setFlushed, World.rewriteFile_manager]
        exact hRows
      · rw [World.setFlushed, World.rewriteFile_manager]
        exact hIndex
    | false =>
      rw [if_neg (by simp)]
      refine Or.inr ⟨rfl, List.isEmpty_eq_false_iff.mp hEmpty, ?_, ?_⟩
      · cases (World.upgradeEntries env (World.readEntries serde env w file preloaded).2).2 with
        | true =>
          rw [if_pos rfl, World.setFlushed, World.onManager, World.rewriteFile_manager]
          rfl
        | false => rfl
      · cases (World.upgradeEntries env (World.readEntries serde env w file preloaded).2).2 with
        | true =>
          rw [if_pos rfl, World.setFlushed, World.onManager, World.rewriteFile_manager]
          rfl
        | false => rfl

/-- The steps that keep the invariant: adopted rows hold no header, a manager is only materialized into the
file it already has, and the rows of a file it turns to have exactly one header, first. -/
def Fits (serde : Serde) (env : Env) (w : World) : Op → Prop
  | .adoptEntries entries => ∀ row ∈ entries, row.isHeader = false
  | .materializeSessionFile _ => w.manager.sessionFile.isSome
  | .setSessionFile file preloaded => w.disk.contains file = true →
      foundEntries serde env w file preloaded ≠ [] → OneHeader (foundEntries serde env w file preloaded)
  | _ => True

theorem setSessionFile_indexed_iff (w : World) (file : Path) (preloaded : Option (List FileEntry)) :
    Indexed (w.setSessionFile serde env file preloaded).manager.fileEntries
        (w.setSessionFile serde env file preloaded).manager.index ↔
      Fits serde env w (.setSessionFile file preloaded) := by
  rcases @setSessionFile_manager serde env w file preloaded with ⟨hFresh, hEmpty⟩ | ⟨hFile, hSome, hRows, hIndex⟩
  · exact iff_of_true hFresh.indexed fun hFile hSome => absurd (hEmpty hFile) hSome
  · constructor
    · intro hIndexed _ _
      have hHeader := hIndexed.header
      rwa [hRows, oneHeader_upgradeEntries] at hHeader
    · intro hFits
      rw [hRows, hIndex]
      exact indexed_ofEntries ((oneHeader_upgradeEntries env _).mpr (hFits hFile hSome))

theorem adoptEntries_indexed_iff (hHeader : OneHeader w.manager.fileEntries) (entries : List FileEntry) :
    Indexed (w.adoptEntries entries).manager.fileEntries (w.adoptEntries entries).manager.index ↔
      ∀ row ∈ entries, row.isHeader = false := by
  obtain ⟨header, rest, hRows, _⟩ := hHeader
  have hAdopted : (w.adoptEntries entries).manager.fileEntries = .header header :: entries := by
    simp only [World.adoptEntries, World.onManager, SessionManager.buildIndex, SessionManager.setIndex, hRows]
    rfl
  have hIndex : (w.adoptEntries entries).manager.index
      = EntryIndex.ofEntries (w.adoptEntries entries).manager.fileEntries := rfl
  rw [hIndex, hAdopted]
  constructor
  · intro hIndexed
    obtain ⟨_, rest', hCons, hRest'⟩ := hIndexed.header
    obtain ⟨_, rfl⟩ := List.cons.inj hCons
    exact hRest'
  · exact fun hPlain => indexed_ofEntries ⟨header, entries, rfl, hPlain⟩

theorem materialize_not_indexed (hHeader : OneHeader w.manager.fileEntries) (hFile : w.manager.sessionFile = none)
    (sessionDir : Option Path) :
    ¬ OneHeader (w.materializeSessionFile serde env sessionDir).manager.fileEntries := by
  obtain ⟨header, rest, hRows, _⟩ := hHeader
  have hMaterialized : (w.materializeSessionFile serde env sessionDir).manager.fileEntries
      = .header (World.materializedHeader env w.manager) :: w.manager.fileEntries := by
    unfold World.materializeSessionFile
    simp only [hFile]
    rw [World.setFlushed, World.rewriteFile_manager]
    rfl
  rintro ⟨_, rest', hCons, hRest'⟩
  rw [hMaterialized, hRows] at hCons
  obtain ⟨_, rfl⟩ := List.cons.inj hCons
  have := hRest' _ List.mem_cons_self
  cases this

theorem perform_indexed {write : RowWrite} (hIndexed : Indexed w.manager.fileEntries w.manager.index)
    (hValid : write.Valid env w.manager) :
    Indexed (write.perform serde env w).manager.fileEntries (write.perform serde env w).manager.index := by
  rcases @Op.perform_manager serde env w write hValid with ⟨flushed, hManager⟩ | hSame
  · rw [hManager]
    exact written_indexed hIndexed hValid
  · rwa [hSame]

theorem setLeafId_indexed (hIndexed : Indexed m.fileEntries m.index) {leafId : Option String}
    (hLeaf : ∀ id, leafId = some id → (m.byId.get id).isSome) :
    Indexed (m.setLeafId leafId).fileEntries (m.setLeafId leafId).index :=
  ⟨hIndexed.positions, hIndexed.header, hLeaf, ⟨hIndexed.labels.labels, hIndexed.labels.timestamps⟩⟩

theorem byId_of_getEntryById {id : String} (h : (m.getEntryById id).isSome) :
    (m.byId.get id).isSome := by
  obtain ⟨_, hEntry⟩ := Option.isSome_iff_exists.mp h
  obtain ⟨_, hPosition, _⟩ := Option.bind_eq_some_iff.mp hEntry
  rw [hPosition]
  rfl

theorem run_indexed_iff {w w' : World} {op : Op} (hIndexed : Indexed w.manager.fileEntries w.manager.index)
    (hRun : op.run serde env w = some w') :
    Indexed w'.manager.fileEntries w'.manager.index ↔ Fits serde env w op := by
  cases hAppend : op.isAppend with
  | true =>
    have hFits : Fits serde env w op := by
      cases op <;> first | trivial | cases hAppend
    refine iff_of_true ?_ hFits
    cases hWrite : op.rowWrite? env w.manager with
    | some write =>
      rw [Op.run_of_rowWrite hWrite] at hRun
      obtain rfl := Option.some.inj hRun
      exact perform_indexed hIndexed (Op.rowWrite?_valid hWrite)
    | none =>
      obtain rfl := Op.run_of_no_rowWrite hAppend hWrite hRun
      exact hIndexed
  | false =>
    cases op with
    | branch id =>
      refine iff_of_true ?_ trivial
      rw [Op.run, World.branch] at hRun
      split at hRun
      · cases hRun
      · rename_i hTarget
        obtain rfl := Option.some.inj hRun
        refine setLeafId_indexed hIndexed ?_
        intro other hOther
        obtain rfl := Option.some.inj hOther
        exact byId_of_getEntryById (by simpa [Option.isSome_iff_ne_none] using hTarget)
    | resetLeaf =>
      obtain rfl := Option.some.inj hRun
      exact iff_of_true (setLeafId_indexed hIndexed (by simp)) trivial
    | flushNow =>
      obtain rfl := Option.some.inj hRun
      obtain ⟨flushed, hManager⟩ := @World.flushNow_manager serde env w
      rw [hManager]
      exact iff_of_true hIndexed trivial
    | newSession options => exact iff_of_true (newSession_fresh hRun).indexed trivial
    | adoptEntries entries =>
      obtain rfl := Option.some.inj hRun
      exact adoptEntries_indexed_iff hIndexed.header entries
    | materializeSessionFile sessionDir =>
      obtain rfl := Option.some.inj hRun
      cases hFile : w.manager.sessionFile with
      | some file =>
        refine iff_of_true ?_ (by rw [Fits, hFile]; rfl)
        rwa [show w.materializeSessionFile serde env sessionDir = w by simp only [World.materializeSessionFile, hFile]]
      | none =>
        refine iff_of_false ?_ (by rw [Fits, hFile]; simp)
        exact fun h => materialize_not_indexed hIndexed.header hFile sessionDir h.header
    | setSessionFile file preloaded =>
      obtain rfl := Option.some.inj hRun
      exact setSessionFile_indexed_iff w file preloaded
    | _ => cases hAppend

theorem reached_indexed (h : Reachable serde (Fits serde) w) :
    Indexed w.manager.fileEntries w.manager.index := by
  induction h with
  | persisted env disk cwd sessionDir | inMemory env disk cwd | inMemoryInSessionDir env disk cwd sessionDir =>
    exact (newDefaultSession_fresh env _).indexed
  | openFile env disk cwd sessionDir sessionFile hFits => exact (setSessionFile_indexed_iff _ _ _).mpr hFits
  | step env op _ hRun hFits ih => exact (run_indexed_iff ih hRun).mpr hFits

end Lifecycle

def blankSerde : Serde where
  value := fun _ => none
  writeEntry := fun _ => []
  writeMap := fun _ => []

def sampleEnv : Env where
  ids := fun _ => ⟨fun _ => "0a1b2c3d", "0a1b2c3d-whole"⟩
  sessionIds := fun _ => "session"
  now := "2024-01-01T00:00:00.000Z"
  git := none
  rootRlmDepth := 0
  canRepair := true
  canWrite := true

def materializedWorld : World :=
  ((World.inMemory blankSerde sampleEnv KeyMap.empty "/w").appendMessage blankSerde sampleEnv
    (.user ⟨.text "hello", 1⟩)).1.materializeSessionFile blankSerde sampleEnv none

end PrimeAgent
