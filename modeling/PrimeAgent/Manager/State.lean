import PrimeAgent.Session.Context

/-! # The session manager

The state of a `SessionManager` that holds its whole history (no windowed store attached), and the
index over its rows. Persist listeners, which must not break session writes, are left out.
-/
namespace PrimeAgent

open ParentWalk

abbrev Path := String

structure SessionManager where
  sessionId : String
  sessionFile : Option Path
  sessionDir : Path
  cwd : Path
  persist : Bool
  flushed : Bool
  hasAssistantEntry : Bool
  fileEntries : List FileEntry
  byId : KeyMap String Nat
  labelsById : KeyMap String String
  labelTimestampsById : KeyMap String String
  leafId : Option String

/-- The four fields `build_index` computes. -/
structure EntryIndex where
  byId : KeyMap String Nat
  labelsById : KeyMap String String
  labelTimestampsById : KeyMap String String
  leafId : Option String

namespace EntryIndex

def empty : EntryIndex where
  byId := KeyMap.empty
  labelsById := KeyMap.empty
  labelTimestampsById := KeyMap.empty
  leafId := none

/-- `apply_label_entry`. -/
def applyLabel (index : EntryIndex) (targetId : String) (label : Option String) (timestamp : String) : EntryIndex :=
  match label with
  | some label =>
    { index with
      labelsById := index.labelsById.insert targetId label
      labelTimestampsById := index.labelTimestampsById.insert targetId timestamp }
  | none =>
    { index with
      labelsById := index.labelsById.remove targetId
      labelTimestampsById := index.labelTimestampsById.remove targetId }

def addId (index : EntryIndex) (id? : Option String) (position : Nat) : EntryIndex :=
  match id? with
  | some id => { index with byId := index.byId.insert id position, leafId := some id }
  | none => index

def addLabel (index : EntryIndex) : FileEntry → EntryIndex
  | .label payload base =>
    index.applyLabel payload.targetId payload.label (FileEntry.label payload base).timestamp
  | _ => index

/-- One turn of the loop of `build_index`. -/
def add (index : EntryIndex) (row : FileEntry × Nat) : EntryIndex :=
  if row.1.isHeader then index else (index.addId row.1.id row.2).addLabel row.1

def ofEntries (entries : List FileEntry) : EntryIndex :=
  entries.zipIdx.foldl add empty

theorem ofEntries_concat (entries : List FileEntry) (entry : FileEntry) :
    ofEntries (entries ++ [entry]) = (ofEntries entries).add (entry, entries.length) := by
  rw [ofEntries, List.zipIdx_append, List.foldl_append]
  simp [ofEntries]

@[simp] theorem applyLabel_byId (index : EntryIndex) (targetId : String) (label : Option String) (timestamp : String) :
    (index.applyLabel targetId label timestamp).byId = index.byId := by
  cases label <;> rfl

@[simp] theorem addLabel_byId (index : EntryIndex) (entry : FileEntry) : (index.addLabel entry).byId = index.byId := by
  cases entry <;> simp [addLabel]

theorem add_byId_get (index : EntryIndex) (entry : FileEntry) (position : Nat) (id : String) :
    (index.add (entry, position)).byId.get id
      = if ¬ entry.isHeader ∧ entry.id = some id then some position else index.byId.get id := by
  unfold add
  cases hHeader : entry.isHeader with
  | true => simp
  | false =>
    cases hId : entry.id with
    | none => simp [addId]
    | some id' => simp [addId, KeyMap.get_insert, eq_comm]

variable {entries : List FileEntry} {id : String}

theorem ofEntries_lt {i : Nat} (h : (ofEntries entries).byId.get id = some i) : i < entries.length := by
  induction entries using List.reverseRecOn generalizing i with
  | nil => cases h
  | append_singleton entries entry ih =>
    rw [ofEntries_concat, add_byId_get] at h
    rw [List.length_append, List.length_singleton]
    split at h
    · obtain rfl := Option.some.inj h
      omega
    · have := ih h
      omega

theorem ofEntries_getElem? {i : Nat} (h : (ofEntries entries).byId.get id = some i) :
    (entries[i]?).bind FileEntry.id = some id := by
  induction entries using List.reverseRecOn generalizing i with
  | nil => cases h
  | append_singleton entries entry ih =>
    rw [ofEntries_concat, add_byId_get] at h
    split at h
    · rename_i hRow
      obtain rfl := Option.some.inj h
      simpa using hRow.2
    · have hAt := ih h
      have hLt := ofEntries_lt h
      rwa [List.getElem?_append_left hLt]

theorem addLabel_leafId (index : EntryIndex) (entry : FileEntry) : (index.addLabel entry).leafId = index.leafId := by
  unfold addLabel applyLabel
  split
  · split <;> rfl
  · rfl

theorem add_leafId (index : EntryIndex) (entry : FileEntry) (position : Nat) :
    (index.add (entry, position)).leafId
      = if ¬ entry.isHeader ∧ entry.id.isSome then entry.id else index.leafId := by
  unfold add
  cases hHeader : entry.isHeader with
  | true => simp
  | false =>
    cases hId : entry.id with
    | none | some id => simp [addId, addLabel_leafId]

theorem ofEntries_leaf (h : (ofEntries entries).leafId = some id) :
    ((ofEntries entries).byId.get id).isSome := by
  induction entries using List.reverseRecOn with
  | nil => cases h
  | append_singleton entries entry ih =>
    rw [ofEntries_concat, add_leafId] at h
    rw [ofEntries_concat, add_byId_get]
    split at h
    · rename_i hRow
      rw [if_pos ⟨hRow.1, h⟩]
      rfl
    · split
      · rfl
      · exact ih h

end EntryIndex

namespace SessionManager

def index (m : SessionManager) : EntryIndex where
  byId := m.byId
  labelsById := m.labelsById
  labelTimestampsById := m.labelTimestampsById
  leafId := m.leafId

def setIndex (m : SessionManager) (index : EntryIndex) : SessionManager :=
  { m with
    byId := index.byId
    labelsById := index.labelsById
    labelTimestampsById := index.labelTimestampsById
    leafId := index.leafId }

def buildIndex (m : SessionManager) : SessionManager :=
  m.setIndex (EntryIndex.ofEntries m.fileEntries)

def refreshHasAssistantEntry (m : SessionManager) (entries : List FileEntry) : SessionManager :=
  { m with hasAssistantEntry := entries.any (·.assistant?.isSome) }

def getEntryById (m : SessionManager) (id : String) : Option FileEntry :=
  (m.byId.get id).bind (m.fileEntries[·]?)

def getHeader (m : SessionManager) : Option SessionHeader :=
  m.fileEntries.findSome? fun
    | .header header => some header
    | _ => none

def parentPosition (m : SessionManager) (position : Nat) : Option Nat :=
  (m.fileEntries[position]?).bind fun entry => entry.parentId.bind m.byId.get

/-- The loop of `get_branch`, newest row first: it ends where a lookup fails. -/
def branchWalk (m : SessionManager) (fuel : Nat) (fromId : Option String) : Option (List Nat) :=
  follow m.parentPosition fuel ((fromId <|> m.leafId).bind m.byId.get)

/-- `get_branch`; nothing while the loop has not ended. -/
def getBranch (m : SessionManager) (fuel : Nat) (fromId : Option String) : Option (List FileEntry) :=
  (m.branchWalk fuel fromId).map fun path => rowsAt m.fileEntries path.reverse

/-- The loop of `active_branch_entries`, which keeps a visited set. -/
def activeBranchWalk (m : SessionManager) (fuel : Nat) : Option (List Nat) :=
  followGuarded m.parentPosition fuel [] (m.leafId.bind m.byId.get)

end SessionManager

end PrimeAgent
