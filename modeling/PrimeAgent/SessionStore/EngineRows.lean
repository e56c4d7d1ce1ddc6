import PrimeAgent.Engine.Compaction
import PrimeAgent.Lib.Keyed
import PrimeAgent.Session.PathContext
import PrimeAgent.SessionStore.File

/-! # The messages of a stored session

The branch of the leaf, the messages of its last compacted window, and the cut that a compaction is pinned to. The
engine finds the cut in its own rows; the store finds it again in the rows of the file.
-/
namespace PrimeAgent.SessionStore

open ParentWalk LastSplit

namespace SessionEntry

def isCompaction (entry : SessionEntry) : Bool :=
  entry.type == "compaction"

/-- `entry_bears_message`. -/
def bearsMessage (entry : SessionEntry) : Bool :=
  match entry.type with
  | "message" => (entry.fields.get "message").isSome
  | "custom_message" => true
  | _ => false

def message (entry : SessionEntry) : Option Json :=
  match entry.type with
  | "message" => entry.fields.get "message"
  | "custom_message" => some (match entry.fields with
    | .object members =>
      .object (insertMember "timestamp" (.string entry.timestamp) (insertMember "role" (.string "custom") members))
    | fields => fields)
  | _ => none

def firstKeptEntryId (entry : SessionEntry) : String :=
  ((entry.fields.get "firstKeptEntryId").bind Json.asStr).getD ""

/-- `serde_json::to_value` of a row, whose flattened fields are an object. -/
def toValue (entry : SessionEntry) : Option Json :=
  match entry.fields with
  | .object members => some (.object ([("type", .string entry.type), ("id", .string entry.id),
      ("parentId", (entry.parentId.map Json.string).getD .null), ("timestamp", .string entry.timestamp)] ++ members))
  | _ => none

def toFileEntry (entry : SessionEntry) : Option FileEntry :=
  entry.toValue.bind FileEntry.ofValue

end SessionEntry

/-- `compaction_summary_message`, with `iso_to_unix_ms`. -/
def compactionSummaryMessage (isoToUnixMs : String → Option Nat) (entry : SessionEntry) (retainedCount : Nat) : Json :=
  let optional := fun name => ((entry.fields.get name).map (name, ·)).toList
  .object ([("role", .string "compactionSummary"), ("summary", (entry.fields.get "summary").getD .null),
      ("tokensBefore", (entry.fields.get "tokensBefore").getD (.number (.posInt 0))),
      ("retainedMessageCount", .number (.posInt retainedCount))] ++ optional "customInstructions" ++
    (if (entry.fields.get "harnessDigest").isSome then
      optional "harnessDigest" ++ optional "harnessStateFingerprint" else []) ++
    [("timestamp", .number (.posInt ((isoToUnixMs entry.timestamp).getD 0)))])

def walkRetained (firstKeptEntryId : String) (before : List SessionEntry) : List SessionEntry :=
  (before.filter (·.bearsMessage)).dropWhile (·.id != firstKeptEntryId)

/-- `walk_message_values` along a branch. -/
def branchMessages (isoToUnixMs : String → Option Nat) (branch : List SessionEntry) : List Json :=
  match splitAtLast (·.isCompaction) branch with
  | none => branch.filterMap (·.message)
  | some (before, compaction, after) =>
    let retained := walkRetained compaction.firstKeptEntryId before
    compactionSummaryMessage isoToUnixMs compaction retained.length ::
      retained.filterMap (·.message) ++ after.filterMap (·.message)

/-- `durable_first_kept_entry_id` over a branch. -/
def durableFirstKeptEntryId (serde : Serde) (keepRecentTokens : Nat) (branch : List SessionEntry) : Option String :=
  let entries := branch.filterMap (·.toFileEntry)
  let start := if (entries.head?.any (·.isHeader)) then 1 else 0
  let cut := findCutPoint serde entries start entries.length keepRecentTokens
  ((entries[cut.firstKeptEntryIndex]?).bind (·.id)).filter (· ≠ "")

namespace SessionFile

def parentPosition (file : SessionFile) (row : Nat) : Option Nat :=
  (file.entries[row]?).bind fun entry => entry.parentId.bind file.byId.get

def branch (file : SessionFile) : List SessionEntry :=
  ((followGuarded file.parentPosition (file.entries.length + 1) [] (file.leafId.bind file.byId.get)).getD
    []).reverse.filterMap (file.entries[·]?)

def messages (isoToUnixMs : String → Option Nat) (file : SessionFile) : List Json :=
  branchMessages isoToUnixMs file.branch

def fileEntries (file : SessionFile) : List FileEntry :=
  .header file.header :: file.entries.filterMap (·.toFileEntry)

end SessionFile

end PrimeAgent.SessionStore

/-! ## One file, read by the store and by the engine

The engine reads every row of the store under the same id and parent, so that its path holds the rows of the branch.
-/
namespace PrimeAgent.SessionStore

open ParentWalk LastSplit

/-! ## The rows -/

structure SessionEntry.Written (entry : SessionEntry) : Prop where
  known : entry.type ≠ "session"
  named : entry.id ≠ ""
  fields : ∃ members, entry.fields = .object members ∧
    ∀ name ∈ ["type", "id", "parentId", "timestamp"], members.lookup name = none

def SessionEntry.row (entry : SessionEntry) : FileEntry :=
  entry.toFileEntry.getD (.unknown [])

/-- The `type` tag a row is written under. -/
def kindOf : FileEntry → Option String
  | .header _ => some "session"
  | .message .. => some "message"
  | .thinkingLevelChange .. => some "thinking_level_change"
  | .serviceTierChange .. => some "service_tier_change"
  | .modelChange .. => some "model_change"
  | .compaction .. => some "compaction"
  | .branchSummary .. => some "branch_summary"
  | .custom .. => some "custom"
  | .childUsageAttributed .. => some "child_usage_attributed"
  | .label .. => some "label"
  | .sessionInfo .. => some "session_info"
  | .sessionState .. => some "session_state"
  | .gitState .. => some "git_state"
  | .customMessage .. => some "custom_message"
  | .unknown _ => none

theorem payload_known {α : Type} {decode : Decode.Fields → Option α} {build : α → EntryBase → FileEntry} {kind : String}
    (hBuild : ∀ payload base, (build payload base).base? = some base ∧ kindOf (build payload base) = some kind)
    {fields : Decode.Fields} {entry : FileEntry} (hEntry : payloadEntry decode build fields = some entry) :
    ∃ base, EntryBase.ofFields fields = some base ∧ entry.base? = some base ∧ kindOf entry = some kind := by
  simp only [payloadEntry, Option.bind_eq_bind, Option.bind_eq_some_iff, Option.some.injEq] at hEntry
  obtain ⟨payload, -, base, hBase, rfl⟩ := hEntry
  exact ⟨base, hBase, hBuild payload base⟩

theorem known_base {members : JsonMap} {kind : String} (hKind : (members.lookup "type").bind Json.asStr = some kind)
    (hKnown : kind ≠ "session") {entry : FileEntry} (hEntry : KnownFileEntry.ofMembers members = some entry) :
    ∃ base, EntryBase.ofFields ⟨(members.lookup ·), true⟩ = some base ∧ entry.base? = some base ∧
      kindOf entry = some kind := by
  unfold KnownFileEntry.ofMembers at hEntry
  rw [hKind] at hEntry
  simp only [Option.bind_eq_bind, Option.bind_some, Option.bind_eq_some_iff] at hEntry
  obtain ⟨decode, hDecode, hEntry⟩ := hEntry
  have hMem : (kind, decode) ∈ knownKinds := by
    obtain ⟨before, after, hSplit, -⟩ := List.lookup_eq_some_iff.mp hDecode
    rw [hSplit]
    exact List.mem_append_right _ (List.mem_cons_self ..)
  simp only [knownKinds, List.mem_cons, List.not_mem_nil, or_false, Prod.mk.injEq] at hMem
  obtain ⟨rfl, -⟩ | ⟨rfl, rfl⟩ | ⟨rfl, rfl⟩ | ⟨rfl, rfl⟩ | ⟨rfl, rfl⟩ | ⟨rfl, rfl⟩ | ⟨rfl, rfl⟩ | ⟨rfl, rfl⟩ |
    ⟨rfl, rfl⟩ | ⟨rfl, rfl⟩ | ⟨rfl, rfl⟩ | ⟨rfl, rfl⟩ | ⟨rfl, rfl⟩ | ⟨rfl, rfl⟩ := hMem
  · exact absurd rfl hKnown
  all_goals exact payload_known (fun _ _ => ⟨rfl, rfl⟩) hEntry

def SessionEntry.members (entry : SessionEntry) (members : JsonMap) : JsonMap :=
  [("type", .string entry.type), ("id", .string entry.id),
    ("parentId", (entry.parentId.map Json.string).getD .null), ("timestamp", .string entry.timestamp)] ++ members

variable {entry : SessionEntry} {id : String}

theorem written_row (hWritten : entry.Written) : ∃ members,
    entry.fields = .object members ∧ entry.toFileEntry = some entry.row ∧
      entry.row = (KnownFileEntry.ofMembers (entry.members members)).getD (.unknown (entry.members members)) := by
  obtain ⟨members, hFields, -⟩ := hWritten.fields
  have hRow : entry.toFileEntry = some ((KnownFileEntry.ofMembers (entry.members members)).getD
      (.unknown (entry.members members))) := by
    unfold SessionEntry.toFileEntry SessionEntry.toValue
    rw [hFields]
    rfl
  refine ⟨members, hFields, ?_, ?_⟩
  · rw [SessionEntry.row, hRow]
    rfl
  · rw [SessionEntry.row, hRow]
    rfl

theorem members_base (entry : SessionEntry) (members : JsonMap) :
    EntryBase.ofFields ⟨((entry.members members).lookup ·), true⟩ =
      some ⟨some entry.id, entry.parentId, some entry.timestamp⟩ := by
  obtain ⟨type, id, parentId, timestamp, fields⟩ := entry
  cases parentId with
  | none => rfl
  | some parent => rfl

theorem row_ids (hWritten : entry.Written) :
    entry.row.id = some entry.id ∧ entry.row.parentId = entry.parentId := by
  obtain ⟨members, -, -, hRow⟩ := written_row hWritten
  rw [hRow]
  cases hKnown : KnownFileEntry.ofMembers (entry.members members) with
  | some known =>
    obtain ⟨base, hBase, hKept, -⟩ := @known_base (entry.members members) entry.type rfl hWritten.known known hKnown
    rw [members_base] at hBase
    obtain rfl := Option.some.inj hBase
    exact ⟨FileEntry.id_of_base hKept, FileEntry.parentId_of_base hKept⟩
  | none =>
    obtain ⟨type, id, parentId, timestamp, fields⟩ := entry
    cases parentId with
    | none | some parent => exact ⟨rfl, rfl⟩

/-! ## The branch -/

structure SessionFile.Written (file : SessionFile) : Prop where
  rows : ∀ entry ∈ file.entries, entry.Written
  index : Keyed.Indexed (·.id) file.byId file.entries
  parents : ∀ i entry parent, file.entries[i]? = some entry → entry.parentId = some parent →
    ∃ j, j < i ∧ file.byId.get parent = some j
variable {file : SessionFile}

theorem written_empty (path : String) (header : SessionHeader) : (SessionFile.empty path header).Written where
  rows := by simp [SessionFile.empty]
  index := Keyed.indexed_nil
  parents := by simp [SessionFile.empty]

theorem lookup_insertMember {key name : String} (hNe : key ≠ name) (value : Json) (members : JsonMap) :
    (SessionEntry.insertMember key value members).lookup name = members.lookup name := by
  have hKey : (name == key) = false := by simpa using Ne.symm hNe
  unfold SessionEntry.insertMember
  split
  next hAny =>
    clear hAny
    induction members with
    | nil => rfl
    | cons member members ih =>
      rw [List.map_cons, List.lookup_cons, List.lookup_cons, ih]
      by_cases hHere : member.1 = key
      · rw [if_pos hHere, hHere, hKey]
      · rw [if_neg hHere]
  next => simp [List.lookup_append, List.lookup_cons, hKey]

theorem setUsage_ids (aggregate : Json) (entry : SessionEntry) :
    (entry.setUsage aggregate).id = entry.id ∧ (entry.setUsage aggregate).parentId = entry.parentId := by
  unfold SessionEntry.setUsage
  split
  next => exact ⟨rfl, rfl⟩
  next => exact ⟨rfl, rfl⟩

theorem setUsage_written (hWritten : entry.Written) (aggregate : Json) :
    (entry.setUsage aggregate).Written := by
  unfold SessionEntry.setUsage
  split
  next members message hFields _ =>
    obtain ⟨members', hHere, hNames⟩ := hWritten.fields
    rw [hFields] at hHere
    obtain rfl := Json.object.inj hHere
    refine ⟨hWritten.known, hWritten.named, _, rfl, fun name hName => ?_⟩
    rw [lookup_insertMember (by rintro rfl; simp at hName)]
    exact hNames name hName
  next => exact hWritten

section

variable (hWritten : file.Written)

include hWritten

theorem written_modify (row : Nat) (aggregate : Json) :
    SessionFile.Written { file with entries := file.entries.modify row (SessionEntry.setUsage aggregate) } := by
  have hAt : ∀ (i : Nat) (entry : SessionEntry),
      (file.entries.modify row (SessionEntry.setUsage aggregate))[i]? = some entry →
        ∃ old, file.entries[i]? = some old ∧ (entry = old ∨ entry = old.setUsage aggregate) := by
    intro i entry hEntry
    rw [List.getElem?_modify] at hEntry
    obtain ⟨old, hOld, rfl⟩ := Option.map_eq_some_iff.mp hEntry
    refine ⟨old, hOld, ?_⟩
    split
    next => exact .inr rfl
    next => exact .inl rfl
  constructor
  · intro entry hMem
    obtain ⟨i, hEntry⟩ := List.mem_iff_getElem?.mp hMem
    obtain ⟨old, hOld, rfl | rfl⟩ := hAt i entry hEntry
    · exact hWritten.rows _ (List.mem_of_getElem? hOld)
    · exact setUsage_written (hWritten.rows _ (List.mem_of_getElem? hOld)) aggregate
  · refine hWritten.index.congr ?_
    apply List.ext_getElem?
    intro i
    rw [List.getElem?_map, List.getElem?_map, List.getElem?_modify]
    cases file.entries[i]? with
    | none => rfl
    | some entry =>
      show some (if row = i then entry.setUsage aggregate else entry).id = some entry.id
      split
      next => rw [(setUsage_ids aggregate entry).1]
      next => rfl
  · intro i entry parent hEntry hParent
    obtain ⟨old, hOld, rfl | rfl⟩ := hAt i entry hEntry
    · exact hWritten.parents i _ parent hOld hParent
    · exact hWritten.parents i old parent hOld ((setUsage_ids aggregate old).2 ▸ hParent)

theorem written_pushIndex (hEntry : entry.Written) (hNew : file.byId.get entry.id = none)
    (hParent : ∀ parent, entry.parentId = some parent → (file.byId.get parent).isSome = true) :
    (file.pushIndex entry).Written := by
  have hFolded : ∀ folded : SessionFile, folded.Written → folded.byId = file.byId → SessionFile.Written
      { folded with
        byId := folded.byId.insert entry.id folded.entries.length
        leafId := some entry.id
        entries := folded.entries ++ [entry] } := by
    intro folded hFold hSame
    constructor
    · intro row hMem
      obtain hOld | rfl := List.mem_append.mp hMem |>.imp_right List.mem_singleton.mp
      · exact hFold.rows row hOld
      · exact hEntry
    · exact hFold.index.concat (by rw [hSame]; exact hNew)
    · intro i row parent hRow hAbove
      have hKept : ∀ other j, folded.byId.get other = some j →
          (folded.byId.insert entry.id folded.entries.length).get other = some j := by
        intro other j hGet
        rw [KeyMap.get_insert, if_neg]
        · exact hGet
        · rintro rfl
          rw [hSame, hNew] at hGet
          cases hGet
      rcases Nat.lt_trichotomy i folded.entries.length with hLess | rfl | hMore
      · rw [List.getElem?_append_left hLess] at hRow
        obtain ⟨j, hBelow, hGet⟩ := hFold.parents i row parent hRow hAbove
        exact ⟨j, hBelow, hKept parent j hGet⟩
      · rw [List.getElem?_concat_length] at hRow
        obtain rfl := Option.some.inj hRow
        obtain ⟨j, hGet⟩ := Option.isSome_iff_exists.mp (hParent parent hAbove)
        rw [← hSame] at hGet
        have hIn := (hFold.index parent j).mp hGet
        obtain ⟨other, hOther, -⟩ := Option.map_eq_some_iff.mp hIn
        exact ⟨j, (List.getElem?_eq_some_iff.mp hOther).1, hKept parent j hGet⟩
      · rw [List.getElem?_eq_none (by simp; omega)] at hRow
        cases hRow
  unfold SessionFile.pushIndex SessionFile.pushIndexInner
  refine hFolded _ ?_ ?_
  · split
    next =>
      unfold SessionFile.foldLiveAttribution
      split
      next => exact written_modify hWritten _ _
      next => exact hWritten
    next => exact hWritten
  · split
    next =>
      unfold SessionFile.foldLiveAttribution
      split
      next => rfl
      next => rfl
    next => rfl

theorem fileEntries_eq :
    file.fileEntries = .header file.header :: file.entries.map (·.row) := by
  unfold SessionFile.fileEntries
  rw [← List.filterMap_eq_map]
  congr 1
  apply List.filterMap_congr
  intro entry hMem
  obtain ⟨members, -, hRow, -⟩ := written_row (hWritten.rows entry hMem)
  exact hRow

theorem fileEntries_succ (i : Nat) :
    file.fileEntries[i + 1]? = (file.entries[i]?).map (·.row) := by
  rw [fileEntries_eq hWritten, List.getElem?_cons_succ, List.getElem?_map]

theorem indexById_row {i : Nat} (hGet : file.byId.get id = some i) :
    (indexById file.fileEntries).get id = some (i + 1) := by
  have hAt : ∀ j, (file.fileEntries[j + 1]?).bind FileEntry.id = (file.entries[j]?).map (·.id) := by
    intro j
    rw [fileEntries_succ hWritten]
    cases hEntry : file.entries[j]? with
    | none => rfl
    | some entry => exact (row_ids (hWritten.rows entry (List.mem_of_getElem? hEntry))).1
  rw [indexById_eq_some_iff, hAt]
  refine ⟨(hWritten.index id i).mp hGet, fun j hLater hSame => ?_⟩
  obtain ⟨k, rfl⟩ : ∃ k, j = k + 1 := ⟨j - 1, by omega⟩
  rw [hAt] at hSame
  have hHere := (hWritten.index id k).mpr hSame
  rw [hGet] at hHere
  have := Option.some.inj hHere
  omega

theorem parentIndex_succ (i : Nat) :
    parentIndex file.fileEntries (i + 1) = (file.parentPosition i).map (· + 1) := by
  unfold parentIndex SessionFile.parentPosition
  rw [fileEntries_succ hWritten]
  cases hEntry : file.entries[i]? with
  | none => rfl
  | some entry =>
    simp only [Option.map_some, Option.bind_some]
    rw [(row_ids (hWritten.rows entry (List.mem_of_getElem? hEntry))).2]
    cases hParent : entry.parentId with
    | none => rfl
    | some parent =>
      obtain ⟨j, -, hGet⟩ := hWritten.parents i entry parent hEntry hParent
      rw [Option.bind_some, Option.bind_some, hGet, indexById_row hWritten hGet]
      rfl

theorem parentPosition_lt (i j : Nat) (hParent : file.parentPosition i = some j) : j < i := by
  obtain ⟨entry, hEntry, hRest⟩ := Option.bind_eq_some_iff.mp hParent
  obtain ⟨parent, hId, hGet⟩ := Option.bind_eq_some_iff.mp hRest
  obtain ⟨k, hLess, hFound⟩ := hWritten.parents i entry parent hEntry hId
  rw [hGet] at hFound
  rw [Option.some.inj hFound]
  exact hLess

theorem threaded_fileEntries : Threaded file.fileEntries := by
  intro i j hParent
  cases i with
  | zero =>
    rw [fileEntries_eq hWritten] at hParent
    cases hParent
  | succ i =>
    rw [parentIndex_succ hWritten] at hParent
    obtain ⟨k, hStep, rfl⟩ := Option.map_eq_some_iff.mp hParent
    have := parentPosition_lt hWritten i k hStep
    omega

theorem ascent_succ (i : Nat) :
    ascent (parentIndex file.fileEntries) (i + 1) = (ascent file.parentPosition i).map (· + 1) := by
  have hDown := parentPosition_lt hWritten
  have hCore := threaded_fileEntries hWritten
  induction i using Nat.strongRecOn with
  | ind i ih =>
    have hStep := parentIndex_succ hWritten i
    cases hNext : file.parentPosition i with
    | none =>
      rw [hNext] at hStep
      rw [ascent_of_none hDown hNext, ascent_of_none hCore hStep]
      rfl
    | some j =>
      rw [hNext] at hStep
      rw [ascent_of_some hDown hNext, ascent_of_some hCore hStep, ih j (hDown i j hNext), List.map_append]
      rfl

theorem pathRows_branch {leaf : Nat} (hLeaf : file.leafId = some id) (hGet : file.byId.get id = some leaf) :
    pathRows file.fileEntries file.leafId = file.branch.map (·.row) := by
  obtain ⟨entry, hEntry, hId⟩ := Option.map_eq_some_iff.mp ((hWritten.index id leaf).mp hGet)
  have hNamed : id ≠ "" := by
    rw [← hId]
    exact (hWritten.rows entry (List.mem_of_getElem? hEntry)).named
  have hIndex : leafIndex file.fileEntries file.leafId = some (leaf + 1) := by
    rw [hLeaf, leafIndex.eq_3 _ _ (by simpa using hNamed), indexById_row hWritten hGet]
  have hRoom : leaf < file.entries.length := (List.getElem?_eq_some_iff.mp hEntry).1
  have hBranch : file.branch = (ascent file.parentPosition leaf).filterMap (file.entries[·]?) := by
    unfold SessionFile.branch
    rw [hLeaf, Option.bind_some, hGet,
      followGuarded_eq_follow (parentPosition_lt hWritten) _ [] leaf (by simp),
      follow_eq_ascent (parentPosition_lt hWritten) leaf _ (by omega), Option.getD_some, List.reverse_reverse]
  rw [pathRows, contextPath_eq_ascent (threaded_fileEntries hWritten) hIndex, ascent_succ hWritten, hBranch, rowsAt,
    List.filterMap_map, List.map_filterMap]
  apply List.filterMap_congr
  intro i _
  exact fileEntries_succ hWritten i

end

theorem mem_branch (hMem : entry ∈ file.branch) : entry ∈ file.entries := by
  obtain ⟨i, -, hAt⟩ := List.mem_filterMap.mp hMem
  exact List.mem_of_getElem? hAt

/-! ## The compaction row -/

theorem row_decoded {entry : SessionEntry} (hWritten : entry.Written) {kind : String}
    (hKind : kindOf entry.row = some kind) : entry.type = kind ∧ ∃ members, entry.fields = .object members ∧
      KnownFileEntry.ofMembers (entry.members members) = some entry.row := by
  obtain ⟨members, hFields, -, hRow⟩ := written_row hWritten
  cases hKnown : KnownFileEntry.ofMembers (entry.members members) with
  | none =>
    rw [hRow, hKnown] at hKind
    cases hKind
  | some known =>
    rw [hKnown, Option.getD_some] at hRow
    obtain ⟨-, -, -, hSame⟩ := @known_base (entry.members members) entry.type rfl hWritten.known known hKnown
    rw [hRow, hSame] at hKind
    exact ⟨Option.some.inj hKind, members, hFields, by rw [hRow, hKnown]⟩

theorem row_not_compaction (hWritten : entry.Written) (hType : entry.type ≠ "compaction") :
    entry.row.isCompaction = false := by
  rw [Bool.eq_false_iff]
  intro hCompaction
  obtain ⟨payload, base, hRow⟩ := exists_compaction hCompaction
  exact hType (row_decoded hWritten (by rw [hRow]; rfl)).1

theorem row_firstKept (hWritten : entry.Written) {payload : CompactionEntry} {base : EntryBase}
    (hRow : entry.row = .compaction payload base) : payload.firstKeptEntryId = entry.firstKeptEntryId := by
  obtain ⟨hType, members, hFields, hDecoded⟩ := @row_decoded entry hWritten "compaction" (by rw [hRow]; rfl)
  unfold KnownFileEntry.ofMembers at hDecoded
  have hKind : ((entry.members members).lookup "type").bind Json.asStr = some "compaction" := by
    rw [← hType]
    rfl
  rw [hKind, hRow] at hDecoded
  have hPayload : payloadEntry CompactionEntry.ofFields .compaction ⟨((entry.members members).lookup ·), true⟩ =
      some (.compaction payload base) := hDecoded
  simp only [payloadEntry, Option.bind_eq_bind, Option.bind_eq_some_iff, Option.some.injEq,
    FileEntry.compaction.injEq] at hPayload
  obtain ⟨found, hFound, -, -, rfl, -⟩ := hPayload
  simp only [CompactionEntry.ofFields, Option.bind_eq_bind, Option.bind_eq_some_iff, Option.some.injEq] at hFound
  obtain ⟨-, -, firstKept, hFirst, -, -, -, -, -, -, -, -, -, -, -, -, -, -, rfl⟩ := hFound
  have hMember : (members.lookup "firstKeptEntryId").bind Json.asStr = some firstKept := hFirst
  unfold SessionEntry.firstKeptEntryId
  rw [hFields]
  simp only [Json.get, hMember, Option.getD_some]

end PrimeAgent.SessionStore
