import Mathlib.Data.String.Basic
import PrimeAgent.Engine.Coverage
import PrimeAgent.Lib.OrderedSet

/-! # File operations

What the messages of a conversation did to files, and the lists of it that are kept.
-/
namespace PrimeAgent

abbrev PathSet := OrderedSet String

structure FileOperations where
  read : PathSet
  written : PathSet
  edited : PathSet

def FileOperations.default : FileOperations :=
  ⟨.empty, .empty, .empty⟩

/-- `FILE_LIST_MAX_ENTRIES`. -/
def fileListMaxEntries : Nat :=
  200

/-- `FILE_LIST_MAX_COMBINED_CHARS`. -/
def fileListMaxCombinedChars : Nat :=
  6000

def fileListChars (readFiles modifiedFiles : List String) : Nat :=
  ((readFiles ++ modifiedFiles).map fun file => chars file + 1).sum

def diffPath (diff : Json) : Option String :=
  ((diff.get "path").bind Json.asStr).filter (· ≠ "")

/-- The paths of the diffs an `ipython` result carries. -/
def diffPaths (result : ToolResultMessage) : List String :=
  if result.toolName = "ipython" then
    match result.details.bind (·.get "diffs") with
    | some (.array diffs) => diffs.filterMap diffPath
    | _ => []
  else []

def editCallPath : AssistantContentBlock → Option String
  | .toolCall call => ((call.arguments.lookup "path").bind Json.asStr).filter fun _ => call.name = "edit"
  | _ => none

/-- The paths `extract_file_ops_from_message` adds. -/
def editedPaths : AgentMessage → List String
  | .toolResult result => diffPaths result
  | .assistant message => message.content.filterMap editCallPath
  | _ => []

def extractFileOpsFromMessage (message : AgentMessage) (ops : FileOperations) : FileOperations :=
  { ops with edited := ops.edited.extend (editedPaths message) }

/-- `while !list.is_empty() && too_long { list.pop() }`, on the list from its end. -/
def popWhile (tooLong : List String → Bool) : List String → List String
  | [] => []
  | last :: before =>
    if tooLong (last :: before).reverse then popWhile tooLong before else (last :: before).reverse

def FileOperations.modified (ops : FileOperations) : PathSet :=
  ops.edited.extend ops.written.toList

def FileOperations.readOnly (ops : FileOperations) : List String :=
  ops.read.toList.filter fun path => !ops.modified.toList.contains path

def computeFileLists (ops : FileOperations) : List String × List String :=
  let readFiles := ops.readOnly.take fileListMaxEntries
  let modifiedFiles := ops.modified.toList.take fileListMaxEntries
  let readFiles := popWhile (fun read => fileListMaxCombinedChars < fileListChars read modifiedFiles) readFiles.reverse
  let modifiedFiles := popWhile (fun modified =>
    readFiles.isEmpty && fileListMaxCombinedChars < fileListChars readFiles modified) modifiedFiles.reverse
  (readFiles, modifiedFiles)

/-- What a compaction row and a branch summary row record; the two structs of the source are the same. -/
structure CompactionDetails where
  readFiles : List String
  modifiedFiles : List String
deriving DecidableEq

def CompactionDetails.ofValue (v : Json) : Option CompactionDetails := do
  let f ← Decode.fieldsOf ["readFiles", "modifiedFiles"] v
  some ⟨← f.required "readFiles" (Decode.list Decode.string), ← f.required "modifiedFiles" (Decode.list Decode.string)⟩

def CompactionDetails.toValue (details : CompactionDetails) : Json :=
  .object [("readFiles", .array (details.readFiles.map .string)),
    ("modifiedFiles", .array (details.modifiedFiles.map .string))]

def FileOperations.extendDetails (ops : FileOperations) (details : CompactionDetails) : FileOperations :=
  { ops with read := ops.read.extend details.readFiles, edited := ops.edited.extend details.modifiedFiles }

def FileOperations.carry (ops : FileOperations) (details : Option Json) (fromHook : Option Bool) : FileOperations :=
  if fromHook ≠ some true then
    match details.bind CompactionDetails.ofValue with
    | some details => ops.extendDetails details
    | none => ops
  else ops

section Caps

variable {ops : FileOperations} {path : String}

theorem popWhile_sublist (tooLong : List String → Bool) (l : List String) : (popWhile tooLong l).Sublist l.reverse := by
  induction l with
  | nil => exact List.Sublist.refl _
  | cons last before ih =>
    rw [popWhile]
    split
    · rw [List.reverse_cons]
      exact ih.trans (List.sublist_append_left _ _)
    · exact List.Sublist.refl _

theorem popWhile_eq {tooLong : List String → Bool} {l : List String} (hUnder : tooLong l.reverse = false) :
    popWhile tooLong l = l.reverse := by
  cases l with
  | nil => rfl
  | cons last before => rw [popWhile, if_neg (by rw [hUnder]; exact Bool.false_ne_true)]

def FileOperations.Knows (ops : FileOperations) (path : String) : Prop :=
  path ∈ ops.read.toList ∨ path ∈ ops.written.toList ∨ path ∈ ops.edited.toList

def FileOperations.OverCaps (ops : FileOperations) : Prop :=
  fileListMaxEntries < ops.readOnly.length ∨ fileListMaxEntries < ops.modified.toList.length ∨
    fileListMaxCombinedChars < fileListChars ops.readOnly ops.modified.toList

theorem mem_modified : path ∈ ops.modified.toList ↔ path ∈ ops.edited.toList ∨ path ∈ ops.written.toList :=
  OrderedSet.mem_extend

theorem mem_readOnly : path ∈ ops.readOnly ↔ path ∈ ops.read.toList ∧ path ∉ ops.modified.toList := by
  rw [FileOperations.readOnly, List.mem_filter, Bool.not_eq_true', List.contains_eq_mem, decide_eq_false_iff_not]

theorem knows_iff : ops.Knows path ↔ path ∈ ops.readOnly ∨ path ∈ ops.modified.toList := by
  rw [FileOperations.Knows, mem_readOnly, mem_modified]
  tauto

theorem computeFileLists_eq (hCaps : ¬ ops.OverCaps) : computeFileLists ops = (ops.readOnly, ops.modified.toList) := by
  simp only [FileOperations.OverCaps, not_or, Nat.not_lt] at hCaps
  obtain ⟨hRead, hModified, hChars⟩ := hCaps
  have hUnder : decide (fileListMaxCombinedChars < fileListChars ops.readOnly ops.modified.toList) = false :=
    decide_eq_false (Nat.not_lt.mpr hChars)
  rw [computeFileLists, List.take_of_length_le hRead, List.take_of_length_le hModified]
  rw [popWhile_eq (by rwa [List.reverse_reverse]), popWhile_eq, List.reverse_reverse, List.reverse_reverse]
  rw [List.reverse_reverse, List.reverse_reverse, hUnder, Bool.and_false]

theorem knows_of_listed (hListed : path ∈ (computeFileLists ops).1 ∨ path ∈ (computeFileLists ops).2) :
    ops.Knows path := by
  rw [knows_iff]
  refine hListed.imp (fun hRead => ?_) fun hModified => ?_
  · have hMem := (popWhile_sublist _ _).subset hRead
    rw [List.reverse_reverse] at hMem
    exact List.mem_of_mem_take hMem
  · have hMem := (popWhile_sublist _ _).subset hModified
    rw [List.reverse_reverse] at hMem
    exact List.mem_of_mem_take hMem

theorem knows_iff_listed : ops.Knows path ↔ (path ∈ (computeFileLists ops).1 ∨ path ∈ (computeFileLists ops).2) ∨
    (ops.Knows path ∧ ops.OverCaps) := by
  constructor
  · intro hKnows
    by_cases hCaps : ops.OverCaps
    · exact .inr ⟨hKnows, hCaps⟩
    · rw [computeFileLists_eq hCaps]
      exact .inl (knows_iff.mp hKnows)
  · rintro (hListed | ⟨hKnows, -⟩)
    · exact knows_of_listed hListed
    · exact hKnows

end Caps

section Details

theorem mapM_string (paths : List String) : (paths.map Json.string).mapM Decode.string = some paths := by
  induction paths with
  | nil => rfl
  | cons path paths ih => rw [List.map_cons, List.mapM_cons, ih]; rfl

theorem ofValue_toValue (details : CompactionDetails) : CompactionDetails.ofValue details.toValue = some details := by
  have hRead := mapM_string details.readFiles
  have hModified := mapM_string details.modifiedFiles
  simp [CompactionDetails.ofValue, CompactionDetails.toValue, Decode.fieldsOf, Decode.Fields.required, Decode.list,
    List.lookup_cons, hRead, hModified]

end Details

section Knows

variable {ops : FileOperations} {path : String}

theorem knows_default : ¬ FileOperations.default.Knows path := by
  rintro (h | h | h) <;> exact absurd h List.not_mem_nil

theorem knows_extract {message : AgentMessage} :
    (extractFileOpsFromMessage message ops).Knows path ↔ ops.Knows path ∨ path ∈ editedPaths message := by
  rw [FileOperations.Knows, extractFileOpsFromMessage, OrderedSet.mem_extend, FileOperations.Knows]
  tauto

theorem knows_extractAll (messages : List AgentMessage) :
    (messages.foldl (fun ops message => extractFileOpsFromMessage message ops) ops).Knows path ↔
      ops.Knows path ∨ path ∈ messages.flatMap editedPaths := by
  induction messages generalizing ops with
  | nil => rw [List.foldl_nil, List.flatMap_nil, or_iff_left List.not_mem_nil]
  | cons message messages ih =>
    rw [List.foldl_cons, ih, knows_extract, List.flatMap_cons, List.mem_append, or_assoc]

theorem knows_extendDetails {details : CompactionDetails} : (ops.extendDetails details).Knows path ↔
    ops.Knows path ∨ path ∈ details.readFiles ++ details.modifiedFiles := by
  rw [FileOperations.Knows, FileOperations.extendDetails, OrderedSet.mem_extend, OrderedSet.mem_extend,
    FileOperations.Knows, List.mem_append]
  tauto

def recordedPaths (details : Option Json) : List String :=
  match details.bind CompactionDetails.ofValue with
  | some details => details.readFiles ++ details.modifiedFiles
  | none => []

theorem knows_carry {details : Option Json} {fromHook : Option Bool} : (ops.carry details fromHook).Knows path ↔
    ops.Knows path ∨ (fromHook ≠ some true ∧ path ∈ recordedPaths details) := by
  rw [FileOperations.carry]
  split
  · rename_i hBuiltIn
    rw [recordedPaths]
    split
    · rename_i hDetails
      rw [knows_extendDetails]
      tauto
    · simp
  · rename_i hHook
    rw [or_iff_left fun hBuiltIn => hHook hBuiltIn.1]

end Knows

end PrimeAgent
