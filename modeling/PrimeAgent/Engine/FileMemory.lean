import PrimeAgent.Engine.FileOps

/-! # What compactions remember of files

A compaction records the files of its messages and those of the compaction row in front of its cut. Tool results are
no messages to it, and the row may stand behind the cut.
-/
namespace PrimeAgent

/-- `prev_compaction_index`. -/
def prevCompactionIndex (entries : List FileEntry) (cut : CutPointResult) : Option Nat :=
  (previousCompaction (entries.take cut.firstKeptEntryIndex)).map (·.2)

def carriedOperations (entries : List FileEntry) (prevCompactionIndex : Option Nat) : FileOperations :=
  match prevCompactionIndex.bind (entries[·]?) with
  | some (.compaction payload _) => FileOperations.default.carry payload.details payload.fromHook
  | _ => FileOperations.default

def extractFileOperations (messages : List AgentMessage) (entries : List FileEntry) (prevCompactionIndex : Option Nat) :
    FileOperations :=
  messages.foldl (fun ops message => extractFileOpsFromMessage message ops)
    (carriedOperations entries prevCompactionIndex)

def detailsFor (messages : List AgentMessage) (entries : List FileEntry) (prevCompactionIndex : Option Nat) :
    CompactionDetails :=
  let (readFiles, modifiedFiles) := computeFileLists (extractFileOperations messages entries prevCompactionIndex)
  ⟨readFiles, modifiedFiles⟩

namespace CompactionPreparation

/-- The operations `execute_compaction` computes its lists from. -/
def operations (entries : List FileEntry) (preparation : CompactionPreparation) : FileOperations :=
  extractFileOperations (preparation.history entries ++ preparation.turnPrefixMessages entries) entries
    (prevCompactionIndex entries preparation.cut)

def details (entries : List FileEntry) (preparation : CompactionPreparation) : CompactionDetails :=
  detailsFor (preparation.history entries ++ preparation.turnPrefixMessages entries) entries
    (prevCompactionIndex entries preparation.cut)

/-- `compaction_entry_for`: the row over the summary and the other fields of `written`. -/
def compactionEntryFor (entries : List FileEntry) (preparation : CompactionPreparation) (written : CompactionEntry) :
    CompactionEntry :=
  { written with
    firstKeptEntryId := ((entries[preparation.cut.firstKeptEntryIndex]?).bind (·.id)).getD ""
    details := some (preparation.details entries).toValue
    fromHook := some false }

end CompactionPreparation

/-! ### A session and its compactions -/

inductive SessionStep where
  | append (entry : FileEntry)
  | compact (keepRecentTokens : UInt64) (written : CompactionEntry) (base : EntryBase)

def SessionStep.apply (serde : Serde) (entries : List FileEntry) : SessionStep → List FileEntry
  | .append entry => entries ++ [entry]
  | .compact keepRecentTokens written base =>
    match prepareCompaction serde entries keepRecentTokens.toNat with
    | .ok preparation => entries ++ [.compaction (preparation.compactionEntryFor entries written) base]
    | .error _ => entries

/-- Every compaction of a run has a property, of the rows before it, its preparation and the row it writes. -/
def EveryCompaction (serde : Serde) (P : List FileEntry → CompactionPreparation → CompactionEntry → Prop) :
    List FileEntry → List SessionStep → Prop
  | _, [] => True
  | entries, .append entry :: steps => EveryCompaction serde P (entries ++ [entry]) steps
  | entries, .compact keepRecentTokens written base :: steps =>
    (∀ preparation, prepareCompaction serde entries keepRecentTokens.toNat = .ok preparation →
      P entries preparation (preparation.compactionEntryFor entries written)) ∧
    EveryCompaction serde P (SessionStep.apply serde entries (.compact keepRecentTokens written base)) steps

def previousBuiltIn (entries : List FileEntry) : Option CompactionEntry :=
  entries.reverse.findSome? fun
    | .compaction payload _ => if payload.fromHook = some true then none else some payload
    | _ => none

/-- The files a row edits, by an edit call or by the diffs of an `ipython` result. -/
def rowEdits : FileEntry → List String
  | .message message _ => editedPaths message
  | _ => []

def rowCalls : FileEntry → List String
  | .message (.assistant message) _ => editedPaths (.assistant message)
  | _ => []

def rowDiffs : FileEntry → List String
  | .message (.toolResult result) _ => diffPaths result
  | _ => []

/-- The files that a compaction has to record: those of the built-in compaction before it, and those edited in the rows
it summarizes. -/
def DueFile (entries : List FileEntry) (preparation : CompactionPreparation) (path : String) : Prop :=
  (∃ payload, previousBuiltIn entries = some payload ∧ path ∈ recordedPaths payload.details) ∨
    path ∈ (preparation.droppedRows entries).flatMap rowEdits

def CappedFile (entries : List FileEntry) (preparation : CompactionPreparation) (path : String) : Prop :=
  (preparation.operations entries).Knows path ∧ (preparation.operations entries).OverCaps

def Remembers (entries : List FileEntry) (preparation : CompactionPreparation) (row : CompactionEntry) : Prop :=
  ∀ path, DueFile entries preparation path → path ∈ recordedPaths row.details ∨ CappedFile entries preparation path

/-- The files a compaction can learn of: those of the newest compaction row in front of the cut, and those of the edit
calls it summarizes. -/
def InReach (entries : List FileEntry) (preparation : CompactionPreparation) (path : String) : Prop :=
  (∃ row, previousCompaction (entries.take preparation.cut.firstKeptEntryIndex) = some row ∧
    row.1.fromHook ≠ some true ∧ path ∈ recordedPaths row.1.details) ∨
  path ∈ (preparation.droppedRows entries).flatMap rowCalls

def DueInReach (entries : List FileEntry) (preparation : CompactionPreparation) (_ : CompactionEntry) : Prop :=
  (∀ payload path, previousBuiltIn entries = some payload → path ∈ recordedPaths payload.details →
    InReach entries preparation path) ∧
  ∀ path ∈ (preparation.droppedRows entries).flatMap rowDiffs, InReach entries preparation path

section One

variable {serde : Serde} {entries : List FileEntry} {preparation : CompactionPreparation} {path : String}
  {keepRecentTokens : Nat} {written : CompactionEntry}

theorem previousCompaction_at {rows : List FileEntry} {payload : CompactionEntry} {index : Nat}
    (hPrevious : previousCompaction rows = some (payload, index)) :
    ∃ base, rows[index]? = some (.compaction payload base) := by
  rw [previousCompaction] at hPrevious
  obtain ⟨⟨entry, i⟩, hMem, hRow⟩ := List.exists_of_findSome?_eq_some hPrevious
  cases entry with
  | compaction found base =>
    cases hRow
    have hAt := List.mem_zipIdx_iff_getElem?.mp (List.mem_reverse.mp hMem)
    exact ⟨base, hAt⟩
  | _ => cases hRow

theorem knows_carried : (carriedOperations entries (prevCompactionIndex entries preparation.cut)).Knows path ↔
    ∃ row, previousCompaction (entries.take preparation.cut.firstKeptEntryIndex) = some row ∧
      row.1.fromHook ≠ some true ∧ path ∈ recordedPaths row.1.details := by
  rw [prevCompactionIndex]
  cases hPrevious : previousCompaction (entries.take preparation.cut.firstKeptEntryIndex) with
  | none =>
    rw [Option.map_none, carriedOperations, Option.bind_none]
    exact iff_of_false knows_default fun ⟨row, hRow, _⟩ => nomatch hRow
  | some row =>
    obtain ⟨payload, index⟩ := row
    obtain ⟨base, hAt⟩ := previousCompaction_at hPrevious
    rw [List.getElem?_take] at hAt
    have hAt : entries[index]? = some (.compaction payload base) := by
      split at hAt
      · exact hAt
      · cases hAt
    rw [Option.map_some, carriedOperations, Option.bind_some, hAt, knows_carry, or_iff_right knows_default]
    simp

theorem rowCalls_eq (row : FileEntry) : ((messageFromEntry row).toList.flatMap editedPaths) = rowCalls row := by
  cases row with
  | message message base => cases message <;> first | rfl | exact List.append_nil _
  | customMessage payload base =>
    rw [messageFromEntry]
    split <;> rfl
  | _ => rfl

theorem messagesBetween_calls (start stop : Nat) : (messagesBetween entries start stop).flatMap editedPaths
    = ((entries.take stop).drop start).flatMap rowCalls := by
  rw [messagesBetween]
  induction (entries.take stop).drop start with
  | nil => rfl
  | cons row rows ih =>
    rw [List.flatMap_cons, ← ih, ← rowCalls_eq]
    cases hMessage : messageFromEntry row with
    | none => rw [List.filterMap_cons_none hMessage]; rfl
    | some message => rw [List.filterMap_cons_some hMessage, List.flatMap_cons, Option.toList_some, List.flatMap_singleton]

theorem knows_operations (hPrepared : prepareCompaction serde entries keepRecentTokens = .ok preparation) :
    (preparation.operations entries).Knows path ↔ InReach entries preparation path := by
  obtain ⟨hBoundary, hCut⟩ := prepareCompaction_ok hPrepared
  have hOrder := findCutPoint_bounds serde entries (boundaryStart entries) entries.length keepRecentTokens
  rw [← hCut, ← hBoundary] at hOrder
  rw [CompactionPreparation.operations, extractFileOperations, knows_extractAll, knows_carried,
    CompactionPreparation.history, CompactionPreparation.turnPrefixMessages,
    messagesBetween_append entries hOrder.1 hOrder.2, messagesBetween_calls]
  rfl

theorem recordedPaths_row :
    recordedPaths (preparation.compactionEntryFor entries written).details
      = (preparation.details entries).readFiles ++ (preparation.details entries).modifiedFiles := by
  rw [recordedPaths, CompactionPreparation.compactionEntryFor, Option.bind_some, ofValue_toValue]

theorem mem_rowEdits (row : FileEntry) : path ∈ rowEdits row ↔ path ∈ rowCalls row ∨ path ∈ rowDiffs row := by
  cases row with
  | message message base => cases message <;> simp [rowEdits, rowCalls, rowDiffs, editedPaths]
  | _ => simp [rowEdits, rowCalls, rowDiffs]

theorem remembers_iff (hPrepared : prepareCompaction serde entries keepRecentTokens = .ok preparation) :
    Remembers entries preparation (preparation.compactionEntryFor entries written) ↔
      DueInReach entries preparation (preparation.compactionEntryFor entries written) := by
  have hKnown (path : String) : (path ∈ recordedPaths (preparation.compactionEntryFor entries written).details ∨
      CappedFile entries preparation path) ↔ InReach entries preparation path := by
    rw [recordedPaths_row, List.mem_append, ← knows_operations hPrepared, knows_iff_listed]
    rfl
  simp only [Remembers, hKnown, DueFile, DueInReach, List.mem_flatMap, mem_rowEdits]
  constructor
  · intro hDue
    refine ⟨fun payload path hPrevious hPath => hDue path (.inl ⟨payload, hPrevious, hPath⟩), ?_⟩
    rintro path ⟨row, hRow, hPath⟩
    exact hDue path (.inr ⟨row, hRow, .inr hPath⟩)
  · rintro ⟨hPrevious, hDiffs⟩ path (⟨payload, hPayload, hPath⟩ | ⟨row, hRow, hCall | hDiff⟩)
    · exact hPrevious payload path hPayload hPath
    · exact .inr (List.mem_flatMap.mpr ⟨row, hRow, hCall⟩)
    · exact hDiffs path ⟨row, hRow, hDiff⟩

end One

theorem compactions_remember_iff (serde : Serde) (entries : List FileEntry) (steps : List SessionStep) :
    EveryCompaction serde Remembers entries steps ↔ EveryCompaction serde DueInReach entries steps := by
  induction steps generalizing entries with
  | nil => exact Iff.rfl
  | cons step steps ih =>
    cases step with
    | append entry => exact ih _
    | compact keepRecentTokens written base =>
      exact and_congr (forall₂_congr fun preparation hPrepared => remembers_iff hPrepared) (ih _)

def editingSession : List FileEntry :=
  [.header ⟨some 3, "s", "", "/w", none, none, none⟩,
    .message (.user ⟨.text "rename it", 1⟩) ⟨some "u1", none, none⟩,
    .message (.assistant { answer with content := [.toolCall ⟨"call-1", "ipython", [], none⟩] })
      ⟨some "a1", some "u1", none⟩,
    .message (.toolResult ⟨"call-1", "ipython", [.text ⟨"ok", none⟩],
      some (.object [("diffs", .array [.object [("path", .string "main.rs")]])]), false, 3⟩)
      ⟨some "t1", some "a1", none⟩,
    .message (.user ⟨.text "thanks", 4⟩) ⟨some "u2", some "t1", none⟩]

def editingPreparation : CompactionPreparation where
  cut := ⟨4, none, false⟩
  boundaryStart := 1
  previousSummary := none
  recentStateAnchor := none

def writtenRow : CompactionEntry :=
  ⟨"", "", 0, none, none, none, none, none, none⟩

theorem editingSession_forgets :
    ¬ EveryCompaction emptyMapSerde Remembers editingSession [.compact 1 writtenRow ⟨none, none, none⟩] := by
  intro hEvery
  have hPrepared : prepareCompaction emptyMapSerde editingSession 1 = .ok editingPreparation := rfl
  have hDue : DueFile editingSession editingPreparation "main.rs" := .inr (by decide)
  obtain hRecorded | ⟨hKnows, -⟩ := hEvery.1 editingPreparation hPrepared "main.rs" hDue
  · rw [recordedPaths_row] at hRecorded
    revert hRecorded
    decide +kernel
  · rw [knows_iff] at hKnows
    revert hKnows
    decide +kernel

end PrimeAgent
