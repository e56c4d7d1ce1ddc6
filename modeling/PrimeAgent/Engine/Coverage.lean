import PrimeAgent.Engine.Compaction

/-! # What a compaction hands to the summarizer

The rows between the boundary and the cut leave the model's context. Every one of their messages
reaches the summarizer exactly when none of them is a tool result.
-/
namespace PrimeAgent

def conversationMessage (entry : FileEntry) : Option AgentMessage :=
  match entry with
  | .message message _ => some message
  | .customMessage payload _ =>
    if payload.customType == harnessDigestCustomType then none
    else some (.custom (createCustomMessage payload entry))
  | .branchSummary payload _ =>
    some (.branchSummary ⟨payload.summary, payload.fromId, timestampToMillis entry.timestamp⟩)
  | _ => none

def isToolResult : FileEntry → Bool
  | .message (.toolResult _) _ => true
  | _ => false

def CompactionPreparation.droppedRows (entries : List FileEntry) (preparation : CompactionPreparation) :
    List FileEntry :=
  (entries.take preparation.cut.firstKeptEntryIndex).drop preparation.boundaryStart

def CompactionPreparation.Covers (entries : List FileEntry) (preparation : CompactionPreparation) : Prop :=
  preparation.history entries ++ preparation.turnPrefixMessages entries
    = (preparation.droppedRows entries).filterMap conversationMessage

theorem messagesBetween_append (entries : List FileEntry) {a b c : Nat} (hab : a ≤ b) (hbc : b ≤ c) :
    messagesBetween entries a b ++ messagesBetween entries b c = messagesBetween entries a c := by
  rw [messagesBetween, messagesBetween, messagesBetween, ← List.filterMap_append]
  congr 1
  have hTake : entries.take b = (entries.take c).take b := by rw [List.take_take, Nat.min_eq_left hbc]
  rw [hTake, List.drop_take]
  have hSplit : (entries.take c).drop b = ((entries.take c).drop a).drop (b - a) := by
    rw [List.drop_drop, Nat.add_sub_cancel' hab]
  rw [hSplit, List.take_append_drop]

variable {entry : FileEntry} {entries : List FileEntry}

theorem messageFromEntry_of_not_toolResult (h : isToolResult entry = false) :
    messageFromEntry entry = conversationMessage entry := by
  cases entry with
  | message message base => cases message <;> first | rfl | cases h
  | _ => rfl

theorem messageFromEntry_of_toolResult (h : isToolResult entry = true) :
    messageFromEntry entry = none ∧ (conversationMessage entry).isSome := by
  cases entry with
  | message message base => cases message <;> first | exact ⟨rfl, rfl⟩ | cases h
  | _ => cases h

theorem messages_short_by_toolResults (rows : List FileEntry) :
    (rows.filterMap messageFromEntry).length + rows.countP isToolResult
      = (rows.filterMap conversationMessage).length := by
  induction rows with
  | nil => rfl
  | cons row rows ih =>
    cases hTool : isToolResult row with
    | true =>
      obtain ⟨hNone, hSome⟩ := messageFromEntry_of_toolResult hTool
      obtain ⟨message, hMessage⟩ := Option.isSome_iff_exists.mp hSome
      rw [List.filterMap_cons_none hNone, List.filterMap_cons_some hMessage,
        List.countP_cons_of_pos hTool, List.length_cons]
      omega
    | false =>
      have hSame := messageFromEntry_of_not_toolResult hTool
      rw [List.countP_cons_of_neg (by simp [hTool])]
      cases hMessage : conversationMessage row with
      | none => rw [List.filterMap_cons_none (hSame.trans hMessage), List.filterMap_cons_none hMessage, ih]
      | some message =>
        rw [List.filterMap_cons_some (hSame.trans hMessage), List.filterMap_cons_some hMessage,
          List.length_cons, List.length_cons, ← ih]
        omega

theorem filterMap_messages_eq_iff (rows : List FileEntry) :
    rows.filterMap messageFromEntry = rows.filterMap conversationMessage ↔ ∀ row ∈ rows, isToolResult row = false := by
  constructor
  · intro hEq
    have hLength := messages_short_by_toolResults rows
    rw [hEq] at hLength
    have hZero : rows.countP isToolResult = 0 := by omega
    simpa using List.countP_eq_zero.mp hZero
  · intro hNone
    exact List.filterMap_congr fun row hRow => messageFromEntry_of_not_toolResult (hNone row hRow)

theorem mem_positionsIn {start stop : Nat} {row : FileEntry × Nat} (h : row ∈ positionsIn entries start stop) :
    start ≤ row.2 ∧ row.2 < stop ∧ entries[row.2]? = some row.1 := by
  obtain ⟨k, hk⟩ := List.mem_iff_getElem?.mp h
  rw [positionsIn, List.getElem?_drop, List.getElem?_take] at hk
  split at hk
  · rename_i hLt
    rw [List.getElem?_zipIdx, Option.map_eq_some_iff] at hk
    obtain ⟨entry, hEntry, rfl⟩ := hk
    refine ⟨by simp, by simp; omega, by simpa using hEntry⟩
  · cases hk

theorem mem_findValidCutPoints {start stop i : Nat} (h : i ∈ findValidCutPoints entries start stop) :
    start ≤ i ∧ i < stop ∧ (entries[i]?).any isValidCutPoint := by
  simp only [findValidCutPoints, List.mem_map, List.mem_filter] at h
  obtain ⟨row, ⟨hRow, hValid⟩, rfl⟩ := h
  obtain ⟨hStart, hStop, hAt⟩ := mem_positionsIn hRow
  exact ⟨hStart, hStop, by simp [hAt, hValid]⟩

theorem scanBack_mem (serde : Serde) {cutPoints : List Nat} (hNonempty : cutPoints ≠ []) (keepRecentTokens : Nat)
    (rows : List (FileEntry × Nat)) : ∀ accumulated,
      scanBack serde cutPoints keepRecentTokens rows accumulated ∈ cutPoints := by
  have hFirst : cutPoints.headD 0 ∈ cutPoints := by
    cases cutPoints with
    | nil => exact absurd rfl hNonempty
    | cons c cs => exact List.mem_cons_self
  induction rows with
  | nil => exact fun _ => hFirst
  | cons row rows ih =>
    intro accumulated
    obtain ⟨entry, i⟩ := row
    cases entry with
    | message message base =>
      simp only [scanBack]
      split
      · cases hFind : cutPoints.find? (i ≤ ·) with
        | some point => exact List.mem_of_find?_eq_some hFind
        | none =>
          rw [Option.getD_none, List.getLastD_eq_getLast?, List.getLast?_eq_some_getLast hNonempty]
          exact List.getLast_mem hNonempty
      · exact ih _
    | _ => exact ih _

theorem walkBack_bounds (entries : List FileEntry) (start : Nat) : ∀ cut, start ≤ cut →
    start ≤ walkBack entries start cut ∧ walkBack entries start cut ≤ cut := by
  intro cut
  induction cut with
  | zero => exact fun h => ⟨h, Nat.le_refl 0⟩
  | succ cut ih =>
    intro hStart
    rw [walkBack]
    split
    · rename_i hBack
      have := ih (by omega)
      omega
    · omega

theorem findTurnStartIndex_bounds {entryIndex start i : Nat} (h : findTurnStartIndex entries entryIndex start = some i) :
    start ≤ i ∧ i ≤ entryIndex := by
  have hMem := List.mem_of_find?_eq_some h
  rw [List.mem_reverse, List.mem_range'_1] at hMem
  omega

theorem CutPointResult.historyEnd_bounds {cut : CutPointResult} {start : Nat} (hStart : start ≤ cut.firstKeptEntryIndex)
    (hTurn : ∀ i, cut.turnStartIndex = some i → start ≤ i ∧ i ≤ cut.firstKeptEntryIndex) :
    start ≤ cut.historyEnd ∧ cut.historyEnd ≤ cut.firstKeptEntryIndex := by
  rw [CutPointResult.historyEnd]
  split
  · cases hIndex : cut.turnStartIndex with
    | none => exact ⟨hStart, Nat.le_refl _⟩
    | some i => exact hTurn i hIndex
  · exact ⟨hStart, Nat.le_refl _⟩

theorem findCutPoint_bounds (serde : Serde) (entries : List FileEntry) (start stop keepRecentTokens : Nat) :
    let cut := findCutPoint serde entries start stop keepRecentTokens
    start ≤ cut.historyEnd ∧ cut.historyEnd ≤ cut.firstKeptEntryIndex := by
  simp only [findCutPoint]
  split
  · exact ⟨Nat.le_refl _, Nat.le_refl _⟩
  · rename_i hNonempty
    rw [List.isEmpty_iff] at hNonempty
    have hScan := mem_findValidCutPoints
      (scanBack_mem serde hNonempty keepRecentTokens (positionsIn entries start stop).reverse 0)
    refine CutPointResult.historyEnd_bounds (walkBack_bounds entries start _ hScan.1).1 ?_
    intro i hTurn
    split at hTurn
    · cases hTurn
    · exact findTurnStartIndex_bounds hTurn

theorem prepareCompaction_ok {serde : Serde} {keepRecentTokens : Nat} {preparation : CompactionPreparation}
    (h : prepareCompaction serde entries keepRecentTokens = .ok preparation) :
    preparation.boundaryStart = boundaryStart entries ∧
      preparation.cut = findCutPoint serde entries (boundaryStart entries) entries.length keepRecentTokens := by
  unfold prepareCompaction at h
  split at h
  · cases h
  · simp only at h
    split at h
    · cases h
    · obtain rfl := Except.ok.inj h
      exact ⟨rfl, rfl⟩

def toolSession : List FileEntry :=
  [.header ⟨some 3, "s", "", "/w", none, none, none⟩,
    .message (.user ⟨.text "list the files", 1⟩) ⟨some "u1", none, none⟩,
    .message (.assistant
      { content := [.toolCall ⟨"call-1", "ipython", [], none⟩]
        api := "openai-completions"
        provider := "openai"
        model := "m"
        responseModel := none
        responseId := none
        diagnostics := none
        usage := ⟨0, 0, 0, 0, 0, ⟨⟨0⟩, ⟨0⟩, ⟨0⟩, ⟨0⟩, ⟨0⟩⟩⟩
        stopReason := .toolUse
        stopReasonRaw := none
        errorMessage := none
        timestamp := 2 }) ⟨some "a1", some "u1", none⟩,
    .message (.toolResult ⟨"call-1", "ipython", [.text ⟨"a.txt", none⟩], none, false, 3⟩)
      ⟨some "t1", some "a1", none⟩,
    .message (.user ⟨.text "thanks", 4⟩) ⟨some "u2", some "t1", none⟩]

def toolPreparation : CompactionPreparation where
  cut := ⟨4, none, false⟩
  boundaryStart := 1
  previousSummary := none
  recentStateAnchor := none

def emptyMapSerde : Serde where
  value := fun _ => none
  writeEntry := fun _ => []
  writeMap := fun _ => ['{', '}']

end PrimeAgent
