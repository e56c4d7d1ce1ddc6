import PrimeAgent.Engine.CutPoint
import PrimeAgent.Engine.FileMemory

/-! # The messages of a branch summary

The rows of a branch are read newest first until their messages fill the budget. A budget of zero is none.
-/
namespace PrimeAgent

/-- `get_message_from_entry`: a compaction row is its summary message. -/
def getMessageFromEntry (entry : FileEntry) : Option AgentMessage :=
  match entry with
  | .compaction payload _ => some (.compactionSummary
      { summary := payload.summary
        tokensBefore := payload.tokensBefore
        retainedMessageCount := none
        customInstructions := payload.customInstructions
        harnessDigest := payload.harnessDigest
        harnessStateFingerprint := payload.harnessStateFingerprint
        timestamp := timestampToMillis entry.timestamp })
  | _ => messageFromEntry entry

structure BranchPreparation where
  messages : List AgentMessage
  fileOps : FileOperations
  totalTokens : Nat

def priorOperations (entries : List FileEntry) : FileOperations :=
  entries.foldl (fun ops entry => match entry with
    | .branchSummary payload _ => ops.carry payload.details payload.fromHook
    | _ => ops) FileOperations.default

def isBoundary : FileEntry → Bool
  | .compaction _ _ => true
  | .branchSummary _ _ => true
  | _ => false

def BranchPreparation.push (message : AgentMessage) (tokens : Nat) (preparation : BranchPreparation) :
    BranchPreparation :=
  { preparation with
    messages := message :: preparation.messages
    totalTokens := preparation.totalTokens + tokens }

def BranchPreparation.extract (message : AgentMessage) (preparation : BranchPreparation) : BranchPreparation :=
  { preparation with fileOps := extractFileOpsFromMessage message preparation.fileOps }

def collectBranch (serde : Serde) (tokenBudget : Nat) : List FileEntry → BranchPreparation → BranchPreparation
  | [], preparation => preparation
  | entry :: older, preparation =>
    match getMessageFromEntry entry with
    | none => collectBranch serde tokenBudget older preparation
    | some message =>
      let preparation := preparation.extract message
      let tokens := estimateTokens serde message
      if 0 < tokenBudget ∧ tokenBudget < preparation.totalTokens + tokens then
        if isBoundary entry ∧ preparation.totalTokens < tokenBudget * 9 / 10 then preparation.push message tokens
        else preparation
      else collectBranch serde tokenBudget older (preparation.push message tokens)

def prepareBranchEntries (serde : Serde) (entries : List FileEntry) (tokenBudget : Nat) : BranchPreparation :=
  collectBranch serde tokenBudget entries.reverse ⟨[], priorOperations entries, 0⟩

def messageTokens (serde : Serde) (messages : List AgentMessage) : Nat :=
  (messages.map (estimateTokens serde)).sum

def priorPaths : FileEntry → List String
  | .branchSummary payload _ => if payload.fromHook = some true then [] else recordedPaths payload.details
  | _ => []

/-- The rows `newer` of a branch were collected: their messages with their weight, their files, and files of no rows
but those of the branch. -/
structure CollectedRows (serde : Serde) (entries newer : List FileEntry) (preparation : BranchPreparation) : Prop where
  messages : preparation.messages = newer.filterMap getMessageFromEntry
  tokens : preparation.totalTokens = messageTokens serde preparation.messages
  keeps : ∀ path, path ∈ entries.flatMap priorPaths ∨ path ∈ newer.flatMap rowCalls → preparation.fileOps.Knows path
  only : ∀ path, preparation.fileOps.Knows path →
    path ∈ entries.flatMap priorPaths ∨ path ∈ entries.flatMap rowEdits

/-- The messages fit the budget, or the oldest is that of a boundary row let in while 90% of it were not used up. -/
def FitsBudget (serde : Serde) (tokenBudget : Nat) (newer : List FileEntry) (preparation : BranchPreparation) : Prop :=
  preparation.totalTokens ≤ tokenBudget ∨ ∃ oldest rest, newer = oldest :: rest ∧ isBoundary oldest ∧
    messageTokens serde (rest.filterMap getMessageFromEntry) < tokenBudget * 9 / 10

section Branch

variable {serde : Serde} {entries newer older : List FileEntry} {entry : FileEntry} {message : AgentMessage}
  {preparation : BranchPreparation} {tokenBudget : Nat} {path : String}

theorem knows_prior : (priorOperations entries).Knows path ↔ path ∈ entries.flatMap priorPaths := by
  have hFold (ops : FileOperations) (rows : List FileEntry) : (rows.foldl (fun ops entry => match entry with
      | .branchSummary payload _ => ops.carry payload.details payload.fromHook
      | _ => ops) ops).Knows path ↔ ops.Knows path ∨ path ∈ rows.flatMap priorPaths := by
    induction rows generalizing ops with
    | nil => simp
    | cons row rows ih =>
      rw [List.foldl_cons, ih, List.flatMap_cons, List.mem_append, ← or_assoc]
      refine or_congr_left ?_
      cases row with
      | branchSummary payload base =>
        rw [knows_carry, priorPaths]
        refine or_congr_right ?_
        split <;> simp_all
      | _ => exact (or_iff_left List.not_mem_nil).symm
  rw [priorOperations, hFold, or_iff_right knows_default]

theorem getMessageFromEntry_eq (hOther : entry.isCompaction = false) :
    getMessageFromEntry entry = messageFromEntry entry := by
  cases entry <;> first | rfl | cases hOther

theorem getMessage_calls_eq :
    (getMessageFromEntry entry).toList.flatMap editedPaths = rowCalls entry := by
  cases hOther : entry.isCompaction with
  | true => cases entry <;> first | rfl | cases hOther
  | false => rw [getMessageFromEntry_eq hOther, rowCalls_eq]

theorem getMessage_calls (hMessage : getMessageFromEntry entry = some message) : editedPaths message = rowCalls entry := by
  rw [← getMessage_calls_eq, hMessage, Option.toList_some, List.flatMap_singleton]

theorem getMessage_none (hNone : getMessageFromEntry entry = none) : rowCalls entry = [] := by
  rw [← getMessage_calls_eq, hNone]
  rfl

section

variable (hCollected : CollectedRows serde entries newer preparation)

include hCollected

theorem collected_skip (hNone : getMessageFromEntry entry = none) :
    CollectedRows serde entries (entry :: newer) preparation where
  messages := by rw [List.filterMap_cons_none hNone, hCollected.messages]
  tokens := hCollected.tokens
  keeps := by
    rw [List.flatMap_cons, getMessage_none hNone, List.nil_append]
    exact hCollected.keeps
  only := hCollected.only

theorem collected_extract (hMessage : getMessageFromEntry entry = some message) (hMem : entry ∈ entries) :
    CollectedRows serde entries newer (preparation.extract message) where
  messages := hCollected.messages
  tokens := hCollected.tokens
  keeps := fun path hKept => knows_extract.mpr (.inl (hCollected.keeps path hKept))
  only := by
    intro path hKnows
    obtain hKnows | hEdited := knows_extract.mp hKnows
    · exact hCollected.only path hKnows
    · rw [getMessage_calls hMessage] at hEdited
      exact .inr (List.mem_flatMap.mpr ⟨entry, hMem, (mem_rowEdits entry).mpr (.inl hEdited)⟩)

theorem collected_push (hMessage : getMessageFromEntry entry = some message) (hMem : entry ∈ entries) :
    CollectedRows serde entries (entry :: newer) ((preparation.extract message).push message (estimateTokens serde message)) where
  messages := by
    rw [List.filterMap_cons_some hMessage, ← hCollected.messages]
    rfl
  tokens := by
    have hTokens := hCollected.tokens
    simp only [BranchPreparation.push, BranchPreparation.extract, messageTokens, List.map_cons, List.sum_cons] at hTokens ⊢
    omega
  keeps := by
    intro path hKept
    refine knows_extract.mpr ?_
    rw [List.flatMap_cons, List.mem_append, ← getMessage_calls hMessage] at hKept
    obtain hPrior | hEdited | hNewer := hKept
    · exact .inl (hCollected.keeps path (.inl hPrior))
    · exact .inr hEdited
    · exact .inl (hCollected.keeps path (.inr hNewer))
  only := (collected_extract hCollected hMessage hMem).only

end

theorem collectBranch_spec (rows : List FileEntry) : ∀ newer preparation, entries = rows.reverse ++ newer →
    CollectedRows serde entries newer preparation → (0 < tokenBudget → preparation.totalTokens ≤ tokenBudget) →
    ∃ older newer, entries = older ++ newer ∧
      CollectedRows serde entries newer (collectBranch serde tokenBudget rows preparation) ∧
      (tokenBudget = 0 → older = []) ∧
      (0 < tokenBudget → FitsBudget serde tokenBudget newer (collectBranch serde tokenBudget rows preparation)) := by
  induction rows with
  | nil =>
    intro newer preparation hEntries hCollected hFits
    exact ⟨[], newer, hEntries, hCollected, fun _ => rfl, fun hBudget => .inl (hFits hBudget)⟩
  | cons entry older ih =>
    intro newer preparation hEntries hCollected hFits
    rw [List.reverse_cons, List.append_assoc, List.singleton_append] at hEntries
    have hMem : entry ∈ entries := by
      rw [hEntries]
      exact List.mem_append_right _ List.mem_cons_self
    rw [collectBranch]
    cases hMessage : getMessageFromEntry entry with
    | none => exact ih (entry :: newer) preparation hEntries (collected_skip hCollected hMessage) hFits
    | some message =>
      have hExtracted := collected_extract hCollected hMessage hMem
      have hPushed := collected_push hCollected hMessage hMem
      dsimp only
      split
      · rename_i hOver
        split
        · rename_i hBoundary
          refine ⟨older.reverse, entry :: newer, hEntries, hPushed, fun hZero => by omega, fun _ => .inr ?_⟩
          refine ⟨entry, newer, rfl, hBoundary.1, ?_⟩
          rw [← hExtracted.messages, ← hExtracted.tokens]
          exact hBoundary.2
        · refine ⟨older.reverse ++ [entry], newer, by rw [hEntries, List.append_assoc, List.singleton_append],
            hExtracted, fun hZero => by omega, fun hBudget => .inl (hFits hBudget)⟩
      · rename_i hUnder
        refine ih (entry :: newer) _ hEntries hPushed fun hBudget => ?_
        simp only [BranchPreparation.push]
        omega

/-- The messages of the newest rows, within the budget where there is one, and the files of all branch summaries and
of the edit calls among them. -/
theorem branch_entries_fit (serde : Serde) (entries : List FileEntry) (tokenBudget : UInt64) :
    ∃ older newer, entries = older ++ newer ∧
      CollectedRows serde entries newer (prepareBranchEntries serde entries tokenBudget.toNat) ∧
      (tokenBudget.toNat = 0 → older = []) ∧
      (0 < tokenBudget.toNat →
        FitsBudget serde tokenBudget.toNat newer (prepareBranchEntries serde entries tokenBudget.toNat)) := by
  refine collectBranch_spec entries.reverse [] _ (by rw [List.reverse_reverse, List.append_nil]) ?_
    fun _ => Nat.zero_le _
  refine ⟨rfl, rfl, fun path hKept => ?_, fun path hKnows => .inl (knows_prior.mp hKnows)⟩
  exact knows_prior.mpr (hKept.resolve_right List.not_mem_nil)

def editedBranch : List FileEntry :=
  [.message (.assistant { answer with content := [.toolCall ⟨"call-1", "edit", [("path", .string "main.rs")], none⟩] })
      ⟨some "a1", none, none⟩,
    .message (.user ⟨.text "thanks", 4⟩) ⟨some "u2", some "a1", none⟩]

theorem editedBranch_overruns : (prepareBranchEntries emptyMapSerde editedBranch 0).totalTokens = 4 ∧
    (∀ oldest rest, editedBranch = oldest :: rest → ¬ isBoundary oldest) ∧
    "main.rs" ∈ editedBranch.flatMap rowEdits ∧
    ¬ (prepareBranchEntries emptyMapSerde editedBranch 1).fileOps.Knows "main.rs" := by
  refine ⟨by decide, ?_, by decide, ?_⟩
  · rintro oldest rest hRows
    cases hRows
    exact Bool.false_ne_true
  · rw [knows_iff]
    decide

end Branch

end PrimeAgent
