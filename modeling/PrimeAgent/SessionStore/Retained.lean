import PrimeAgent.Engine.Coverage
import PrimeAgent.SessionStore.EngineRows

/-! # What a compaction retains

The engine keeps every row from the first kept entry on; the store recognizes that entry only where it bears a message.
The two agree where it does, and wherever no message is left to keep.
-/
namespace PrimeAgent.SessionStore

open LastSplit

def fromBoundary (firstKeptEntryId : String) (before : List SessionEntry) : List SessionEntry :=
  before.dropWhile (·.id != firstKeptEntryId)

def contextDigest (rows : List SessionEntry) (payload : CompactionEntry) (before : List SessionEntry) : Option String :=
  keptDigestId (rows.map (·.row)) payload before.length

def inContext (digest : Option String) (entry : SessionEntry) : Bool :=
  appendMessage digest entry.row ≠ []

def contextRetained (digest : Option String) (firstKeptEntryId : String) (before : List SessionEntry) :
    List SessionEntry :=
  (fromBoundary firstKeptEntryId before).filter (inContext digest)

theorem messagesOf_rows (digest : Option String) (entries : List SessionEntry) :
    messagesOf digest (entries.map (·.row)) =
      (entries.filter (inContext digest)).flatMap fun entry => appendMessage digest entry.row := by
  unfold messagesOf
  rw [List.flatMap_map]
  induction entries with
  | nil => rfl
  | cons entry entries ih =>
    rw [List.flatMap_cons, List.filter_cons, ih]
    by_cases hEmpty : appendMessage digest entry.row = []
    · rw [if_neg (by simp [inContext, hEmpty]), hEmpty, List.nil_append]
    · rw [if_pos (by simp [inContext, hEmpty]), List.flatMap_cons]

variable {before : List SessionEntry} {pin : String} {boundary : SessionEntry} {entry : SessionEntry}

theorem dropWhile_rows (hIds : ∀ entry ∈ before, entry.row.id = some entry.id) :
    (before.map (·.row)).dropWhile (fun row => row.id.getD "" != pin) = (fromBoundary pin before).map (·.row) := by
  unfold fromBoundary
  induction before with
  | nil => rfl
  | cons entry before ih =>
    rw [List.map_cons, List.dropWhile_cons, List.dropWhile_cons, hIds entry (List.mem_cons_self ..), Option.getD_some,
      ih fun other hMem => hIds other (List.mem_cons_of_mem _ hMem)]
    split
    next => rfl
    next => rfl

theorem filter_eq_filter_iff {α : Type} {p q : α → Bool} {l : List α} :
    l.filter p = l.filter q ↔ ∀ a ∈ l, p a = q a := by
  constructor
  · intro hSame a hMem
    have hIff : a ∈ l.filter p ↔ a ∈ l.filter q := by rw [hSame]
    simp only [List.mem_filter, hMem, true_and] at hIff
    exact Bool.eq_iff_iff.mpr hIff
  · exact List.filter_congr

theorem walkRetained_of_bears (hMem : boundary ∈ before) (hId : boundary.id = pin)
    (hBears : boundary.bearsMessage = true) (hAlone : ∀ entry ∈ before, entry.id = pin → entry = boundary) :
    walkRetained pin before = (fromBoundary pin before).filter (·.bearsMessage) := by
  unfold walkRetained fromBoundary
  induction before with
  | nil => cases hMem
  | cons entry before ih =>
    rw [List.filter_cons, List.dropWhile_cons]
    by_cases hHere : entry.id = pin
    · have hSame := hAlone entry (List.mem_cons_self ..) hHere
      subst hSame
      rw [if_pos hBears, List.dropWhile_cons, if_neg (by simp [hHere]), if_neg (by simp [hHere]), List.filter_cons,
        if_pos hBears]
    · have hRest : boundary ∈ before := by
        obtain rfl | hLater := List.mem_cons.mp hMem
        · exact absurd hId hHere
        · exact hLater
      have hNext := ih hRest fun other hOther => hAlone other (List.mem_cons_of_mem _ hOther)
      have hSkip : (entry.id != pin) = true := by simpa using hHere
      cases entry.bearsMessage with
      | true =>
        rw [if_pos rfl, List.dropWhile_cons, if_pos hSkip, if_pos hSkip]
        exact hNext
      | false =>
        rw [if_neg (by simp), if_pos hSkip]
        exact hNext

theorem walkRetained_of_silent (hSilent : ∀ entry ∈ before, entry.id = pin → entry.bearsMessage = false) :
    walkRetained pin before = [] := by
  unfold walkRetained
  rw [List.dropWhile_eq_nil_iff]
  intro entry hMem
  obtain ⟨hIn, hBears⟩ := List.mem_filter.mp hMem
  rw [bne_iff_ne]
  intro hId
  rw [hSilent entry hIn hId] at hBears
  cases hBears

/-- The row is a message of both or of neither: it decodes as a message, it is not an older harness digest, and it is
not the summary of a branch. -/
def SessionEntry.Shared (digest : Option String) (entry : SessionEntry) : Prop :=
  match entry.row with
  | .message .. => True
  | .customMessage payload _ => payload.customType = harnessDigestCustomType → some entry.id = digest
  | .branchSummary payload _ => payload.summary = ""
  | _ => entry.bearsMessage = false

theorem shared_iff (hWritten : entry.Written) (digest : Option String) :
    entry.bearsMessage = inContext digest entry ↔ entry.Shared digest := by
  unfold SessionEntry.Shared inContext
  cases hRow : entry.row with
  | message message base =>
    obtain ⟨hType, members, hFields, hDecoded⟩ := @row_decoded entry hWritten "message" (by rw [hRow]; rfl)
    have hMember : (members.lookup "message").isSome = true := by
      rw [hRow] at hDecoded
      unfold KnownFileEntry.ofMembers at hDecoded
      have hKind : ((entry.members members).lookup "type").bind Json.asStr = some "message" := by
        rw [← hType]
        rfl
      rw [hKind] at hDecoded
      have hPayload : payloadEntry (·.required "message" AgentMessage.ofValue) .message
          ⟨((entry.members members).lookup ·), true⟩ = some (.message message base) := hDecoded
      simp only [payloadEntry, Option.bind_eq_bind, Option.bind_eq_some_iff, Option.some.injEq] at hPayload
      obtain ⟨found, hFound, -⟩ := hPayload
      obtain ⟨value, hValue, -⟩ := Option.bind_eq_some_iff.mp hFound
      have hHere : members.lookup "message" = some value := hValue
      rw [hHere]
      rfl
    have hBears : entry.bearsMessage = true := by
      unfold SessionEntry.bearsMessage
      rw [hType, hFields]
      exact hMember
    simp [hBears, appendMessage]
  | customMessage payload base =>
    obtain ⟨hType, -⟩ := @row_decoded entry hWritten "custom_message" (by rw [hRow]; rfl)
    have hBears : entry.bearsMessage = true := by
      unfold SessionEntry.bearsMessage
      rw [hType]
      rfl
    have hId : (FileEntry.customMessage payload base).id = some entry.id := by
      rw [← hRow]
      exact (row_ids hWritten).1
    simp [hBears, appendMessage, hId, imp_iff_not_or]
  | branchSummary payload base =>
    obtain ⟨hType, -⟩ := @row_decoded entry hWritten "branch_summary" (by rw [hRow]; rfl)
    have hBears : entry.bearsMessage = false := by
      unfold SessionEntry.bearsMessage
      rw [hType]
      rfl
    simp [hBears, appendMessage]
  | _ => simp [appendMessage]

theorem durable_mem {serde : Serde} {keepRecentTokens : Nat} (hRows : ∀ entry ∈ before, entry.Written)
    (hPin : durableFirstKeptEntryId serde keepRecentTokens before = some pin) :
    ∃ boundary ∈ before, boundary.id = pin := by
  unfold durableFirstKeptEntryId at hPin
  obtain ⟨row, hAt, hId⟩ := Option.bind_eq_some_iff.mp (Option.filter_eq_some_iff.mp hPin).1
  obtain ⟨boundary, hMem, hRow⟩ := List.mem_filterMap.mp (List.mem_of_getElem? hAt)
  refine ⟨boundary, hMem, ?_⟩
  obtain ⟨members, -, hRead, -⟩ := written_row (hRows boundary hMem)
  rw [hRead] at hRow
  obtain rfl := Option.some.inj hRow
  rw [(row_ids (hRows boundary hMem)).1] at hId
  exact Option.some.inj hId

/-! ## The two windows -/

variable {file : SessionFile} {before after : List SessionEntry} {compaction : SessionEntry}
  {payload : CompactionEntry} {base : EntryBase}

theorem leaf_of_branch (hBranch : file.branch ≠ []) :
    ∃ id leaf, file.leafId = some id ∧ file.byId.get id = some leaf := by
  cases hLeaf : file.leafId.bind file.byId.get with
  | none =>
    refine absurd ?_ hBranch
    unfold SessionFile.branch
    rw [hLeaf, ParentWalk.followGuarded_none]
    rfl
  | some leaf =>
    obtain ⟨id, hId, hGet⟩ := Option.bind_eq_some_iff.mp hLeaf
    exact ⟨id, leaf, hId, hGet⟩

theorem messages_compacted (isoToUnixMs : String → Option Nat) (hBranch : file.branch = before ++ compaction :: after)
    (hType : compaction.type = "compaction") (hLast : ∀ entry ∈ after, entry.type ≠ "compaction") :
    file.messages isoToUnixMs =
      compactionSummaryMessage isoToUnixMs compaction (walkRetained compaction.firstKeptEntryId before).length ::
        (walkRetained compaction.firstKeptEntryId before).filterMap (·.message) ++ after.filterMap (·.message) := by
  have hSplit : splitAtLast SessionEntry.isCompaction (before ++ compaction :: after) =
      some (before, compaction, after) := by
    refine splitAtLast_append before (by simp [SessionEntry.isCompaction, hType]) fun entry hMem => ?_
    simpa [SessionEntry.isCompaction] using hLast entry hMem
  unfold SessionFile.messages branchMessages
  rw [hBranch, hSplit]

theorem context_compacted (hWritten : file.Written) (hBranch : file.branch = before ++ compaction :: after)
    (hRow : compaction.row = .compaction payload base) (hLast : ∀ entry ∈ after, entry.type ≠ "compaction") :
    let digest := contextDigest file.branch payload before
    let retained := (contextRetained digest compaction.firstKeptEntryId before).flatMap (appendMessage digest ·.row)
    (buildSessionContext file.fileEntries file.leafId).messages =
      summaryMessage payload compaction.row retained.length (digestAfter (file.branch.map (·.row)) before.length) ::
        retained ++ messagesOf digest (after.map (·.row)) := by
  intro digest retained
  have hRows : ∀ entry ∈ file.branch, entry.Written := fun entry hMem => hWritten.rows entry (mem_branch hMem)
  obtain ⟨id, leaf, hLeaf, hGet⟩ := @leaf_of_branch file (by rw [hBranch]; simp)
  have hSplit : splitAtLast FileEntry.isCompaction (file.branch.map (·.row)) =
      some (before.map (·.row), compaction.row, after.map (·.row)) := by
    rw [hBranch, List.map_append, List.map_cons]
    refine splitAtLast_append _ (by rw [hRow]; rfl) fun row hMem => ?_
    obtain ⟨entry, hIn, rfl⟩ := List.mem_map.mp hMem
    exact row_not_compaction (hRows entry (by rw [hBranch]; simp [hIn])) (hLast entry hIn)
  have hFirst := row_firstKept (hRows compaction (by rw [hBranch]; simp)) hRow
  have hKept : retainedRows payload (before.map (·.row)) =
      (fromBoundary compaction.firstKeptEntryId before).map (·.row) := by
    unfold retainedRows
    rw [hFirst]
    exact dropWhile_rows fun entry hIn => (row_ids (hRows entry (by rw [hBranch]; simp [hIn]))).1
  have hMessages : messagesOf digest ((fromBoundary compaction.firstKeptEntryId before).map (·.row)) = retained :=
    messagesOf_rows digest _
  rw [buildSessionContext_eq (threaded_fileEntries hWritten), pathRows_branch hWritten hLeaf hGet]
  show rowMessages (file.branch.map (·.row)) = _
  unfold rowMessages
  rw [hSplit, hRow, ← hMessages]
  show compactedMessages _ _ payload _ _ = _
  unfold compactedMessages
  rw [hKept, List.length_map]
  rfl

theorem boundary_alone (hWritten : file.Written) (hBefore : ∀ entry ∈ before, entry ∈ file.entries)
    (hMem : boundary ∈ before) :
    ∀ entry ∈ before, entry.id = boundary.id → entry = boundary :=
  fun entry hIn hSame =>
    List.inj_on_of_nodup_map hWritten.index.nodup (hBefore entry hIn) (hBefore boundary hMem) hSame

theorem walkRetained_iff (hMem : boundary ∈ before) (hId : boundary.id = pin)
    (hAlone : ∀ entry ∈ before, entry.id = pin → entry = boundary) :
    walkRetained pin before = (fromBoundary pin before).filter (·.bearsMessage) ↔
      boundary.bearsMessage = true ∨ ∀ entry ∈ fromBoundary pin before, entry.bearsMessage = false := by
  cases hBears : boundary.bearsMessage with
  | true => simp [walkRetained_of_bears hMem hId hBears hAlone]
  | false =>
    have hSilent : ∀ entry ∈ before, entry.id = pin → entry.bearsMessage = false := by
      intro entry hIn hSame
      rw [hAlone entry hIn hSame]
      exact hBears
    rw [walkRetained_of_silent hSilent, eq_comm, List.filter_eq_nil_iff]
    simp

/-- The window of a compaction whose boundary was pinned by a cut over the branch, and what the store and the engine
retain of it: the rows from the boundary that bear a message, exactly where the boundary is seen and the rows are
shared. -/
theorem retained_iff (serde : Serde) (isoToUnixMs : String → Option Nat) {file : SessionFile}
    {before after pinned : List SessionEntry} {compaction : SessionEntry} {payload : CompactionEntry} {base : EntryBase}
    {keepRecentTokens : Nat} {pin : String} (hWritten : file.Written)
    (hBranch : file.branch = before ++ compaction :: after) (hRow : compaction.row = .compaction payload base)
    (hLast : ∀ entry ∈ after, entry.type ≠ "compaction") (hRows : ∀ entry ∈ pinned, entry.Written)
    (hIds : pinned.map (·.id) = before.map (·.id))
    (hPin : durableFirstKeptEntryId serde keepRecentTokens pinned = some pin)
    (hFirst : compaction.firstKeptEntryId = pin) :
    let digest := contextDigest file.branch payload before
    let retained := (contextRetained digest pin before).flatMap (appendMessage digest ·.row)
    file.messages isoToUnixMs =
        compactionSummaryMessage isoToUnixMs compaction (walkRetained pin before).length ::
          (walkRetained pin before).filterMap (·.message) ++ after.filterMap (·.message) ∧
      (buildSessionContext file.fileEntries file.leafId).messages =
        summaryMessage payload compaction.row retained.length (digestAfter (file.branch.map (·.row)) before.length) ::
          retained ++ messagesOf digest (after.map (·.row)) ∧
      ((walkRetained pin before = (fromBoundary pin before).filter (·.bearsMessage) ∧
          contextRetained digest pin before = (fromBoundary pin before).filter (·.bearsMessage)) ↔
        ((∃ boundary ∈ before, boundary.id = pin ∧ boundary.bearsMessage = true) ∨
            ∀ entry ∈ fromBoundary pin before, entry.bearsMessage = false) ∧
          ∀ entry ∈ fromBoundary pin before, entry.Shared digest) := by
  subst hFirst
  intro digest retained
  have hType := (@row_decoded compaction (hWritten.rows compaction (mem_branch (by rw [hBranch]; simp))) "compaction"
    (by rw [hRow]; rfl)).1
  have hBefore : ∀ entry ∈ before, entry ∈ file.entries :=
    fun entry hIn => mem_branch (by rw [hBranch]; exact List.mem_append_left _ hIn)
  refine ⟨messages_compacted isoToUnixMs hBranch hType hLast, context_compacted hWritten hBranch hRow hLast, ?_⟩
  obtain ⟨row, hPinned, hRowId⟩ := durable_mem hRows hPin
  obtain ⟨boundary, hMem, hId⟩ : ∃ boundary ∈ before, boundary.id = compaction.firstKeptEntryId := by
    rw [← hRowId, ← List.mem_map, ← hIds]
    exact List.mem_map_of_mem hPinned
  have hAlone : ∀ entry ∈ before, entry.id = compaction.firstKeptEntryId → entry = boundary :=
    hId ▸ boundary_alone hWritten hBefore hMem
  have hSeen : (∃ boundary ∈ before, boundary.id = compaction.firstKeptEntryId ∧ boundary.bearsMessage = true) ↔
      boundary.bearsMessage = true := by
    constructor
    · rintro ⟨entry, hIn, hSame, hBears⟩
      rw [← hAlone entry hIn hSame]
      exact hBears
    · exact fun hBears => ⟨boundary, hMem, hId, hBears⟩
  have hShared : contextRetained digest compaction.firstKeptEntryId before =
      (fromBoundary compaction.firstKeptEntryId before).filter (·.bearsMessage) ↔
      ∀ entry ∈ fromBoundary compaction.firstKeptEntryId before, entry.Shared digest := by
    unfold contextRetained
    rw [eq_comm, filter_eq_filter_iff]
    refine forall₂_congr fun entry hIn => ?_
    exact shared_iff (hWritten.rows entry (hBefore entry ((List.dropWhile_sublist _).subset hIn))) digest
  rw [walkRetained_iff hMem hId hAlone, hSeen, hShared]

/-! ## Two sessions -/

def userRow (id : String) (parentId : Option String) : SessionEntry :=
  ⟨"message", id, parentId, "", .object [("message", .object [("role", .string "user"), ("content", .string id),
    ("timestamp", .number (.posInt 1))])]⟩

def modelRow (id : String) (parentId : Option String) : SessionEntry :=
  ⟨"model_change", id, parentId, "", .object [("provider", .string "p"), ("modelId", .string "m")]⟩

def compactionRow (firstKeptEntryId : String) (parentId : Option String) : SessionEntry :=
  ⟨"compaction", "c", parentId, "", .object [("summary", .string "s"), ("firstKeptEntryId", .string firstKeptEntryId),
    ("tokensBefore", .number (.posInt 9))]⟩

def storeOf (rows : List SessionEntry) : SessionFile :=
  rows.foldl SessionFile.pushIndex (.empty "" ⟨some 3, "s", "", "/w", none, none, none⟩)

theorem userRow_written (id : String) (parentId : Option String) (hId : id ≠ "") : (userRow id parentId).Written :=
  ⟨by simp [userRow], hId, _, rfl, by simp [List.lookup_cons]⟩

theorem modelRow_written (id : String) (parentId : Option String) (hId : id ≠ "") : (modelRow id parentId).Written :=
  ⟨by simp [modelRow], hId, _, rfl, by simp [List.lookup_cons]⟩

theorem compactionRow_written (firstKeptEntryId : String) (parentId : Option String) :
    (compactionRow firstKeptEntryId parentId).Written :=
  ⟨by simp [compactionRow], by simp [compactionRow], _, rfl, by simp [List.lookup_cons]⟩

theorem written_below (hWritten : file.Written) (hEntry : entry.Written) (hNew : file.byId.get entry.id = none)
    {parent : String} (hParent : entry.parentId = some parent) (hKnown : (file.byId.get parent).isSome = true) :
    (file.pushIndex entry).Written := by
  refine written_pushIndex hWritten hEntry hNew fun other hOther => ?_
  rw [hParent] at hOther
  rw [← Option.some.inj hOther]
  exact hKnown

def plainRows : List SessionEntry :=
  [userRow "u1" none, userRow "u2" (some "u1")]

def plainFile : SessionFile :=
  storeOf (plainRows ++ [compactionRow "u2" (some "u2")])

theorem plainFile_written : plainFile.Written := by
  have hFirst := written_pushIndex (written_empty "" ⟨some 3, "s", "", "/w", none, none, none⟩)
    (userRow_written "u1" none (by decide)) rfl (by rintro parent ⟨⟩)
  have hSecond := written_below hFirst (userRow_written "u2" (some "u1") (by decide)) rfl rfl rfl
  exact written_below hSecond (compactionRow_written "u2" (some "u2")) rfl rfl rfl

theorem plainFile_retained :
    walkRetained "u2" plainRows = (fromBoundary "u2" plainRows).filter (·.bearsMessage) ∧
      contextRetained none "u2" plainRows = (fromBoundary "u2" plainRows).filter (·.bearsMessage) :=
  (retained_iff emptyMapSerde (fun _ => none) plainFile_written
    (show plainFile.branch = plainRows ++ compactionRow "u2" (some "u2") :: [] from rfl) rfl (by simp)
    (by simp [plainRows, userRow_written]) rfl (show durableFirstKeptEntryId emptyMapSerde 1 plainRows = some "u2" from rfl)
    rfl).2.2.mpr ⟨.inl ⟨userRow "u2" (some "u1"), by simp [plainRows], rfl, rfl⟩, by
      intro entry hMem
      have hIn : entry ∈ [userRow "u2" (some "u1")] := hMem
      rw [List.mem_singleton.mp hIn]
      trivial⟩

def changedRows : List SessionEntry :=
  [userRow "u1" none, modelRow "m1" (some "u1"), userRow "u2" (some "m1")]

def changedFile : SessionFile :=
  storeOf (changedRows ++ [compactionRow "m1" (some "u2")])

theorem changedFile_written : changedFile.Written := by
  have hFirst := written_pushIndex (written_empty "" ⟨some 3, "s", "", "/w", none, none, none⟩)
    (userRow_written "u1" none (by decide)) rfl (by rintro parent ⟨⟩)
  have hSecond := written_below hFirst (modelRow_written "m1" (some "u1") (by decide)) rfl rfl rfl
  have hThird := written_below hSecond (userRow_written "u2" (some "m1") (by decide)) rfl rfl rfl
  exact written_below hThird (compactionRow_written "m1" (some "u2")) rfl rfl rfl

theorem changedFile_loses_message :
    changedFile.Written ∧ changedFile.branch = changedRows ++ [compactionRow "m1" (some "u2")] ∧
      durableFirstKeptEntryId emptyMapSerde 1 changedRows = some "m1" ∧
      (fromBoundary "m1" changedRows).filter (·.bearsMessage) = [userRow "u2" (some "m1")] ∧
      contextRetained none "m1" changedRows = [userRow "u2" (some "m1")] ∧ walkRetained "m1" changedRows = [] ∧
      (changedFile.messages fun _ => none).length = 1 ∧
      (buildSessionContext changedFile.fileEntries changedFile.leafId).messages.length = 2 :=
  ⟨changedFile_written, by decide, by decide, by decide, by decide, by decide, by decide, by decide⟩

end PrimeAgent.SessionStore
