import PrimeAgent.Journal.Command

/-! # Reopening the command journal

Appending and loading agree record by record; a compaction turns each entry into a receipt.
-/
namespace PrimeAgent

namespace CommandRecoveryJournal

variable {text : JournalText} {file : JournalFile} {records : List Json} {env : JournalEnv}
  {j j' : CommandRecoveryJournal}

theorem load_eq (text : JournalText) (file : JournalFile) :
    load text file = (file.readLines stripCarriageReturn).foldl (loadLine text) ⟨∅, 0⟩ := by
  rw [load, JournalFile.readLines]
  cases file.readToString <;> rfl

theorem loadLine_record {record : Json} (hKeeps : text.Keeps record) (j : CommandRecoveryJournal) :
    j.loadLine text (text.toString record) = j.loadRecord record := by
  obtain ⟨body, hBody⟩ := hKeeps.object
  have hSome : (text.toString record).isEmpty = false := by
    rw [hBody]
    rfl
  rw [loadLine, hSome, hKeeps.reads]
  rfl

theorem foldl_loadLine (hKeeps : ∀ record ∈ records, text.Keeps record) (j : CommandRecoveryJournal) :
    (records.map text.toString).foldl (loadLine text) j = records.foldl loadRecord j := by
  induction records generalizing j with
  | nil => rfl
  | cons record records ih =>
    rw [List.map_cons, List.foldl_cons, List.foldl_cons, loadLine_record (hKeeps record List.mem_cons_self)]
    exact ih (fun record' hRecord => hKeeps record' (List.mem_cons_of_mem record hRecord)) _

theorem load_append (hIntact : file.Intact) (hKeeps : ∀ record ∈ records, text.Keeps record) :
    load text ((Write.append records).run text file) = records.foldl loadRecord (load text file) := by
  rw [load_eq, readLines_append hIntact hKeeps (stripCarriageReturn_unstripped hKeeps), List.foldl_append, ← load_eq,
    foldl_loadLine hKeeps]

theorem load_rewrite (hKeeps : ∀ record ∈ records, text.Keeps record) :
    load text ((Write.rewrite records).run text file) = records.foldl loadRecord ⟨∅, 0⟩ := by
  rw [load_eq, readLines_rewrite hKeeps (stripCarriageReturn_unstripped hKeeps), foldl_loadLine hKeeps]

theorem loadRecord_received (j : CommandRecoveryJournal) (clientId commandId commandType now : String) :
    j.loadRecord (receivedRecord text clientId commandId commandType now)
      = ⟨j.entries.insert (key text clientId commandId) .pending, j.recordCount + 1⟩ := by
  simp [loadRecord, receivedRecord, Json.get, List.lookup_cons, Json.asStr, Json.asU64]

theorem loadRecord_result (key : String) (response : Json) (now : String)
    (hKey : (j.entries.lookup key).isSome = true) :
    j.loadRecord (resultRecord key response now)
      = ⟨j.entries.insert key ⟨"complete", some response⟩, j.recordCount + 1⟩ := by
  simp [loadRecord, resultRecord, Json.get, List.lookup_cons, Json.asStr, Json.asU64, hKey]

theorem loadRecord_acknowledged (j : CommandRecoveryJournal) (key now : String) :
    j.loadRecord (acknowledgedRecord key now) = ⟨j.entries.erase key, j.recordCount + 1⟩ := by
  simp [loadRecord, acknowledgedRecord, Json.get, List.lookup_cons, Json.asStr, Json.asU64]

theorem loadRecord_compacted (j : CommandRecoveryJournal) (entry : String × CommandJournalEntry) :
    j.loadRecord (compactedRecord entry) = ⟨j.entries.insert entry.1 .pending, j.recordCount + 1⟩ := by
  obtain ⟨key, status, response⟩ := entry
  cases response <;>
    simp [loadRecord, compactedRecord, Json.optionalMember, Json.get, List.lookup_cons, Json.asStr, Json.asU64]

theorem loadRecord_congr (h : HashMap.view j.entries = HashMap.view j'.entries) (record : Json) :
    HashMap.view (j.loadRecord record).entries = HashMap.view (j'.loadRecord record).entries := by
  have hLookup : ∀ key, j.entries.lookup key = j'.entries.lookup key := fun key => congrFun h key
  simp only [loadRecord]
  split
  · exact h
  · simp only [hLookup]
    split_ifs <;> simp [h]

theorem view_foldl_compacted (entries : List (String × CommandJournalEntry)) (j : CommandRecoveryJournal) :
    HashMap.view ((entries.map compactedRecord).foldl loadRecord j).entries
      = (entries.map fun entry => (entry.1, CommandJournalEntry.pending)).foldl (fun m entry => m.insert entry.1 entry.2)
        (HashMap.view j.entries) := by
  induction entries generalizing j with
  | nil => rfl
  | cons entry entries ih =>
    rw [List.map_cons, List.foldl_cons, ih, loadRecord_compacted, HashMap.view_insert, List.map_cons, List.foldl_cons]

theorem lookup_load_compact (env : JournalEnv) (j : CommandRecoveryJournal)
    (hKeeps : ∀ write ∈ (j.compact env).writes, ∀ record ∈ write.records, text.Keeps record) (key : String) :
    (load text (runWrites text file (j.compact env).writes)).entries.lookup key
      = (j.entries.lookup key).map fun _ => .pending := by
  have hWrite : ∀ record ∈ (HashMap.walk env.order j.entries).map compactedRecord, text.Keeps record :=
    hKeeps _ (List.mem_singleton.mpr rfl)
  have hView := view_foldl_compacted (HashMap.walk env.order j.entries) ⟨∅, 0⟩
  rw [compact, runWrites, List.foldl_cons, List.foldl_nil, load_rewrite hWrite]
  exact (congrFun hView key).trans (congrFun (KeyMap.ofPairs_walk env.order j.entries fun _ =>
    CommandJournalEntry.pending) key)

def WellFormed (j : CommandRecoveryJournal) : Prop :=
  ∀ key entry, j.entries.lookup key = some entry → entry = .pending ∨ entry.status = "complete"

theorem WellFormed.insert (h : j.WellFormed) {entry : CommandJournalEntry}
    (hEntry : entry = .pending ∨ entry.status = "complete") (key : String) (count : Nat) :
    WellFormed ⟨j.entries.insert key entry, count⟩ := by
  intro key' entry' hLookup
  by_cases hKey : key' = key
  · subst hKey
    rw [AList.lookup_insert] at hLookup
    exact Option.some.inj hLookup ▸ hEntry
  · rw [AList.lookup_insert_ne hKey] at hLookup
    exact h key' entry' hLookup

theorem WellFormed.erase (h : j.WellFormed) (key : String) (count : Nat) : WellFormed ⟨j.entries.erase key, count⟩ := by
  intro key' entry' hLookup
  by_cases hKey : key' = key
  · rw [hKey, AList.lookup_erase] at hLookup
    cases hLookup
  · rw [AList.lookup_erase_ne hKey] at hLookup
    exact h key' entry' hLookup

theorem WellFormed.loadRecord (h : j.WellFormed) (record : Json) : (j.loadRecord record).WellFormed := by
  rw [CommandRecoveryJournal.loadRecord]
  split
  · exact h
  · dsimp only
    split_ifs
    · exact h.insert (Or.inl rfl) _ _
    · exact h.erase _ _
    · exact h.insert (Or.inr rfl) _ _
    · exact h

theorem load_wellFormed (text : JournalText) (file : JournalFile) : (load text file).WellFormed := by
  rw [load_eq]
  refine List.foldlRecOn (motive := WellFormed) _ _ ?_ ?_
  · rintro key entry hLookup
    cases hLookup
  · intro j h line _
    rw [loadLine]
    split
    · exact h
    · split
      · exact h
      · exact h.loadRecord _

end CommandRecoveryJournal

def CommandOp.Forgets (text : JournalText) (j : CommandRecoveryJournal) : CommandOp → Prop
  | .begin _ _ _ => False
  | .recordResult clientId commandId _ =>
    (j.lookup text clientId commandId).isSome = true ∧ compactAfterRecords ≤ j.recordCount + 1
  | .acknowledge clientId commandId =>
    (j.lookup text clientId commandId).isSome = true ∧ compactAfterRecords ≤ j.recordCount ∧
      ∃ key entry, (j.entries.erase (CommandRecoveryJournal.key text clientId commandId)).lookup key = some entry ∧
        entry.status = "complete"

inductive CommandOp.Effect (text : JournalText) (env : JournalEnv) (j : CommandRecoveryJournal) (op : CommandOp) :
    Outcome CommandRecoveryJournal → Prop
  | idle (hKept : ¬ op.Forgets text j) : Effect text env j op ⟨j, []⟩
  | logged (record : Json) (rest : CommandRecoveryJournal) (hRest : rest.entries = (j.loadRecord record).entries)
      (hKept : ¬ op.Forgets text j) : Effect text env j op ⟨rest, [.append [record]]⟩
  | compacted (record : Json) (rest : CommandRecoveryJournal) (hRest : rest.entries = (j.loadRecord record).entries)
      (hForgets : op.Forgets text j ↔ ∃ key entry, rest.entries.lookup key = some entry ∧ entry.status = "complete") :
      Effect text env j op ⟨(rest.compact env).journal, .append [record] :: (rest.compact env).writes⟩

section Effect

variable {text : JournalText} {env : JournalEnv} {j : CommandRecoveryJournal} {clientId commandId : String}

def CommandRecoveryJournal.settled (text : JournalText) (j : CommandRecoveryJournal) (clientId commandId : String)
    (response : Json) : CommandRecoveryJournal :=
  ⟨j.entries.insert (CommandRecoveryJournal.key text clientId commandId) ⟨"complete", some response⟩, j.recordCount + 1⟩

theorem CommandOp.run_begin (commandType : String) (h : j.lookup text clientId commandId = none) :
    (CommandOp.begin clientId commandId commandType).run text env j =
      ⟨⟨j.entries.insert (CommandRecoveryJournal.key text clientId commandId) .pending, j.recordCount + 1⟩,
        [.append [CommandRecoveryJournal.receivedRecord text clientId commandId commandType env.now]]⟩ := by
  simp only [CommandOp.run, CommandRecoveryJournal.begin, h]

theorem CommandOp.run_recordResult_unknown (response : Json) (h : j.lookup text clientId commandId = none) :
    (CommandOp.recordResult clientId commandId response).run text env j = ⟨j, []⟩ := by
  rw [CommandRecoveryJournal.lookup] at h
  simp [CommandOp.run, CommandRecoveryJournal.recordResult, h]

theorem CommandOp.run_recordResult (response : Json) (hKnown : (j.lookup text clientId commandId).isSome = true) :
    (CommandOp.recordResult clientId commandId response).run text env j =
      let settled := j.settled text clientId commandId response
      let write := Write.append [CommandRecoveryJournal.resultRecord
        (CommandRecoveryJournal.key text clientId commandId) response env.now]
      if compactAfterRecords ≤ j.recordCount + 1 then
        ⟨(settled.compact env).journal, write :: (settled.compact env).writes⟩
      else ⟨settled, [write]⟩ := by
  obtain ⟨entry, hEntry⟩ := Option.isSome_iff_exists.mp hKnown
  rw [CommandRecoveryJournal.lookup] at hEntry
  simp only [CommandOp.run, CommandRecoveryJournal.recordResult, hEntry, Option.isNone_some, Bool.false_eq_true, if_false,
    CommandRecoveryJournal.settled]
  split_ifs <;> rfl

theorem CommandOp.run_acknowledge_unknown (h : j.lookup text clientId commandId = none) :
    (CommandOp.acknowledge clientId commandId).run text env j = ⟨j, []⟩ := by
  rw [CommandRecoveryJournal.lookup] at h
  simp [CommandOp.run, CommandRecoveryJournal.acknowledge, h]

theorem CommandOp.run_acknowledge (hKnown : (j.lookup text clientId commandId).isSome = true) :
    (CommandOp.acknowledge clientId commandId).run text env j =
      let key := CommandRecoveryJournal.key text clientId commandId
      let rest : CommandRecoveryJournal := ⟨j.entries.erase key, j.recordCount⟩
      let write := Write.append [CommandRecoveryJournal.acknowledgedRecord key env.now]
      if HashMap.isEmpty rest.entries ∨ compactAfterRecords ≤ j.recordCount then
        ⟨(rest.compact env).journal, write :: (rest.compact env).writes⟩
      else ⟨rest, [write]⟩ := by
  obtain ⟨entry, hEntry⟩ := Option.isSome_iff_exists.mp hKnown
  rw [CommandRecoveryJournal.lookup] at hEntry
  simp only [CommandOp.run, CommandRecoveryJournal.acknowledge, hEntry, Option.isNone_some, Bool.false_eq_true, if_false]

theorem CommandOp.run_effect (text : JournalText) (env : JournalEnv) (j : CommandRecoveryJournal) (op : CommandOp) :
    op.Effect text env j (op.run text env j) := by
  cases op with
  | begin clientId commandId commandType =>
    cases hLookup : j.lookup text clientId commandId with
    | some existing =>
      simp only [CommandOp.run, CommandRecoveryJournal.begin, hLookup]
      exact .idle id
    | none =>
      rw [CommandOp.run_begin commandType hLookup]
      refine .logged _ _ ?_ id
      rw [CommandRecoveryJournal.loadRecord_received]
  | recordResult clientId commandId response =>
    cases hLookup : j.lookup text clientId commandId with
    | none =>
      rw [CommandOp.run_recordResult_unknown response hLookup]
      refine .idle ?_
      rintro ⟨hSome, -⟩
      rw [hLookup] at hSome
      cases hSome
    | some existing =>
      have hSome : (j.lookup text clientId commandId).isSome = true := by
        rw [hLookup]
        rfl
      have hRest := congrArg CommandRecoveryJournal.entries
        (CommandRecoveryJournal.loadRecord_result _ response env.now hSome)
      rw [CommandOp.run_recordResult response hSome]
      dsimp only
      split_ifs with hFull
      · refine .compacted _ _ hRest.symm (iff_of_true ⟨hSome, hFull⟩ ?_)
        exact ⟨_, ⟨"complete", some response⟩, AList.lookup_insert _, rfl⟩
      · refine .logged _ _ hRest.symm ?_
        rintro ⟨-, hFull'⟩
        exact hFull hFull'
  | acknowledge clientId commandId =>
    cases hLookup : j.lookup text clientId commandId with
    | none =>
      rw [CommandOp.run_acknowledge_unknown hLookup]
      refine .idle ?_
      rintro ⟨hSome, -⟩
      rw [hLookup] at hSome
      cases hSome
    | some existing =>
      have hSome : (j.lookup text clientId commandId).isSome = true := by
        rw [hLookup]
        rfl
      have hRest := congrArg CommandRecoveryJournal.entries
        (CommandRecoveryJournal.loadRecord_acknowledged j (CommandRecoveryJournal.key text clientId commandId) env.now)
      rw [CommandOp.run_acknowledge hSome]
      dsimp only
      split_ifs with hCompacts
      · refine .compacted _ ⟨_, _⟩ hRest.symm ⟨fun h => h.2.2, fun hLeft => ⟨hSome, ?_, hLeft⟩⟩
        rcases hCompacts with hEmpty | hFull
        · obtain ⟨key, entry, hEntry, -⟩ := hLeft
          rw [HashMap.isEmpty_iff.mp hEmpty key] at hEntry
          cases hEntry
        · exact hFull
      · refine .logged _ ⟨_, _⟩ hRest.symm ?_
        rintro ⟨-, hFull, -⟩
        exact hCompacts (Or.inr hFull)

end Effect

structure CommandStep (text : JournalText) (env : JournalEnv) (w : Journaled CommandRecoveryJournal) (op : CommandOp)
    (w' : Journaled CommandRecoveryJournal) : Prop where
  journal : w'.journal = (op.run text env w.journal).journal
  file : w'.file = runWrites text w.file (op.run text env w.journal).writes
  keeps : ∀ write ∈ (op.run text env w.journal).writes, ∀ record ∈ write.records, text.Keeps record

inductive CommandRun (text : JournalText) (allowed : CommandRecoveryJournal → CommandOp → Prop) :
    Journaled CommandRecoveryJournal → Prop
  | opened (file : JournalFile) (hIntact : file.Intact) : CommandRun text allowed ⟨.load text file, file⟩
  | step {w w' : Journaled CommandRecoveryJournal} (env : JournalEnv) (op : CommandOp) (hRun : CommandRun text allowed w)
      (hAllowed : allowed w.journal op) (hStep : CommandStep text env w op w') : CommandRun text allowed w'
  | reopened {w : Journaled CommandRecoveryJournal} (hRun : CommandRun text allowed w) :
      CommandRun text allowed ⟨.load text w.file, w.file⟩

def Reopens (text : JournalText) (w : Journaled CommandRecoveryJournal) : Prop :=
  ∀ key, (CommandRecoveryJournal.load text w.file).entries.lookup key = w.journal.entries.lookup key

section Runs

variable {text : JournalText} {env : JournalEnv} {w w' : Journaled CommandRecoveryJournal} {op : CommandOp}

theorem commandStep_reopens (hIntact : w.file.Intact) (hFormed : w.journal.WellFormed) (hReopens : Reopens text w)
    (hStep : CommandStep text env w op w') :
    w'.file.Intact ∧ w'.journal.WellFormed ∧ (Reopens text w' ↔ ¬ op.Forgets text w.journal) := by
  obtain ⟨journal, file⟩ := w
  obtain ⟨journal', file'⟩ := w'
  obtain ⟨rfl, rfl, hKeeps⟩ := hStep
  dsimp only at hIntact hFormed hReopens hKeeps ⊢
  have hEffect := op.run_effect text env journal
  generalize op.run text env journal = outcome at hEffect hKeeps
  cases hEffect with
  | idle hKept => exact ⟨hIntact, hFormed, iff_of_true hReopens hKept⟩
  | logged record rest hRest hKept =>
    have hRecord : ∀ record' ∈ [record], text.Keeps record' := hKeeps _ List.mem_cons_self
    have hFormed' : rest.WellFormed := by
      rw [CommandRecoveryJournal.WellFormed, hRest]
      exact hFormed.loadRecord record
    refine ⟨append_intact hIntact, hFormed', iff_of_true ?_ hKept⟩
    intro key
    dsimp only
    rw [show runWrites text file [.append [record]] = (Write.append [record]).run text file from rfl,
      CommandRecoveryJournal.load_append hIntact hRecord, hRest]
    exact congrFun (CommandRecoveryJournal.loadRecord_congr (funext hReopens) record) key
  | compacted record rest hRest hForgets =>
    have hFormed' : rest.WellFormed := by
      rw [CommandRecoveryJournal.WellFormed, hRest]
      exact hFormed.loadRecord record
    refine ⟨@rewrite_intact text file _, hFormed', ?_⟩
    have hLoad : ∀ key, (CommandRecoveryJournal.load text
        (runWrites text file (.append [record] :: (rest.compact env).writes))).entries.lookup key
        = (rest.entries.lookup key).map fun _ => .pending := by
      intro key
      exact CommandRecoveryJournal.lookup_load_compact env rest
        (fun write hWrite => hKeeps write (List.mem_cons_of_mem _ hWrite)) key
    rw [hForgets]
    constructor
    · rintro hSame ⟨key, entry, hEntry, hComplete⟩
      have hPending := (hLoad key).symm.trans (hSame key)
      rw [show (rest.compact env).journal.entries = rest.entries from rfl, hEntry] at hPending
      obtain rfl : CommandJournalEntry.pending = entry := Option.some.inj hPending
      exact absurd hComplete (by decide)
    · intro hNone key
      refine (hLoad key).trans ?_
      rw [show (rest.compact env).journal.entries = rest.entries from rfl]
      cases hEntry : rest.entries.lookup key with
      | none => rfl
      | some entry =>
        rcases hFormed' key entry hEntry with rfl | hComplete
        · rfl
        · exact absurd ⟨key, entry, hEntry, hComplete⟩ hNone

theorem commandRun_invariant (hRun : CommandRun text (fun j op => ¬ op.Forgets text j) w) :
    w.file.Intact ∧ w.journal.WellFormed ∧ Reopens text w := by
  induction hRun with
  | opened file hIntact => exact ⟨hIntact, CommandRecoveryJournal.load_wellFormed text file, fun _ => rfl⟩
  | step env op _ hAllowed hStep ih =>
    obtain ⟨hIntact, hFormed, hReopens⟩ := ih
    obtain ⟨hIntact', hFormed', hIff⟩ := commandStep_reopens hIntact hFormed hReopens hStep
    exact ⟨hIntact', hFormed', hIff.mpr hAllowed⟩
  | reopened _ ih => exact ⟨ih.1, CommandRecoveryJournal.load_wellFormed text _, fun _ => rfl⟩

theorem CommandRun.mono {allowed allowed' : CommandRecoveryJournal → CommandOp → Prop}
    (h : ∀ j op, allowed j op → allowed' j op) (hRun : CommandRun text allowed w) : CommandRun text allowed' w := by
  induction hRun with
  | opened file hIntact => exact .opened file hIntact
  | step env op _ hAllowed hStep ih => exact .step env op ih (h _ op hAllowed) hStep
  | reopened _ ih => exact .reopened ih

/-- Where no compaction meets a completed command, every reopened journal is the live one; and a compaction
that meets one is where they part. -/
theorem commandRun_reopens (hRun : CommandRun text (fun j op => ¬ op.Forgets text j) w) :
    Reopens text w ∧ ∀ env op w', CommandStep text env w op w' → (Reopens text w' ↔ ¬ op.Forgets text w.journal) := by
  obtain ⟨hIntact, hFormed, hReopens⟩ := commandRun_invariant hRun
  exact ⟨hReopens, fun env op w' hStep => (commandStep_reopens hIntact hFormed hReopens hStep).2.2⟩

end Runs

/-- The key of the command `b` of the client `a`. -/
def keyRow : Json × String :=
  (.array [.string "a", .string "b"], "[\"a\",\"b\"]")

def receivedRow : Json × String :=
  (.object [("version", .number (.posInt 1)), ("type", .string "received"), ("key", .string "[\"a\",\"b\"]"),
    ("clientId", .string "a"), ("commandId", .string "b"), ("commandType", .string "kill"),
    ("recordedAt", .string "2024-01-01T00:00:00.000Z")],
    "\x7b\"version\":1,\"type\":\"received\",\"key\":\"[\\\"a\\\",\\\"b\\\"]\",\"clientId\":\"a\",\"commandId\":\"b\",\"commandType\":\"kill\",\"recordedAt\":\"2024-01-01T00:00:00.000Z\"\x7d")

def resultRow : Json × String :=
  (.object [("version", .number (.posInt 1)), ("type", .string "result"), ("key", .string "[\"a\",\"b\"]"),
    ("response", .bool true), ("recordedAt", .string "2024-01-01T00:00:00.000Z")],
    "\x7b\"version\":1,\"type\":\"result\",\"key\":\"[\\\"a\\\",\\\"b\\\"]\",\"response\":true,\"recordedAt\":\"2024-01-01T00:00:00.000Z\"\x7d")

def compactedRow : Json × String :=
  (.object [("version", .number (.posInt 1)), ("type", .string "received"), ("key", .string "[\"a\",\"b\"]"),
    ("response", .bool true)],
    "\x7b\"version\":1,\"type\":\"received\",\"key\":\"[\\\"a\\\",\\\"b\\\"]\",\"response\":true\x7d")

def answeredCommand : List (Json × String) :=
  [keyRow, receivedRow, resultRow, compactedRow]

theorem answeredCommand_values : (answeredCommand.map (·.1)).Nodup := by
  decide +kernel

set_option maxRecDepth 4000 in
theorem answeredCommand_keeps :
    ∀ row ∈ [receivedRow, resultRow, compactedRow], (tableText answeredCommand).Keeps row.1 := by
  have hTexts : (answeredCommand.map (·.2)).Nodup := by
    simp only [answeredCommand, List.map_cons, List.map_nil, List.nodup_cons, List.mem_cons, List.not_mem_nil, or_false,
      not_or, not_false_eq_true, List.nodup_nil, and_true]
    refine ⟨⟨?_, ?_, ?_⟩, ⟨?_, ?_⟩, ?_⟩ <;> exact ofList_ne (by decide +kernel)
  rintro row hRow
  refine tableText_keeps answeredCommand_values hTexts (List.mem_cons_of_mem _ hRow) ?_
  simp only [List.mem_cons, List.not_mem_nil, or_false] at hRow
  rcases hRow with rfl | rfl | rfl
  · exact isObjectLine_ofList (by decide +kernel)
  · exact isObjectLine_ofList (by decide +kernel)
  · exact isObjectLine_ofList (by decide +kernel)

theorem answeredCommand_key : CommandRecoveryJournal.key (tableText answeredCommand) "a" "b" = "[\"a\",\"b\"]" := by
  have hText : (tableText answeredCommand).toString keyRow.1 = keyRow.2.toList :=
    tableText_toString answeredCommand_values List.mem_cons_self
  rw [CommandRecoveryJournal.key, show Json.array [.string "a", .string "b"] = keyRow.1 from rfl, hText,
    String.ofList_toList]
  rfl

abbrev sampleText : JournalText :=
  tableText answeredCommand

def answeredJournal (count : Nat) : CommandRecoveryJournal :=
  ⟨(∅ : HashMap String CommandJournalEntry).insert "[\"a\",\"b\"]" ⟨"complete", some (.bool true)⟩, count⟩

def answerCommand : CommandOp :=
  .recordResult "a" "b" (.bool true)

theorem answeredJournal_known (count : Nat) : ((answeredJournal count).lookup sampleText "a" "b").isSome = true := by
  rw [CommandRecoveryJournal.lookup, answeredCommand_key, answeredJournal, AList.lookup_insert]
  rfl

theorem answeredJournal_settled (count : Nat) :
    (answeredJournal count).settled sampleText "a" "b" (.bool true) = answeredJournal (count + 1) := by
  simp only [CommandRecoveryJournal.settled, answeredCommand_key, answeredJournal, AList.insert_insert]

theorem answerCommand_step {w : Journaled CommandRecoveryJournal} (hRoom : w.journal.recordCount + 1 < compactAfterRecords)
    (hKnown : (w.journal.lookup sampleText "a" "b").isSome = true) :
    CommandStep sampleText sampleJournalEnv w answerCommand
      ⟨w.journal.settled sampleText "a" "b" (.bool true), (Write.append [resultRow.1]).run sampleText w.file⟩ := by
  have hRun := @CommandOp.run_recordResult sampleText sampleJournalEnv w.journal "a" "b" (.bool true) hKnown
  simp only [if_neg (Nat.not_le.mpr hRoom), answeredCommand_key] at hRun
  rw [← answerCommand] at hRun
  refine ⟨by rw [hRun], by rw [hRun]; rfl, ?_⟩
  rw [hRun]
  rintro write hWrite record hRecord
  rw [List.mem_singleton.mp hWrite] at hRecord
  rw [List.mem_singleton.mp hRecord]
  exact answeredCommand_keeps resultRow (by simp)

theorem receivedCommand_run : ∃ w, CommandRun sampleText (fun j op => ¬ op.Forgets sampleText j) w ∧
    w.journal.recordCount = 1 ∧ (w.journal.lookup sampleText "a" "b").isSome = true ∧
    w.journal.settled sampleText "a" "b" (.bool true) = answeredJournal 2 := by
  have hRun := @CommandOp.run_begin sampleText sampleJournalEnv (.load sampleText none) "a" "b" "kill" rfl
  simp only [CommandRecoveryJournal.receivedRecord, answeredCommand_key] at hRun
  refine ⟨⟨⟨(∅ : HashMap String CommandJournalEntry).insert "[\"a\",\"b\"]" .pending, 1⟩, _⟩,
    .step sampleJournalEnv (.begin "a" "b" "kill") (.opened none JournalFile.intact_missing) id ⟨?_, rfl, ?_⟩, rfl, ?_, ?_⟩
  · rw [hRun]
    rfl
  · rw [hRun]
    rintro write hWrite record hRecord
    rw [List.mem_singleton.mp hWrite] at hRecord
    rw [List.mem_singleton.mp hRecord]
    exact answeredCommand_keeps receivedRow (by simp)
  · rw [CommandRecoveryJournal.lookup, answeredCommand_key, AList.lookup_insert]
    rfl
  · simp only [CommandRecoveryJournal.settled, answeredCommand_key, answeredJournal, AList.insert_insert]

theorem answeredJournal_run (n : Nat) (hRoom : n + 2 < compactAfterRecords) :
    ∃ file, CommandRun sampleText (fun j op => ¬ op.Forgets sampleText j) ⟨answeredJournal (n + 2), file⟩ := by
  have hKept : ∀ j : CommandRecoveryJournal, j.recordCount + 1 < compactAfterRecords →
      ¬ answerCommand.Forgets sampleText j := by
    rintro j hRoom ⟨-, hFull⟩
    omega
  induction n with
  | zero =>
    obtain ⟨w, hRun, hCount, hKnown, hSettled⟩ := receivedCommand_run
    have hFirst : w.journal.recordCount + 1 < compactAfterRecords := by
      rw [hCount]
      exact hRoom
    rw [← hSettled]
    exact ⟨_, .step sampleJournalEnv answerCommand hRun (hKept _ hFirst) (answerCommand_step hFirst hKnown)⟩
  | succ n ih =>
    obtain ⟨file, hRun⟩ := ih (by omega)
    have hNext : (answeredJournal (n + 2)).recordCount + 1 < compactAfterRecords := hRoom
    have hStep := @answerCommand_step ⟨answeredJournal (n + 2), file⟩ hNext (answeredJournal_known _)
    rw [answeredJournal_settled] at hStep
    exact ⟨_, .step sampleJournalEnv answerCommand hRun (hKept _ hNext) hStep⟩

theorem answeredJournal_forgotten : ∃ w, CommandRun sampleText (fun _ _ => True) w ∧ ¬ Reopens sampleText w ∧
    w.journal.lookup sampleText "a" "b" = some ⟨"complete", some (.bool true)⟩ ∧
    (CommandRecoveryJournal.load sampleText w.file).lookup sampleText "a" "b" = some .pending := by
  obtain ⟨file, hRun⟩ := answeredJournal_run 4093 (by decide)
  obtain ⟨hIntact, hFormed, hReopens⟩ := commandRun_invariant hRun
  have hOp := @CommandOp.run_recordResult sampleText sampleJournalEnv (answeredJournal 4095) "a" "b" (.bool true)
    (answeredJournal_known _)
  have hFull : compactAfterRecords ≤ (answeredJournal 4095).recordCount + 1 := Nat.le_refl 4096
  simp only [if_pos hFull, answeredCommand_key, answeredJournal_settled] at hOp
  rw [← answerCommand] at hOp
  have hKeeps : ∀ write ∈ ((answeredJournal 4096).compact sampleJournalEnv).writes, ∀ record ∈ write.records,
      sampleText.Keeps record := by
    rintro write hWrite record hRecord
    rw [List.mem_singleton.mp hWrite] at hRecord
    rw [List.mem_singleton.mp hRecord]
    exact answeredCommand_keeps compactedRow (by simp)
  have hStep : CommandStep sampleText sampleJournalEnv ⟨answeredJournal 4095, file⟩ answerCommand
      ⟨(answerCommand.run sampleText sampleJournalEnv (answeredJournal 4095)).journal, runWrites sampleText file
        (answerCommand.run sampleText sampleJournalEnv (answeredJournal 4095)).writes⟩ := by
    refine ⟨rfl, rfl, ?_⟩
    rw [hOp]
    rintro write hWrite record hRecord
    rcases List.mem_cons.mp hWrite with rfl | hWrite
    · rw [List.mem_singleton.mp hRecord]
      exact answeredCommand_keeps resultRow (by simp)
    · exact hKeeps write hWrite record hRecord
  refine ⟨_, .step sampleJournalEnv answerCommand (hRun.mono fun _ _ _ => trivial) trivial hStep, ?_, ?_, ?_⟩
  · rw [(commandStep_reopens hIntact hFormed hReopens hStep).2.2, not_not]
    exact ⟨answeredJournal_known _, hFull⟩
  · dsimp only
    rw [hOp, CommandRecoveryJournal.lookup, answeredCommand_key]
    exact AList.lookup_insert _
  · dsimp only
    rw [hOp, CommandRecoveryJournal.lookup, answeredCommand_key]
    refine (CommandRecoveryJournal.lookup_load_compact sampleJournalEnv (answeredJournal 4096) hKeeps _).trans ?_
    rw [answeredJournal, AList.lookup_insert]
    rfl

theorem answeredJournal_reopens : ∃ file, Reopens sampleText ⟨answeredJournal 2, file⟩ := by
  obtain ⟨file, hRun⟩ := answeredJournal_run 0 (by decide)
  exact ⟨file, (commandRun_reopens hRun).1⟩

end PrimeAgent
