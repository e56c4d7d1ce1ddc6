import PrimeAgent.Journal.Records
import PrimeAgent.Lib.HashMap
import PrimeAgent.Lib.LineLog
import PrimeAgent.Session.Parse

/-! # Journal files

The file operations of the recovery journals over the bytes of one file, and what its lines are after each.
-/
namespace PrimeAgent

/-- `serde_json` between journal records and their lines. -/
structure JournalText where
  /-- `serde_json::to_string(&Value)`. -/
  toString : Json → Text
  /-- `serde_json::from_str::<Value>`. -/
  value : Text → Option Json
  /-- `serde_json::from_str::<WorkerRecoveryRecord>`. -/
  workerRecord : Text → Option WorkerRecoveryRecord

structure JournalText.Keeps (text : JournalText) (record : Json) : Prop where
  reads : text.value (text.toString record) = some record
  typed : text.workerRecord (text.toString record) = WorkerRecoveryRecord.ofValue record
  oneLine : '\n' ∉ text.toString record
  object : ∃ body, text.toString record = '{' :: body ++ ['}']

def recordLines (text : JournalText) (records : List Json) : Text :=
  LineLog.block (records.map text.toString)

inductive Write where
  /-- `append_record` and `append_records`: one `write_all` of all lines. -/
  | append (records : List Json)
  /-- `rewrite_records`: a temporary file renamed onto the path. -/
  | rewrite (records : List Json)
deriving DecidableEq

abbrev JournalFile := Option Bytes

def Write.run (text : JournalText) (file : JournalFile) : Write → JournalFile
  | append records => some (file.getD [] ++ utf8 (recordLines text records))
  | rewrite records => some (utf8 (recordLines text records))

def runWrites (text : JournalText) (file : JournalFile) (writes : List Write) : JournalFile :=
  writes.foldl (Write.run text) file

def Write.records : Write → List Json
  | append records | rewrite records => records

namespace JournalFile

/-- `fs::read_to_string`: nothing where the file is missing or no UTF-8. -/
def readToString (file : JournalFile) : Option Text :=
  file.bind Utf8.decode

def readLines (strip : Text → Text) (file : JournalFile) : List Text :=
  ((readToString file).map (LineLog.lines strip)).getD []

def Intact (file : JournalFile) : Prop :=
  ∃ content, file.getD [] = utf8 content ∧ LineLog.Whole content

variable {text : JournalText} {strip : Text → Text} {file : JournalFile}

theorem readLines_utf8 (content : Text) : readLines strip (some (utf8 content)) = LineLog.lines strip content := by
  rw [readLines, readToString, Option.bind_some, utf8, Utf8.decode_encode]
  rfl

theorem readLines_of_getD {content : Text} (h : file.getD [] = utf8 content) :
    readLines strip file = LineLog.lines strip content := by
  cases file with
  | none =>
    have hNil : content = [] := Utf8.encode_injective h.symm
    rw [hNil]
    rfl
  | some bytes =>
    rw [show bytes = utf8 content from h]
    exact readLines_utf8 content

theorem intact_missing : Intact none :=
  ⟨[], rfl, Or.inl rfl⟩

end JournalFile

open JournalFile

variable {text : JournalText} {strip : Text → Text} {file : JournalFile} {records : List Json} {row : Json × String}
  {table : List (Json × String)}

def Unstripped (text : JournalText) (strip : Text → Text) (records : List Json) : Prop :=
  ∀ record ∈ records, strip (text.toString record) = text.toString record

theorem stripCarriageReturn_unstripped (hKeeps : ∀ record ∈ records, text.Keeps record) :
    Unstripped text stripCarriageReturn records := by
  intro record hRecord
  obtain ⟨body, hBody⟩ := (hKeeps record hRecord).object
  rw [stripCarriageReturn, hBody, List.getLast?_concat, if_neg (by decide)]

theorem id_unstripped : Unstripped text id records :=
  fun _ _ => rfl

theorem recordLines_oneLine (hKeeps : ∀ record ∈ records, text.Keeps record) :
    ∀ line ∈ records.map text.toString, '\n' ∉ line := by
  rintro line hLine
  obtain ⟨record, hRecord, rfl⟩ := List.mem_map.mp hLine
  exact (hKeeps record hRecord).oneLine

theorem lines_recordLines (hKeeps : ∀ record ∈ records, text.Keeps record) (hStrip : Unstripped text strip records) :
    LineLog.lines strip (recordLines text records) = records.map text.toString := by
  rw [recordLines, LineLog.lines_block (recordLines_oneLine hKeeps), List.map_map]
  exact List.map_congr_left hStrip

theorem append_intact (hIntact : file.Intact) : ((Write.append records).run text file).Intact := by
  obtain ⟨content, hBytes, hWhole⟩ := hIntact
  refine ⟨content ++ recordLines text records, ?_, ?_⟩
  · simp only [Write.run, Option.getD_some, hBytes, utf8, Utf8.encode_append]
  · obtain ⟨ls, -, rfl⟩ := hWhole.exists_block
    rw [recordLines, ← LineLog.block_append]
    exact LineLog.block_whole _

theorem rewrite_intact : ((Write.rewrite records).run text file).Intact :=
  ⟨recordLines text records, rfl, LineLog.block_whole _⟩

theorem readLines_append (hIntact : file.Intact) (hKeeps : ∀ record ∈ records, text.Keeps record)
    (hStrip : Unstripped text strip records) :
    readLines strip ((Write.append records).run text file) = readLines strip file ++ records.map text.toString := by
  obtain ⟨content, hBytes, hWhole⟩ := hIntact
  rw [readLines_of_getD hBytes, ← lines_recordLines hKeeps hStrip, ← LineLog.lines_append hWhole]
  apply readLines_of_getD
  simp only [Write.run, Option.getD_some, hBytes, utf8, Utf8.encode_append]

theorem readLines_rewrite (hKeeps : ∀ record ∈ records, text.Keeps record) (hStrip : Unstripped text strip records) :
    readLines strip ((Write.rewrite records).run text file) = records.map text.toString := by
  rw [← lines_recordLines hKeeps hStrip]
  exact readLines_utf8 _

def tableText (table : List (Json × String)) : JournalText where
  toString value := ((table.find? (·.1 == value)).map (·.2.toList)).getD []
  value line := (table.find? (·.2.toList == line)).map (·.1)
  workerRecord line := ((table.find? (·.2.toList == line)).map (·.1)).bind WorkerRecoveryRecord.ofValue

theorem tableText_toString (hValues : (table.map (·.1)).Nodup) (hRow : row ∈ table) :
    (tableText table).toString row.1 = row.2.toList := by
  simp only [tableText, find?_eq_of_nodup hValues hRow, Option.map_some, Option.getD_some]

theorem tableText_keeps (hValues : (table.map (·.1)).Nodup) (hTexts : (table.map (·.2)).Nodup) (hRow : row ∈ table)
    (hObject : isObjectLine row.2.toList = true) : (tableText table).Keeps row.1 := by
  have hTexts : (table.map (·.2.toList)).Nodup := by
    rw [show (fun row : Json × String => row.2.toList) = String.toList ∘ Prod.snd from rfl, ← List.map_map]
    exact hTexts.map fun _ _ hSame => String.toList_injective hSame
  have hText := tableText_toString hValues hRow
  obtain ⟨hOneLine, hBody⟩ := exists_object hObject
  refine ⟨?_, ?_, by rwa [hText], by rwa [hText]⟩
  · rw [hText]
    simp only [tableText, find?_eq_of_nodup hTexts hRow, Option.map_some]
  · rw [hText]
    simp only [tableText, find?_eq_of_nodup hTexts hRow, Option.map_some, Option.bind_some]

end PrimeAgent

/-! ## The command recovery journal

`CommandRecoveryJournal`: a receipt is durable before a command is dispatched, and its result before it is
answered. What opening the file afresh yields is compared with the live journal.
-/
namespace PrimeAgent

def compactAfterRecords : Nat :=
  4096

structure CommandJournalEntry where
  status : String
  response : Option Json
deriving DecidableEq

/-- What `begin` and `compact` leave of a command: a receipt without a result. -/
def CommandJournalEntry.pending : CommandJournalEntry :=
  ⟨"pending", none⟩

structure CommandRecoveryJournal where
  entries : HashMap String CommandJournalEntry
  recordCount : Nat

structure JournalEnv where
  now : String
  order : IterationOrder

structure Outcome (J : Type) where
  journal : J
  writes : List Write

structure Journaled (J : Type) where
  journal : J
  file : JournalFile

namespace CommandRecoveryJournal

variable (text : JournalText)

def key (clientId commandId : String) : String :=
  String.ofList (text.toString (.array [.string clientId, .string commandId]))

def lookup (j : CommandRecoveryJournal) (clientId commandId : String) : Option CommandJournalEntry :=
  j.entries.lookup (key text clientId commandId)

def receivedRecord (clientId commandId commandType now : String) : Json :=
  .object [("version", .number (.posInt 1)), ("type", .string "received"),
    ("key", .string (key text clientId commandId)), ("clientId", .string clientId),
    ("commandId", .string commandId), ("commandType", .string commandType), ("recordedAt", .string now)]

def resultRecord (key : String) (response : Json) (now : String) : Json :=
  .object [("version", .number (.posInt 1)), ("type", .string "result"), ("key", .string key),
    ("response", response), ("recordedAt", .string now)]

def acknowledgedRecord (key now : String) : Json :=
  .object [("version", .number (.posInt 1)), ("type", .string "acknowledged"), ("key", .string key),
    ("recordedAt", .string now)]

/-- One entry as `compact` writes it. -/
def compactedRecord (entry : String × CommandJournalEntry) : Json :=
  .object ([("version", .number (.posInt 1)), ("type", .string "received"), ("key", .string entry.1)]
    ++ Json.optionalMember "response" entry.2.response)

def compact (env : JournalEnv) (j : CommandRecoveryJournal) : Outcome CommandRecoveryJournal :=
  let records := (HashMap.walk env.order j.entries).map compactedRecord
  ⟨{ j with recordCount := records.length }, [.rewrite records]⟩

def begin (env : JournalEnv) (j : CommandRecoveryJournal) (clientId commandId commandType : String) :
    Outcome CommandRecoveryJournal × Option CommandJournalEntry :=
  match j.lookup text clientId commandId with
  | some existing => (⟨j, []⟩, some existing)
  | none =>
    (⟨⟨j.entries.insert (key text clientId commandId) .pending, j.recordCount + 1⟩,
      [.append [receivedRecord text clientId commandId commandType env.now]]⟩, none)

def recordResult (env : JournalEnv) (j : CommandRecoveryJournal) (clientId commandId : String) (response : Json) :
    Except String (Outcome CommandRecoveryJournal) :=
  let key := key text clientId commandId
  if (j.entries.lookup key).isNone then .error ("Cannot record a result before command receipt: " ++ key)
  else
    let settled : CommandRecoveryJournal :=
      ⟨j.entries.insert key ⟨"complete", some response⟩, j.recordCount + 1⟩
    let write := Write.append [resultRecord key response env.now]
    if compactAfterRecords ≤ settled.recordCount then
      .ok ⟨(settled.compact env).journal, write :: (settled.compact env).writes⟩
    else .ok ⟨settled, [write]⟩

def acknowledge (env : JournalEnv) (j : CommandRecoveryJournal) (clientId commandId : String) :
    Outcome CommandRecoveryJournal :=
  let key := key text clientId commandId
  if (j.entries.lookup key).isNone then ⟨j, []⟩
  else
    let rest : CommandRecoveryJournal := { j with entries := j.entries.erase key }
    let write := Write.append [acknowledgedRecord key env.now]
    if HashMap.isEmpty rest.entries ∨ compactAfterRecords ≤ rest.recordCount then
      ⟨(rest.compact env).journal, write :: (rest.compact env).writes⟩
    else ⟨rest, [write]⟩

/-- One record of the file, as `load` takes it. -/
def loadRecord (j : CommandRecoveryJournal) (record : Json) : CommandRecoveryJournal :=
  if (record.get "version").bind Json.asU64 ≠ some 1 then j
  else
    let key := ((record.get "key").bind Json.asStr).getD ""
    let type := (record.get "type").bind Json.asStr
    let entries :=
      if type = some "received" then j.entries.insert key .pending
      else if type = some "acknowledged" then j.entries.erase key
      else if type = some "result" ∧ (j.entries.lookup key).isSome then
        j.entries.insert key ⟨"complete", record.get "response"⟩
      else j.entries
    ⟨entries, j.recordCount + 1⟩

def loadLine (j : CommandRecoveryJournal) (line : Text) : CommandRecoveryJournal :=
  if line.isEmpty then j
  else match text.value line with
    | none => j
    | some record => j.loadRecord record

/-- `open`, with its `load`. -/
def load (file : JournalFile) : CommandRecoveryJournal :=
  match file.readToString with
  | none => ⟨∅, 0⟩
  | some content => (lines content).foldl (loadLine text) ⟨∅, 0⟩

end CommandRecoveryJournal

inductive CommandOp where
  | begin (clientId commandId commandType : String)
  | recordResult (clientId commandId : String) (response : Json)
  | acknowledge (clientId commandId : String)

def CommandOp.run (text : JournalText) (env : JournalEnv) (j : CommandRecoveryJournal) :
    CommandOp → Outcome CommandRecoveryJournal
  | .begin clientId commandId commandType => (j.begin text env clientId commandId commandType).1
  | .recordResult clientId commandId response =>
    match j.recordResult text env clientId commandId response with
    | .ok outcome => outcome
    | .error _ => ⟨j, []⟩
  | .acknowledge clientId commandId => j.acknowledge text env clientId commandId

def sampleJournalEnv : JournalEnv :=
  ⟨"2024-01-01T00:00:00.000Z", .stored⟩

end PrimeAgent
