import PrimeAgent.Lib.Pieces
import PrimeAgent.Session.Parse

/-! # The daemon's session store

A loaded session: the header, every row that parses, and an index. A row joins the index once its line is in the file;
a store without a file is written whole.
-/
namespace PrimeAgent.SessionStore

open Pieces

def newline : UInt8 :=
  10

structure SessionEntry where
  type : String
  id : String
  parentId : Option String
  timestamp : String
  fields : Json
deriving DecidableEq

namespace SessionEntry

/-- `object.insert`: a key keeps its place. -/
def insertMember (key : String) (value : Json) (members : JsonMap) : JsonMap :=
  if members.any (·.1 == key) then members.map fun member => if member.1 = key then (key, value) else member
  else members ++ [(key, value)]

def setUsage (aggregate : Json) (entry : SessionEntry) : SessionEntry :=
  match entry.fields, entry.fields.get "message" with
  | .object members, some (.object message) =>
    { entry with fields := .object (insertMember "message" (.object (insertMember "usage" aggregate message)) members) }
  | _, _ => entry

def targetId (entry : SessionEntry) : Option String :=
  (entry.fields.get "targetId").bind Json.asStr

def aggregateUsage (entry : SessionEntry) : Option Json :=
  (entry.fields.get "aggregateUsage").filter Json.isObject

def isAttribution (entry : SessionEntry) : Bool :=
  entry.type == "child_usage_attributed"

def isAssistant (entry : SessionEntry) : Bool :=
  entry.type == "message" &&
    ((entry.fields.get "message").bind fun message => (message.get "role").bind Json.asStr) == some "assistant"

end SessionEntry

structure StoreSerde where
  /-- `serde_json::from_str::<Value>`. -/
  value : Text → Option Json
  /-- `serde_json::from_str::<SessionEntry>`. -/
  entry : Text → Option SessionEntry
  /-- `serde_json::to_string` of a row. -/
  write : SessionEntry → Option Text
  /-- `serde_json::to_string` of `session_header_line`. -/
  writeHeader : SessionHeader → Text

/-- The rows before the window are not loaded; what stands for them is read by the views. -/
structure SessionWindow where
  loadedEntries : Nat

structure SessionFile where
  path : String
  header : SessionHeader
  entries : List SessionEntry
  byId : KeyMap String Nat
  leafId : Option String
  window : Option SessionWindow

namespace SessionFile

/-! ## The index -/

def foldLiveAttribution (file : SessionFile) (entry : SessionEntry) : SessionFile :=
  match entry.targetId.bind file.byId.get, entry.aggregateUsage with
  | some row, some aggregate => { file with entries := file.entries.modify row (SessionEntry.setUsage aggregate) }
  | _, _ => file

def pushIndexInner (file : SessionFile) (entry : SessionEntry) (foldLive : Bool) : SessionFile :=
  let file := if foldLive && entry.isAttribution then file.foldLiveAttribution entry else file
  { file with
    byId := file.byId.insert entry.id file.entries.length
    leafId := some entry.id
    entries := file.entries ++ [entry] }

def pushIndex (file : SessionFile) (entry : SessionEntry) : SessionFile :=
  file.pushIndexInner entry true

def foldAttributionId (file : SessionFile) (id : String) : SessionFile :=
  match (file.byId.get id).bind fun row => file.entries[row]? with
  | some entry => if entry.isAttribution then file.foldLiveAttribution entry else file
  | none => file

end SessionFile

def assistantRows (entries : List SessionEntry) : KeyMap String Nat :=
  KeyMap.ofPairs (entries.zipIdx.filterMap fun (entry, row) => if entry.isAssistant then some (entry.id, row) else none)

def foldChildUsageAttributions (entries : List SessionEntry) : List SessionEntry :=
  let rows := assistantRows entries
  let folds := entries.filterMap fun entry =>
    if entry.isAttribution then
      (entry.targetId.bind rows.get).bind fun row => entry.aggregateUsage.map (row, ·)
    else none
  folds.foldl (fun entries fold => entries.modify fold.1 (SessionEntry.setUsage fold.2)) entries

/-- `new_entry_id`: the first of a hundred drawn ids that is not used, or one more. -/
def newEntryId (used : KeyMap String Nat) (draw : Nat → String) : String :=
  (((List.range 100).map draw).find? fun id => !used.contains id).getD (draw 100)

/-! ## Opening -/

/-- One line of `BufRead::lines`. -/
def readLine (piece : Bytes) : Option Text :=
  (Utf8.decode piece).map fun line =>
    if line.getLast? = some '\n' then stripCarriageReturn line.dropLast else line

def isBlank (line : Text) : Bool :=
  trim line == []

def readHeader (serde : StoreSerde) (line : Text) : Option SessionHeader :=
  (serde.value (trim line)).bind fun value =>
    if (value.get "type").bind Json.asStr = some "session" then
      (Decode.fieldsOfMap value).bind SessionHeader.ofFields
    else none

def loadLine (serde : StoreSerde) (file : SessionFile) (line : Text) : SessionFile :=
  if isBlank line then file
  else match serde.entry (trim line) with
    | some entry => file.pushIndex entry
    | none => file

def SessionFile.empty (path : String) (header : SessionHeader) : SessionFile :=
  { path, header, entries := [], byId := .empty, leafId := none, window := none }

/-- `SessionFile::open`. -/
def openFile (serde : StoreSerde) (path : String) (content : Bytes) : Option SessionFile := do
  let lines ← (pieces newline content).mapM readLine
  match lines.dropWhile isBlank with
  | [] => none
  | first :: rest =>
    let header ← readHeader serde first
    let file := rest.foldl (loadLine serde) (.empty path header)
    some { file with entries := foldChildUsageAttributions file.entries }

/-! ## Persisting -/

/-- A `persist_entry_at` with the ids it may draw, and whether its write succeeds. -/
structure PersistCall where
  entryType : String
  fields : Json
  timestamp : String
  draw : Nat → String
  uuid : String
  succeeds : Bool

def PersistCall.entry (call : PersistCall) (file : SessionFile) : SessionEntry :=
  { type := call.entryType
    id := if file.window.isSome then call.uuid else newEntryId file.byId call.draw
    parentId := file.leafId
    timestamp := call.timestamp
    fields := call.fields }

def lineBytes (line : Text) : Bytes :=
  utf8 (line ++ ['\n'])

/-- What the file holds after `rewrite`; a store without a path writes nothing. -/
def rewrite (serde : StoreSerde) (file : SessionFile) (succeeds : Bool) (disk : Option Bytes) : Option (Option Bytes) :=
  if file.window.isSome then none
  else if file.path = "" then some disk
  else if succeeds then
    (file.entries.mapM serde.write).map fun lines =>
      some ((serde.writeHeader file.header :: lines).flatMap lineBytes)
  else none

def persistEntryAt (serde : StoreSerde) (call : PersistCall) (file : SessionFile) (disk : Option Bytes) :
    Option String × SessionFile × Option Bytes :=
  let existing := if file.path = "" then none else disk
  if file.window.isSome ∧ existing = none then (none, file, disk)
  else
    let entry := call.entry file
    match existing with
    | some content =>
      match serde.write entry with
      | some line =>
        if call.succeeds then (some entry.id, file.pushIndex entry, some (content ++ lineBytes line))
        else (none, file, disk)
      | none => (none, file, disk)
    | none =>
      let indexed := file.pushIndexInner entry false
      match rewrite serde indexed call.succeeds disk with
      | some disk => (some entry.id, indexed.foldAttributionId entry.id, disk)
      | none =>
        (none,
          { indexed with
            byId := indexed.byId.remove entry.id, entries := indexed.entries.dropLast, leafId := file.leafId },
          disk)

end PrimeAgent.SessionStore
