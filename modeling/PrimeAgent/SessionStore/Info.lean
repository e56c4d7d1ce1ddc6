import PrimeAgent.Cron.Schedule
import PrimeAgent.SessionStore.File

/-! # The list metadata of a session file

`read_session_info`: an unchanged file answers from the cached scan, a grown file folds only what was appended, and any
other file is scanned from its first byte.
-/
namespace PrimeAgent.SessionStore

/-! ## Own usage -/

def noUsage : Usage :=
  ⟨0, 0, 0, 0, 0, ⟨⟨0⟩, ⟨0⟩, ⟨0⟩, ⟨0⟩, ⟨0⟩⟩⟩

def saturatingAdd (a b : Nat) : Nat :=
  min (a + b) (2 ^ 64 - 1)

/-- `(left - right).max(0.0)`. -/
def subCost (left right : JsNumber) : JsNumber :=
  let difference := left.toFloat - right.toFloat
  if difference > 0 then F64.ofFloat difference else ⟨0⟩

def addAssistantUsage (total usage : Usage) : Usage where
  input := saturatingAdd total.input usage.input
  output := saturatingAdd total.output usage.output
  cacheRead := saturatingAdd total.cacheRead usage.cacheRead
  cacheWrite := saturatingAdd total.cacheWrite usage.cacheWrite
  totalTokens := saturatingAdd total.totalTokens usage.totalTokens
  cost :=
    { input := total.cost.input.add usage.cost.input
      output := total.cost.output.add usage.cost.output
      cacheRead := total.cost.cacheRead.add usage.cost.cacheRead
      cacheWrite := total.cost.cacheWrite.add usage.cost.cacheWrite
      total := total.cost.total.add usage.cost.total }

def subtractAssistantUsage (total usage : Usage) : Usage where
  input := total.input - usage.input
  output := total.output - usage.output
  cacheRead := total.cacheRead - usage.cacheRead
  cacheWrite := total.cacheWrite - usage.cacheWrite
  totalTokens := total.totalTokens - usage.totalTokens
  cost :=
    { input := subCost total.cost.input usage.cost.input
      output := subCost total.cost.output usage.cost.output
      cacheRead := subCost total.cost.cacheRead usage.cost.cacheRead
      cacheWrite := subCost total.cost.cacheWrite usage.cost.cacheWrite
      total := subCost total.cost.total usage.cost.total }

structure SessionUsageSummary where
  inputTokens : Nat
  outputTokens : Nat
  cost : JsNumber
deriving DecidableEq

def sessionUsageSummaryFrom (usage : Usage) : Option SessionUsageSummary :=
  let inputTokens := saturatingAdd (saturatingAdd usage.input usage.cacheRead) usage.cacheWrite
  if inputTokens = 0 ∧ usage.output = 0 ∧ usage.cost.total.toFloat == 0 then none
  else some { inputTokens, outputTokens := usage.output, cost := usage.cost.total }

structure UsageScan where
  assistantUsageById : List (String × Usage)
  attributedChildUsage : Usage
  summarizationUsage : Usage
deriving DecidableEq

namespace UsageScan

def empty : UsageScan :=
  { assistantUsageById := [], attributedChildUsage := noUsage, summarizationUsage := noUsage }

def contains (scan : UsageScan) (id : String) : Bool :=
  scan.assistantUsageById.any (·.1 == id)

def set (scan : UsageScan) (id : String) (usage : Usage) : UsageScan :=
  { scan with
    assistantUsageById :=
      if scan.contains id then
        scan.assistantUsageById.map fun entry => if entry.1 = id then (id, usage) else entry
      else scan.assistantUsageById ++ [(id, usage)] }

def foldMessage (scan : UsageScan) (id : String) (role : Option String) (usage : Option Usage) : UsageScan :=
  if role = some "assistant" then (usage.map (scan.set id)).getD scan else scan

def foldChildAttribution (scan : UsageScan) : (targetId : Option String) → (childUsage aggregateUsage : Option Usage) →
    UsageScan
  | some targetId, some childUsage, some aggregateUsage =>
    if scan.contains targetId then
      { scan.set targetId aggregateUsage with
        attributedChildUsage := addAssistantUsage scan.attributedChildUsage childUsage }
    else scan
  | _, _, _ => scan

def foldSummarization (scan : UsageScan) (usage : Option Usage) : UsageScan :=
  match usage with
  | some usage => { scan with summarizationUsage := addAssistantUsage scan.summarizationUsage usage }
  | none => scan

def own (scan : UsageScan) : Usage :=
  let assistants := scan.assistantUsageById.foldl (fun total entry => addAssistantUsage total entry.2) noUsage
  subtractAssistantUsage (addAssistantUsage assistants scan.summarizationUsage) scan.attributedChildUsage

def summary (scan : UsageScan) : Option SessionUsageSummary :=
  sessionUsageSummaryFrom scan.own

end UsageScan

/-! ## One line -/

structure RawValue where
  value : Option Json

def RawValue.string (raw : Option RawValue) : Option String :=
  raw.bind fun raw => raw.value.bind Json.asStr

def RawValue.u64 (raw : Option RawValue) : Option Nat :=
  raw.bind fun raw => raw.value.bind Json.asU64

structure SessionInfoMessage where
  role : Option RawValue
  provider : Option RawValue
  model : Option RawValue
  timestamp : Option RawValue
  usage : Option Usage
  content : Option RawValue

structure SessionInfoEntry where
  type : String
  id : String
  name : Option RawValue
  state : Option RawValue
  provider : Option RawValue
  modelId : Option RawValue
  thinkingLevel : Option RawValue
  message : Option SessionInfoMessage
  targetId : Option String
  childUsage : Option Usage
  aggregateUsage : Option Usage
  usage : Option Usage

/-- The readers that `serde` derives for a line. -/
structure InfoSerde where
  /-- `serde_json::from_str::<SessionInfoEntry>`. -/
  entry : Text → Option SessionInfoEntry
  /-- `serde_json::from_str::<SessionHeader>`. -/
  header : Text → Option SessionHeader

def sessionListSearchTextMaxChars : Nat :=
  64 * 1024

def appendCappedSearchText (current : Text) (text : Text) (used : Nat) : Text × Nat :=
  if text = [] then (current, used)
  else if used ≥ sessionListSearchTextMaxChars then (current, used)
  else
    let current := if used > 0 then current ++ [' '] else current
    let count := if used > 0 then used + 1 else used
    let taken := text.take (sessionListSearchTextMaxChars - count)
    (current ++ taken, count + taken.length)

def contentToText : Json → String
  | .string text => text
  | .array blocks =>
    " ".intercalate (blocks.filterMap fun block =>
      if (block.get "type").bind Json.asStr = some "text" then (block.get "text").bind Json.asStr else none)
  | _ => ""

def messageContentText (content : Option RawValue) : String :=
  (content.map fun raw => contentToText (raw.value.getD .null)).getD ""

def normalizeStateStatus (status : String) : String :=
  if status = "hidden" ∨ status = "sleep" then "archived" else status

structure SessionScanAccumulator where
  header : Option SessionHeader
  name : Option String
  state : Option String
  model : Option (String × String)
  thinkingLevel : Option String
  messageCount : Nat
  firstMessage : String
  allMessagesText : Text
  searchTextChars : Nat
  lastActivityMs : Option Nat
  usageScan : UsageScan
deriving DecidableEq

namespace SessionScanAccumulator

def default : SessionScanAccumulator :=
  { header := none, name := none, state := none, model := none, thinkingLevel := none, messageCount := 0
    firstMessage := "", allMessagesText := [], searchTextChars := 0, lastActivityMs := none, usageScan := .empty }

def trimmed (raw : Option RawValue) : Option String :=
  ((RawValue.string raw).map fun text => String.ofList (trim text.toList)).filter (· ≠ "")

def foldText (acc : SessionScanAccumulator) (role : Option String) (content : Option RawValue) :
    SessionScanAccumulator :=
  let isUser := role = some "user"
  let isTurn := isUser ∨ role = some "assistant"
  if (isUser ∧ acc.firstMessage = "") ∨ (isTurn ∧ acc.searchTextChars < sessionListSearchTextMaxChars) then
    let text := messageContentText content
    let firstMessage := if isUser ∧ acc.firstMessage = "" ∧ text ≠ "" then text else acc.firstMessage
    let (allMessagesText, searchTextChars) :=
      if isTurn then appendCappedSearchText acc.allMessagesText text.toList acc.searchTextChars
      else (acc.allMessagesText, acc.searchTextChars)
    { acc with firstMessage, allMessagesText, searchTextChars }
  else acc

def foldMessage (acc : SessionScanAccumulator) (id : String) (message : SessionInfoMessage) :
    SessionScanAccumulator :=
  let role := RawValue.string message.role
  let usageScan := acc.usageScan.foldMessage id role message.usage
  let model :=
    match decide (role = some "assistant"), RawValue.string message.provider, RawValue.string message.model with
    | true, some provider, some modelId => some (provider, modelId)
    | _, _, _ => acc.model
  let lastActivityMs :=
    match decide (role = some "user" ∨ role = some "assistant"), RawValue.u64 message.timestamp with
    | true, some timestamp => some (max (acc.lastActivityMs.getD 0) timestamp)
    | _, _ => acc.lastActivityMs
  { acc with usageScan, model, lastActivityMs }.foldText role message.content

end SessionScanAccumulator

/-- Fold one line; `none` aborts the scan. -/
def foldScanEntry (serde : InfoSerde) (acc : SessionScanAccumulator) (raw : Text) : Option SessionScanAccumulator :=
  if trim raw = [] then some acc
  else match serde.entry (trim raw) with
  | none => some acc
  | some entry =>
    match entry.type with
    | "session" => (serde.header (trim raw)).map fun header => { acc with header := some header }
    | "session_info" => some { acc with name := SessionScanAccumulator.trimmed entry.name }
    | "session_state" =>
      match entry.state.bind fun raw => raw.value.bind fun state => (state.get "status").bind Json.asStr with
      | some status => some { acc with state := some (normalizeStateStatus status) }
      | none => some acc
    | "model_change" => do
      let provider ← RawValue.string entry.provider
      let modelId ← RawValue.string entry.modelId
      some { acc with model := some (provider, modelId) }
    | "thinking_level_change" =>
      match SessionScanAccumulator.trimmed entry.thinkingLevel with
      | some level => some { acc with thinkingLevel := some level }
      | none => some acc
    | "child_usage_attributed" =>
      some { acc with
        usageScan := acc.usageScan.foldChildAttribution entry.targetId entry.childUsage entry.aggregateUsage }
    | "compaction" | "branch_summary" =>
      some { acc with usageScan := acc.usageScan.foldSummarization entry.usage }
    | "message" =>
      let acc := { acc with messageCount := acc.messageCount + 1 }
      match entry.message with
      | some message => some (acc.foldMessage entry.id message)
      | none => some acc
    | _ => some acc

/-! ## The scan -/

structure SessionInfoGeneration where
  len : Nat
  dev : Nat
  ino : Nat
  mtime : Int
  mtimeNs : Int
  ctime : Int
  ctimeNs : Int
deriving DecidableEq

structure SessionInfo where
  path : String
  id : String
  cwd : String
  name : Option String
  state : Option String
  model : Option (String × String)
  thinkingLevel : Option String
  parentSessionPath : Option String
  rlmDepth : Nat
  created : String
  modified : String
  messageCount : Nat
  firstMessage : String
  allMessagesText : Text
  usage : Option SessionUsageSummary
  deletedDescendantUsage : Option SessionUsageSummary
deriving DecidableEq

def sessionScanResumeTailBytes : Nat :=
  16

structure SessionScanState where
  generation : SessionInfoGeneration
  acc : SessionScanAccumulator
  /-- Bytes consumed through the end of the last complete line. -/
  offset : Nat
  tail : Bytes
  info : Option SessionInfo

namespace SessionScanState

def fresh (generation : SessionInfoGeneration) : SessionScanState :=
  { generation, acc := .default, offset := 0, tail := List.replicate sessionScanResumeTailBytes newline, info := none }

def cloneForResume (state : SessionScanState) : SessionScanState :=
  { state with info := none }

def sameFileIdentity (state : SessionScanState) (generation : SessionInfoGeneration) : Bool :=
  state.generation.dev = generation.dev ∧ state.generation.ino = generation.ino

def advanceTail (tail line : Bytes) : Bytes :=
  let keep := sessionScanResumeTailBytes - 1
  if line.length ≥ keep then line.drop (line.length - keep) ++ [newline]
  else tail.drop (line.length + 1) ++ line ++ [newline]

def prefixIntact (state : SessionScanState) (content : Bytes) : Bool :=
  if state.offset = 0 then true
  else
    let start := state.offset - sessionScanResumeTailBytes
    let len := state.offset - start
    let readBack := (content.drop start).take len
    readBack.length = len ∧ readBack = state.tail.drop (state.tail.length - len)

def scanFromCursor (serde : InfoSerde) (size : Nat) (state : SessionScanState) :
    List Bytes → Option (SessionScanState × Text)
  | [] => some (state, [])
  | consumed :: rest => do
    let line ← Utf8.decode consumed
    let complete := consumed.getLast? = some newline
    if ¬complete ∧ state.offset + consumed.length ≥ size then some (state, line)
    else
      let line := if complete then line.dropLast else line
      let acc ← foldScanEntry serde state.acc line
      let state :=
        { state with acc, offset := state.offset + consumed.length, tail := advanceTail state.tail (utf8 line) }
      if complete then state.scanFromCursor serde size rest else some (state, [])

end SessionScanState

/-! ## The row -/

def parseU32 (bytes : Bytes) (start stop : Nat) : Option Nat :=
  let field := (bytes.drop start).take (stop - start)
  if field.all (· < 128) then parseUnsigned 32 (field.map fun b => Char.ofNat b.toNat) else none

def daysFromCivil (y : Int) (m d : Nat) : Int :=
  let y := if m ≤ 2 then y - 1 else y
  let era := y / 400
  let yoe := y % 400
  let mp : Int := (m + 9) % 12
  let doy := (153 * mp + 2) / 5 + d - 1
  let doe := yoe * 365 + yoe / 4 - yoe / 100 + doy
  era * 146097 + doe - 719468

def daysInMonth (year : Int) (month : Nat) : Nat :=
  if month ∈ [1, 3, 5, 7, 8, 10, 12] then 31
  else if month ∈ [4, 6, 9, 11] then 30
  else if month = 2 ∧ ((year % 4 = 0 ∧ year % 100 ≠ 0) ∨ year % 400 = 0) then 29
  else 28

def fractionMillis (fraction : Text) : Option Nat :=
  let digits := fraction.takeWhile fun c => (digit? c).isSome
  if digits = [] then none
  else some (((digits.take 3).rightpad 3 '0').foldl (fun n c => 10 * n + ((digit? c).getD 0).toNat) 0)

def isoToUnixMs (iso : String) : Option Nat := do
  let bytes := utf8 iso.toList
  let at? (i : Nat) : Option Char := bytes[i]?.map fun b => Char.ofNat b.toNat
  if bytes.length < 19 ∨ at? 4 ≠ some '-' ∨ at? 7 ≠ some '-' ∨ (at? 10 ≠ some 'T' ∧ at? 10 ≠ some ' ')
      ∨ at? 13 ≠ some ':' ∨ at? 16 ≠ some ':' then none
  else
    let year ← numAt bytes 0 4
    let month ← parseU32 bytes 5 7
    let day ← parseU32 bytes 8 10
    let hour ← parseU32 bytes 11 13
    let minute ← parseU32 bytes 14 16
    let second ← parseU32 bytes 17 19
    let millis ←
      if bytes.length > 20 ∧ at? 19 = some '.' then (sliceFrom 20 iso.toList).bind fractionMillis else some 0
    if ¬(1 ≤ month ∧ month ≤ 12) ∨ day = 0 ∨ day > 31 ∨ hour > 23 ∨ minute > 59 ∨ second > 59 then none
    else if day > daysInMonth year month then none
    else
      let secs := daysFromCivil year month day * 86400 + hour * 3600 + minute * 60 + second
      if secs < 0 then none else some (secs * 1000 + millis).toNat

def civilFromDays (z : Int) : Int × Int × Int :=
  let z := z + 719468
  let era := z / 146097
  let doe := z % 146097
  let yoe := (doe - doe / 1460 + doe / 36524 - doe / 146096) / 365
  let y := yoe + era * 400
  let doy := doe - (365 * yoe + yoe / 4 - yoe / 100)
  let mp := (5 * doy + 2) / 153
  let d := doy - (153 * mp + 2) / 5 + 1
  let m := if mp < 10 then mp + 3 else mp - 9
  (if m ≤ 2 then y + 1 else y, m, d)

def isoFromUnixMs (ms : Nat) : String :=
  let secs : Int := ms / 1000
  let (year, month, day) := civilFromDays (secs / 86400)
  let secsOfDay := secs % 86400
  String.ofList (padded 4 year ++ '-' :: padded 2 month ++ '-' :: padded 2 day
    ++ 'T' :: padded 2 (secsOfDay / 3600) ++ ':' :: padded 2 (secsOfDay % 3600 / 60)
    ++ ':' :: padded 2 (secsOfDay % 60) ++ '.' :: padded 3 (ms % 1000 : Nat) ++ ['Z'])

namespace SessionScanState

/-- The row of an accumulator; `statsMtimeMs` is the file's last resort for its time. -/
def rowOf (path : String) (statsMtimeMs : Option Nat) (acc : SessionScanAccumulator) : Option SessionInfo :=
  acc.header.map fun header =>
    let modifiedMs := (acc.lastActivityMs.filter (· > 0)).or ((isoToUnixMs header.timestamp).or statsMtimeMs)
    { path, id := header.id, cwd := header.cwd, name := acc.name, state := acc.state, model := acc.model
      thinkingLevel := acc.thinkingLevel, parentSessionPath := header.parentSession
      rlmDepth := header.rlmDepth.getD 0 % 2 ^ 32, created := header.timestamp
      modified := (modifiedMs.map isoFromUnixMs).getD "", messageCount := acc.messageCount
      firstMessage := if acc.firstMessage = "" then "(no messages)" else acc.firstMessage
      allMessagesText := acc.allMessagesText, usage := acc.usageScan.summary, deletedDescendantUsage := none }

def buildInfo (serde : InfoSerde) (state : SessionScanState) (path : String) (statsMtimeMs : Option Nat) (torn : Text) :
    Option SessionInfo :=
  if trim torn = [] then rowOf path statsMtimeMs state.acc
  else (foldScanEntry serde state.acc torn).bind (rowOf path statsMtimeMs)

end SessionScanState

/-! ## The file and its cached scan -/

structure File where
  content : Bytes
  dev : Nat
  ino : Nat
  mtime : Int
  mtimeNs : Int
  ctime : Int
  ctimeNs : Int

namespace File

def generation (file : File) : SessionInfoGeneration :=
  { len := file.content.length, dev := file.dev, ino := file.ino, mtime := file.mtime, mtimeNs := file.mtimeNs
    ctime := file.ctime, ctimeNs := file.ctimeNs }

def statsMtimeMs (file : File) : Option Nat :=
  let ms := file.mtime * 1000 + file.mtimeNs / 1000000
  if file.mtime < 0 then none else some ms.toNat

end File

def resumeState (file : File) (cached : Option SessionScanState) : SessionScanState :=
  match cached with
  | some cached =>
    if cached.sameFileIdentity file.generation ∧ file.generation.len > cached.generation.len
        ∧ cached.prefixIntact file.content then
      cached.cloneForResume
    else .fresh file.generation
  | none => .fresh file.generation

def scanFile (serde : InfoSerde) (path : String) (file : File) (state : SessionScanState) :
    Option (SessionScanState × SessionInfo) :=
  (state.scanFromCursor serde file.generation.len (Pieces.pieces newline (file.content.drop state.offset))).bind
    fun (state, torn) => (state.buildInfo serde path file.statsMtimeMs torn).map (state, ·)

/-- `read_session_info` of a file that nobody changes meanwhile, with the scan cached after it. -/
def readSessionInfo (serde : InfoSerde) (path : String) (file : File) (cached : Option SessionScanState) :
    Option SessionInfo × Option SessionScanState :=
  match cached.filter (·.generation = file.generation) with
  | some cached => (cached.info, some cached)
  | none =>
    match scanFile serde path file (resumeState file cached) with
    | some (state, info) =>
      if state.acc.lastActivityMs.getD 0 > 0 then
        (some info, some { state with generation := file.generation, info := some info })
      else (some info, cached)
    | none => (none, cached)

end PrimeAgent.SessionStore
