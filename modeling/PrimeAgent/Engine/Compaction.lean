import PrimeAgent.Session.Context
import PrimeAgent.Session.Serde

/-! # Compaction: the cut and what it hands to the summarizer

The decision half of a compaction: token estimates, the cut point, the boundary of the compaction
before, and the messages of the rows in between.
-/
namespace PrimeAgent

/-- `u64::MAX`. -/
def u64Max : Nat :=
  2 ^ 64 - 1

def chars (text : String) : Nat :=
  text.toList.length

/-- `chars.div_ceil(4)`. -/
def div4 (n : Nat) : Nat :=
  (n + 3) / 4

def textBlockChars : UserContentBlock → Nat
  | .text content => chars content.text
  | _ => 0

def sizedBlockChars : UserContentBlock → Nat
  | .text content => chars content.text
  | .image _ => 4800
  | .raw _ => 0

def assistantBlockChars (serde : Serde) : AssistantContentBlock → Nat
  | .text content => chars content.text
  | .thinking content => chars content.thinking
  | .toolCall call => chars call.name + (serde.writeMap call.arguments).length

/-- The chars/4 heuristic of `estimate_tokens`. -/
def estimateTokens (serde : Serde) : AgentMessage → Nat
  | .user message => match message.content with
    | .text text => div4 (chars text)
    | .blocks blocks => div4 (blocks.map textBlockChars).sum
  | .assistant message => div4 (message.content.map (assistantBlockChars serde)).sum
  | .custom message => match message.content with
    | .text text => div4 (chars text)
    | .blocks blocks => div4 (blocks.map sizedBlockChars).sum
  | .toolResult message => div4 (message.content.map sizedBlockChars).sum
  | .bashExecution message => div4 (chars message.command + chars message.output)
  | .branchSummary message => div4 (chars message.summary)
  | .compactionSummary message => div4 (chars message.summary)

def isValidCutPoint : FileEntry → Bool
  | .message (.toolResult _) _ => false
  | .message _ _ => true
  | .branchSummary _ _ => true
  | .customMessage _ _ => true
  | _ => false

/-- The positions `start ≤ i < stop` of a list, with what stands there. -/
def positionsIn (entries : List FileEntry) (start stop : Nat) : List (FileEntry × Nat) :=
  (entries.zipIdx.take (min stop entries.length)).drop start

def findValidCutPoints (entries : List FileEntry) (start stop : Nat) : List Nat :=
  ((positionsIn entries start stop).filter fun row => isValidCutPoint row.1).map (·.2)

def startsTurn : FileEntry → Bool
  | .branchSummary _ _ => true
  | .customMessage _ _ => true
  | .message (.user _) _ => true
  | .message (.bashExecution _) _ => true
  | _ => false

def findTurnStartIndex (entries : List FileEntry) (entryIndex start : Nat) : Option Nat :=
  (List.range' start (entryIndex + 1 - start)).reverse.find? fun i => (entries[i]?).any startsTurn

structure CutPointResult where
  firstKeptEntryIndex : Nat
  turnStartIndex : Option Nat
  isSplitTurn : Bool
deriving DecidableEq, Repr

def scanBack (serde : Serde) (cutPoints : List Nat) (keepRecentTokens : Nat) :
    List (FileEntry × Nat) → Nat → Nat
  | [], _ => cutPoints.headD 0
  | (.message message _, i) :: rows, accumulated =>
    let accumulated := min (accumulated + estimateTokens serde message) u64Max
    if keepRecentTokens ≤ accumulated then
      (cutPoints.find? (i ≤ ·)).getD (cutPoints.getLastD 0)
    else scanBack serde cutPoints keepRecentTokens rows accumulated
  | _ :: rows, accumulated => scanBack serde cutPoints keepRecentTokens rows accumulated

def stopsWalkBack : FileEntry → Bool
  | .compaction _ _ => true
  | .message _ _ => true
  | _ => false

/-- `while cut_index > start_index { … cut_index -= 1 }`. -/
def walkBack (entries : List FileEntry) (start : Nat) : Nat → Nat
  | 0 => 0
  | cut + 1 =>
    if start < cut + 1 ∧ ¬ (entries[cut]?).any stopsWalkBack then walkBack entries start cut else cut + 1

def isUserMessage : FileEntry → Bool
  | .message (.user _) _ => true
  | _ => false

def findCutPoint (serde : Serde) (entries : List FileEntry) (start stop keepRecentTokens : Nat) : CutPointResult :=
  let cutPoints := findValidCutPoints entries start stop
  if cutPoints.isEmpty then ⟨start, none, false⟩
  else
    let scanned := scanBack serde cutPoints keepRecentTokens (positionsIn entries start stop).reverse 0
    let cutIndex := walkBack entries start scanned
    let isUser := (entries[cutIndex]?).any isUserMessage
    let turnStartIndex := if isUser then none else findTurnStartIndex entries cutIndex start
    ⟨cutIndex, turnStartIndex, !isUser && turnStartIndex.isSome⟩

/-- `message_from_entry`: what a row is to the summarizer. -/
def messageFromEntry (entry : FileEntry) : Option AgentMessage :=
  match entry with
  | .message (.toolResult _) _ => none
  | .message message _ => some message
  | .customMessage payload _ =>
    if payload.customType == harnessDigestCustomType then none
    else some (.custom (createCustomMessage payload entry))
  | .branchSummary payload _ =>
    some (.branchSummary ⟨payload.summary, payload.fromId, timestampToMillis entry.timestamp⟩)
  | _ => none

def findText (pattern : Text) : Text → Option Nat
  | [] => if pattern.isEmpty then some 0 else none
  | c :: text => if pattern.isPrefixOf (c :: text) then some 0 else (findText pattern text).map (· + 1)

def nextFileListTag (rest : Text) : Option (Nat × Text) :=
  let find := fun tag : String => (findText (("<" ++ tag ++ ">").toList) rest).map (·, tag.toList)
  match find "read-files", find "modified-files" with
  | some read, some modified => if read.1 ≤ modified.1 then some read else some modified
  | read, modified => read <|> modified

/-- The loop of `strip_file_list_blocks`; each turn consumes an open tag, so the length is fuel enough. -/
def stripLoop : Nat → Text → Text → Text
  | 0, result, rest => result ++ rest
  | fuel + 1, result, rest =>
    match nextFileListTag rest with
    | none => result ++ rest
    | some (pos, tag) =>
      let close := ['<', '/'] ++ tag ++ ['>']
      let afterOpen := pos + tag.length + 2
      match findText close (rest.drop afterOpen) with
      | none => stripLoop fuel (result ++ rest.take afterOpen) (rest.drop afterOpen)
      | some offset =>
        stripLoop fuel (result ++ (rest.take pos).rdropWhile (· == '\n'))
          (rest.drop (afterOpen + offset + close.length))

def stripFileListBlocks (summary : String) : Text :=
  trimEnd (stripLoop (summary.toList.length + 1) [] summary.toList)

/-- `RECENT_STATE_ANCHOR_MAX_CHARS`. -/
def recentStateAnchorMaxChars : Nat :=
  2000

def assistantText (message : AssistantMessage) : Text :=
  trim (List.intercalate ['\n'] (message.content.filterMap fun
    | .text content => some content.text.toList
    | _ => none))

def extractRecentStateAnchor (entries : List FileEntry) (keptStart keptEnd : Nat) : Option Text :=
  ((entries.take keptEnd).drop keptStart).reverse.findSome? fun entry =>
    match messageFromEntry entry with
    | some (.assistant message) =>
      let text := assistantText message
      if text.isEmpty then none else some (text.drop (text.length - recentStateAnchorMaxChars))
    | _ => none

inductive CompactSkip where
  | alreadyCompacted | tooShort
deriving DecidableEq, Repr

structure CompactionPreparation where
  cut : CutPointResult
  boundaryStart : Nat
  previousSummary : Option Text
  recentStateAnchor : Option Text
deriving DecidableEq

def previousCompaction (entries : List FileEntry) : Option (CompactionEntry × Nat) :=
  entries.zipIdx.reverse.findSome? fun
    | (.compaction payload _, index) => some (payload, index)
    | _ => none

/-- `boundary_start`: what the compaction before has not summarized yet starts here. -/
def boundaryStart (entries : List FileEntry) : Nat :=
  match previousCompaction entries with
  | some (payload, index) => (entries.findIdx? (·.id == some payload.firstKeptEntryId)).getD (index + 1)
  | none => if (entries.head?).any (·.isHeader) then 1 else 0

def previousSummary (entries : List FileEntry) : Option Text :=
  (previousCompaction entries).bind fun (payload, _) =>
    let stripped := stripFileListBlocks payload.summary
    if stripped.isEmpty then none else some stripped

/-- `history_end`. -/
def CutPointResult.historyEnd (cut : CutPointResult) : Nat :=
  if cut.isSplitTurn then cut.turnStartIndex.getD cut.firstKeptEntryIndex else cut.firstKeptEntryIndex

/-- The messages of the rows `start ≤ i < stop`. -/
def messagesBetween (entries : List FileEntry) (start stop : Nat) : List AgentMessage :=
  ((entries.take stop).drop start).filterMap messageFromEntry

def prepareCompaction (serde : Serde) (entries : List FileEntry) (keepRecentTokens : Nat) :
    Except CompactSkip CompactionPreparation :=
  if (entries.getLast?).any (·.isCompaction) then .error .alreadyCompacted
  else
    let boundary := boundaryStart entries
    let summary := previousSummary entries
    let cut := findCutPoint serde entries boundary entries.length keepRecentTokens
    let messages := messagesBetween entries boundary cut.historyEnd
    let turnPrefixMessages := messagesBetween entries cut.historyEnd cut.firstKeptEntryIndex
    if messages.isEmpty ∧ turnPrefixMessages.isEmpty ∧ summary.isNone then .error .tooShort
    else .ok
      { cut := cut
        boundaryStart := boundary
        previousSummary := summary
        recentStateAnchor := extractRecentStateAnchor entries cut.firstKeptEntryIndex entries.length }

/-- `history` of `execute_compaction`. -/
def CompactionPreparation.history (entries : List FileEntry) (preparation : CompactionPreparation) :
    List AgentMessage :=
  messagesBetween entries preparation.boundaryStart preparation.cut.historyEnd

/-- `turn_prefix_messages` of `execute_compaction`. -/
def CompactionPreparation.turnPrefixMessages (entries : List FileEntry) (preparation : CompactionPreparation) :
    List AgentMessage :=
  messagesBetween entries preparation.cut.historyEnd preparation.cut.firstKeptEntryIndex

end PrimeAgent
