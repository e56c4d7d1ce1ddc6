import PrimeAgent.Manager.Persist

/-! # The append operations

Every operation that adds a row: the strict ones leave the manager as it was when the write fails, the
retained ones keep the row in memory. A panic is `none`.
-/
namespace PrimeAgent

namespace SessionManager

def nextBase (m : SessionManager) (env : Env) : EntryBase where
  id := some (generateId m.byId.contains (env.ids 0))
  parentId := m.leafId
  timestamp := some env.now

def push (m : SessionManager) (entry : FileEntry) : SessionManager :=
  { m with
    hasAssistantEntry := m.hasAssistantEntry || entry.assistant?.isSome
    fileEntries := m.fileEntries ++ [entry] }

def indexLast (m : SessionManager) (entry : FileEntry) : SessionManager :=
  m.setIndex (m.index.addId entry.id (m.fileEntries.length - 1))

def setLeafId (m : SessionManager) (leafId : Option String) : SessionManager :=
  { m with leafId := leafId }

def applyLabelEntry (m : SessionManager) (targetId : String) (label : Option String) (timestamp : String) :
    SessionManager :=
  m.setIndex (m.index.applyLabel targetId label timestamp)

def assistantPosition (m : SessionManager) (targetId : String) : Option Nat :=
  (m.byId.get targetId).filter fun position => ((m.fileEntries[position]?).bind FileEntry.assistant?).isSome

def foldUsage (m : SessionManager) (position : Nat) (usage : Usage) : SessionManager :=
  { m with fileEntries := m.fileEntries.modify position (FileEntry.setUsage usage) }

end SessionManager

namespace World

variable (serde : Serde) (env : Env)

def onManager (w : World) (f : SessionManager → SessionManager) : World :=
  { w with manager := f w.manager }

def pushRow (retain : Bool) (w : World) (entry : FileEntry) : World × Option StoreError :=
  let pushed := w.onManager (·.push entry)
  match persistEntry serde env pushed entry with
  | .ok written => (written.onManager (·.indexLast entry), none)
  | .error error => (if retain then pushed.onManager (·.indexLast entry) else w, some error)

/-- `append_entry` on a fresh base, with the id it returns. -/
def append (w : World) (build : EntryBase → FileEntry) : World × Except StoreError String :=
  let base := w.manager.nextBase env
  match pushRow serde env false w (build base) with
  | (w', none) => (w', .ok (base.id.getD ""))
  | (w', some error) => (w', .error error)

def appendRetained (w : World) (build : EntryBase → FileEntry) : World × String × Option StoreError :=
  let base := w.manager.nextBase env
  let (w', error) := pushRow serde env true w (build base)
  (w', base.id.getD "", error)

def appendMessage (w : World) (message : AgentMessage) : World × Except StoreError String :=
  append serde env w (.message message)

def appendMessageRetained (w : World) (message : AgentMessage) : World × String × Option StoreError :=
  appendRetained serde env w (.message message)

def appendThinkingLevelChange (w : World) (thinkingLevel : String) : World × Except StoreError String :=
  append serde env w (.thinkingLevelChange ⟨thinkingLevel⟩)

def appendServiceTierChange (w : World) (serviceTier : Option ServiceTier) : World × Except StoreError String :=
  append serde env w (.serviceTierChange ⟨serviceTier⟩)

def appendModelChange (w : World) (provider modelId : String) : World × Except StoreError String :=
  append serde env w (.modelChange ⟨provider, modelId⟩)

def appendCompaction (w : World) (payload : CompactionEntry) : World × Except StoreError String :=
  append serde env w (.compaction payload)

def appendCustomEntry (w : World) (customType : String) (data : Option Json) : World × Except StoreError String :=
  append serde env w (.custom ⟨customType, data⟩)

def appendCustomEntryRetained (w : World) (customType : String) (data : Option Json) :
    World × String × Option StoreError :=
  appendRetained serde env w (.custom ⟨customType, data⟩)

def appendCustomMessage (w : World) (customType : String) (content : UserContent) (display : Bool)
    (details : Option Json) : World × Except StoreError String :=
  append serde env w (.customMessage ⟨customType, content, details, display⟩)

def appendCustomMessageRetained (w : World) (customType : String) (content : UserContent) (display : Bool)
    (details : Option Json) : World × String × Option StoreError :=
  appendRetained serde env w (.customMessage ⟨customType, content, details, display⟩)

def appendCustomMessageEntry (w : World) (customType : String) (content : UserContent) (display : Bool)
    (details : Option Json) : World × Except StoreError String :=
  append serde env w (.customMessage ⟨customType, content, details, display⟩)

def appendSessionInfo (w : World) (name : String) : World × Except StoreError String :=
  append serde env w (.sessionInfo ⟨some (String.ofList (trim name.toList))⟩)

def appendSessionState (w : World) (status : SessionStateStatus) : World × Except StoreError String :=
  append serde env w (.sessionState ⟨⟨status⟩⟩)

def appendGitState (w : World) (git : GitContext) : World × Except StoreError String :=
  append serde env w (.gitState ⟨git⟩)

def appendChildUsageAttribution (w : World) (targetId : String) (childUsage aggregateUsage : Usage)
    (origin : Option ChildUsageOrigin) : World × Except StoreError String :=
  match w.manager.assistantPosition targetId with
  | none => (w, .error (.invalidInput ("Assistant message entry " ++ targetId ++ " not found")))
  | some position =>
    match append serde env w (.childUsageAttributed ⟨targetId, childUsage, aggregateUsage, origin⟩) with
    -- folded only after the durable append
    | (w', .ok id) => (w'.onManager (·.foldUsage position aggregateUsage), .ok id)
    | (w', .error error) => (w', .error error)

def appendLabelChange (w : World) (targetId : String) (label : Option String) :
    Option (World × Except StoreError String) :=
  if (w.manager.getEntryById targetId).isNone then none
  else some <| match append serde env w (.label ⟨targetId, label⟩) with
    | (w', .ok id) => (w'.onManager (·.applyLabelEntry targetId label env.now), .ok id)
    | (w', .error error) => (w', .error error)

def branch (w : World) (branchFromId : String) : Option World :=
  if (w.manager.getEntryById branchFromId).isNone then none
  else some (w.onManager (·.setLeafId (some branchFromId)))

def resetLeaf (w : World) : World :=
  w.onManager (·.setLeafId none)

def branchWithSummary (w : World) (branchFromId : Option String) (summary : String) (details : Option Json)
    (fromHook : Option Bool) (usage : Option Usage) : Option (World × Except StoreError String) :=
  if branchFromId.any fun id => (w.manager.getEntryById id).isNone then none
  else
    let previousLeaf := w.manager.leafId
    some <| match append serde env (w.onManager (·.setLeafId branchFromId))
        (.branchSummary ⟨branchFromId.getD "root", summary, details, fromHook, usage⟩) with
      | (w', .ok id) => (w', .ok id)
      | (w', .error error) => (w'.onManager (·.setLeafId previousLeaf), .error error)

end World

end PrimeAgent

/-! ## The life of a manager

The constructors, and the operations that replace the rows a manager holds.
-/
namespace PrimeAgent

structure NewSessionOptions where
  id : Option String
  parentSession : Option String
  rlmDepth : Option Nat

def NewSessionOptions.default : NewSessionOptions where
  id := none
  parentSession := none
  rlmDepth := none

/-- `Path::join`. -/
def joinPath (dir : Path) (name : String) : Path :=
  if name.startsWith "/" ∨ dir = "" then name
  else if dir.endsWith "/" then dir ++ name
  else dir ++ "/" ++ name

def getSessionFilePath (sessionDir : Path) (sessionId : String) : Path :=
  joinPath sessionDir (sessionId ++ ".jsonl")

/-- `is_valid_rlm_depth`. -/
def isValidRlmDepth (value : Option Nat) : Bool :=
  value.any (· < 2 ^ 64 - 1)

/-- `resolve_session_rlm_depth`. -/
def resolveSessionRlmDepth (header : SessionHeader) : Nat :=
  if isValidRlmDepth header.rlmDepth then header.rlmDepth.getD 0 else 0

/-- The first session id without a file: the first draw serves where an id is given, and after a hundred
more the last one is taken as it is. -/
def createUniqueSessionId (env : Env) (disk : Disk) (sessionDir : Path) : String :=
  (((List.range 100).map fun n => env.sessionIds (n + 1)).find? fun id =>
    !disk.contains (getSessionFilePath sessionDir id)).getD (env.sessionIds 101)

namespace World

variable (serde : Serde) (env : Env)

/-- `new_session`; an explicit id whose file exists panics. -/
def newSession (w : World) (options : NewSessionOptions) : Option World :=
  let m := w.manager
  let sessionId :=
    if m.persist then options.id.getD (createUniqueSessionId env w.disk m.sessionDir)
    else options.id.getD (env.sessionIds 0)
  if m.persist ∧ options.id.any (fun id => w.disk.contains (getSessionFilePath m.sessionDir id)) then none
  else
    let header : SessionHeader :=
      { version := some currentSessionVersion
        id := sessionId
        timestamp := env.now
        cwd := m.cwd
        parentSession := options.parentSession
        rlmDepth := match options.rlmDepth with
          | some depth => some depth
          | none => (options.parentSession.map fun _ => 0).or (some env.rootRlmDepth)
        git := if m.persist then env.git else none }
    some
      { w with manager :=
        { m with
          sessionId := sessionId
          fileEntries := [.header header]
          hasAssistantEntry := false
          byId := KeyMap.empty
          labelsById := KeyMap.empty
          labelTimestampsById := KeyMap.empty
          leafId := none
          flushed := false
          sessionFile := if m.persist then some (getSessionFilePath m.sessionDir sessionId) else m.sessionFile } }

def newDefaultSession (w : World) : World :=
  (newSession env w NewSessionOptions.default).getD w

def upgradeEntries (entries : List FileEntry) : List FileEntry × Bool :=
  let migrated := migrateToCurrentVersion env.ids entries
  match migrated.1 with
  | .header header :: rest =>
    if header.parentSession.isSome ∧ ¬ isValidRlmDepth header.rlmDepth then
      (.header { header with rlmDepth := some (resolveSessionRlmDepth header) } :: rest, true)
    else migrated
  | _ => migrated

def headerId (entries : List FileEntry) : Option String :=
  entries.findSome? fun
    | .header header => some header.id
    | _ => none

def readEntries (w : World) (sessionFile : Path) (preloadedEntries : Option (List FileEntry)) :
    Disk × List FileEntry :=
  match preloadedEntries with
  | some entries => (w.disk, entries)
  | none => loadEntriesFromFile serde env.canRepair w.disk sessionFile w.manager.persist

def setSessionFile (w : World) (sessionFile : Path) (preloadedEntries : Option (List FileEntry)) : World :=
  let w := w.onManager fun m => { m with sessionFile := some sessionFile }
  if w.disk.contains sessionFile then
    let read := readEntries serde env w sessionFile preloadedEntries
    let w : World := { manager := w.manager.refreshHasAssistantEntry read.2, disk := read.1 }
    if read.2.isEmpty then
      -- empty or corrupted: truncate and start fresh
      let w := (newDefaultSession env w).onManager fun m => { m with sessionFile := some sessionFile }
      (rewriteFile serde env w).setFlushed true
    else
      let upgraded := upgradeEntries env read.2
      let w := w.onManager fun m =>
        { m with sessionId := (headerId read.2).getD (env.sessionIds 0), fileEntries := upgraded.1 }
      let w := if upgraded.2 then rewriteFile serde env w else w
      (w.onManager SessionManager.buildIndex).setFlushed true
  else
    (newDefaultSession env w).onManager fun m => { m with sessionFile := some sessionFile }

def materializedHeader (m : SessionManager) : SessionHeader where
  version := some currentSessionVersion
  id := env.sessionIds 0
  timestamp := env.now
  cwd := m.cwd
  parentSession := m.getHeader.bind (·.parentSession)
  rlmDepth := some ((m.getHeader.bind (·.rlmDepth)).getD 0)
  git := env.git

def materializeSessionFile (w : World) (sessionDir : Option Path) : World :=
  let m := w.manager
  match m.sessionFile with
  | some _ => w
  | none =>
    let dir := (sessionDir.or (if m.sessionDir = "" then none else some m.sessionDir)).getD
      (joinPath m.cwd "sessions")
    let w := { w with manager :=
      ({ m with
        sessionDir := dir
        sessionId := env.sessionIds 0
        sessionFile := some (getSessionFilePath dir (env.sessionIds 0))
        persist := true
        fileEntries := .header (materializedHeader env m) :: m.fileEntries } : SessionManager).refreshHasAssistantEntry m.fileEntries }
    (rewriteFile serde env w).setFlushed true

/-- `adopt_entries`: what comes after the header is replaced, and the index follows. -/
def adoptEntries (w : World) (entries : List FileEntry) : World :=
  w.onManager fun m =>
    ({ m with fileEntries := match m.fileEntries.findIdx? (·.isHeader) with
        | some index => m.fileEntries.take (index + 1) ++ entries
        | none => entries } : SessionManager).buildIndex

/-- The record `new_with` starts from. -/
def blankManager (cwd sessionDir : Path) (persist : Bool) : SessionManager where
  sessionId := ""
  sessionFile := none
  sessionDir := sessionDir
  cwd := cwd
  persist := persist
  flushed := false
  hasAssistantEntry := false
  fileEntries := []
  byId := KeyMap.empty
  labelsById := KeyMap.empty
  labelTimestampsById := KeyMap.empty
  leafId := none

def newWith (disk : Disk) (cwd sessionDir : Path) (sessionFile : Option Path) (persist : Bool) : World :=
  let w : World := { manager := blankManager cwd sessionDir persist, disk := disk }
  match sessionFile with
  | some file => setSessionFile serde env w file none
  | none => newDefaultSession env w

def persisted (disk : Disk) (cwd sessionDir : Path) : World :=
  newWith serde env disk cwd sessionDir none true

def inMemory (disk : Disk) (cwd : Path) : World :=
  newWith serde env disk cwd cwd none false

def inMemoryInSessionDir (disk : Disk) (cwd sessionDir : Path) : World :=
  newWith serde env disk cwd sessionDir none false

/-- `open`. -/
def openFile (disk : Disk) (cwd sessionDir sessionFile : Path) : World :=
  newWith serde env disk cwd sessionDir (some sessionFile) true

end World

end PrimeAgent
