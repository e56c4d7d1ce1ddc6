import PrimeAgent.Types.Ai

/-! # Session entries

One row of a session file is a `FileEntry`: the header, or a tree entry with its own `id` and its
parent's. A row of an unknown kind, or of a known kind whose payload does not decode, is `unknown`
and keeps its object verbatim.
-/
namespace PrimeAgent

structure GitContext where
  repoUrl : Option String
  commit : Option String
  branch : Option String
deriving DecidableEq

structure SessionHeader where
  version : Option Nat
  id : String
  timestamp : String
  cwd : String
  parentSession : Option String
  rlmDepth : Option Nat
  git : Option GitContext
deriving DecidableEq

structure BashExecutionMessage where
  command : String
  output : String
  exitCode : Option Int
  cancelled : Bool
  truncated : Bool
  fullOutputPath : Option String
  timestamp : Nat
  excludeFromContext : Option Bool
deriving DecidableEq

structure CustomMessage where
  customType : String
  content : UserContent
  display : Bool
  details : Option Json
  timestamp : Nat
deriving DecidableEq

structure BranchSummaryMessage where
  summary : String
  fromId : String
  timestamp : Nat
deriving DecidableEq

structure CompactionSummaryMessage where
  summary : String
  tokensBefore : Nat
  retainedMessageCount : Option Nat
  customInstructions : Option String
  harnessDigest : Option String
  harnessStateFingerprint : Option String
  timestamp : Nat
deriving DecidableEq

inductive AgentMessage where
  | user (message : UserMessage)
  | assistant (message : AssistantMessage)
  | toolResult (message : ToolResultMessage)
  | bashExecution (message : BashExecutionMessage)
  | custom (message : CustomMessage)
  | branchSummary (message : BranchSummaryMessage)
  | compactionSummary (message : CompactionSummaryMessage)
deriving DecidableEq

structure EntryBase where
  id : Option String
  parentId : Option String
  timestamp : Option String
deriving DecidableEq

structure ThinkingLevelChangeEntry where
  thinkingLevel : String
deriving DecidableEq

structure ServiceTierChangeEntry where
  serviceTier : Option ServiceTier
deriving DecidableEq

structure ModelChangeEntry where
  provider : String
  modelId : String
deriving DecidableEq

structure CompactionEntry where
  summary : String
  firstKeptEntryId : String
  tokensBefore : Nat
  details : Option Json
  fromHook : Option Bool
  customInstructions : Option String
  usage : Option Usage
  harnessDigest : Option String
  harnessStateFingerprint : Option String
deriving DecidableEq

structure BranchSummaryEntry where
  fromId : String
  summary : String
  details : Option Json
  fromHook : Option Bool
  usage : Option Usage
deriving DecidableEq

structure CustomEntry where
  customType : String
  data : Option Json
deriving DecidableEq

inductive ChildUsageOrigin where
  | spawnTask | agentMessage | directUser
deriving DecidableEq, Repr

structure ChildUsageAttributionEntry where
  targetId : String
  childUsage : Usage
  aggregateUsage : Usage
  origin : Option ChildUsageOrigin
deriving DecidableEq

structure LabelEntry where
  targetId : String
  label : Option String
deriving DecidableEq

structure SessionInfoEntry where
  name : Option String
deriving DecidableEq

inductive SessionStateStatus where
  | active | archived | crash
deriving DecidableEq, Repr

structure SessionState where
  status : SessionStateStatus
deriving DecidableEq

structure SessionStateEntry where
  state : SessionState
deriving DecidableEq

structure GitStateEntry where
  git : GitContext
deriving DecidableEq

structure CustomMessageEntry where
  customType : String
  content : UserContent
  details : Option Json
  display : Bool
deriving DecidableEq

inductive FileEntry where
  | header (header : SessionHeader)
  | message (message : AgentMessage) (base : EntryBase)
  | thinkingLevelChange (payload : ThinkingLevelChangeEntry) (base : EntryBase)
  | serviceTierChange (payload : ServiceTierChangeEntry) (base : EntryBase)
  | modelChange (payload : ModelChangeEntry) (base : EntryBase)
  | compaction (payload : CompactionEntry) (base : EntryBase)
  | branchSummary (payload : BranchSummaryEntry) (base : EntryBase)
  | custom (payload : CustomEntry) (base : EntryBase)
  | childUsageAttributed (payload : ChildUsageAttributionEntry) (base : EntryBase)
  | label (payload : LabelEntry) (base : EntryBase)
  | sessionInfo (payload : SessionInfoEntry) (base : EntryBase)
  | sessionState (payload : SessionStateEntry) (base : EntryBase)
  | gitState (payload : GitStateEntry) (base : EntryBase)
  | customMessage (payload : CustomMessageEntry) (base : EntryBase)
  | unknown (rest : JsonMap)
deriving DecidableEq

namespace FileEntry

def base? : FileEntry → Option EntryBase
  | .header _ | .unknown _ => none
  | .message _ base | .thinkingLevelChange _ base | .serviceTierChange _ base | .modelChange _ base
  | .compaction _ base | .branchSummary _ base | .custom _ base | .childUsageAttributed _ base
  | .label _ base | .sessionInfo _ base | .sessionState _ base | .gitState _ base
  | .customMessage _ base => some base

/-- `entry_base_mut`: the same entry over other shared fields. -/
def setBase (base : EntryBase) : FileEntry → FileEntry
  | .header h => .header h
  | .unknown rest => .unknown rest
  | .message m _ => .message m base
  | .thinkingLevelChange p _ => .thinkingLevelChange p base
  | .serviceTierChange p _ => .serviceTierChange p base
  | .modelChange p _ => .modelChange p base
  | .compaction p _ => .compaction p base
  | .branchSummary p _ => .branchSummary p base
  | .custom p _ => .custom p base
  | .childUsageAttributed p _ => .childUsageAttributed p base
  | .label p _ => .label p base
  | .sessionInfo p _ => .sessionInfo p base
  | .sessionState p _ => .sessionState p base
  | .gitState p _ => .gitState p base
  | .customMessage p _ => .customMessage p base

def id : FileEntry → Option String
  | .header h => some h.id
  | .unknown rest => (rest.lookup "id").bind Json.asStr
  | entry => entry.base?.bind (·.id)

def parentId : FileEntry → Option String
  | .header _ => none
  | .unknown rest => (rest.lookup "parentId").bind Json.asStr
  | entry => entry.base?.bind (·.parentId)

def timestamp : FileEntry → String
  | .header h => h.timestamp
  | .unknown rest => ((rest.lookup "timestamp").bind Json.asStr).getD ""
  | entry => (entry.base?.bind (·.timestamp)).getD ""

def isHeader : FileEntry → Bool
  | .header _ => true
  | _ => false

def isCompaction : FileEntry → Bool
  | .compaction _ _ => true
  | _ => false

def isGitState : FileEntry → Bool
  | .gitState _ _ => true
  | _ => false

def isPlain : FileEntry → Bool
  | .label _ _ | .childUsageAttributed _ _ => false
  | _ => true

def assistant? : FileEntry → Option AssistantMessage
  | .message (.assistant m) _ => some m
  | _ => none

variable {base : EntryBase} {row : FileEntry}

theorem isHeader_of_base (h : row.base? = some base) : row.isHeader = false := by
  cases row <;> first | rfl | cases h

theorem id_of_base (h : row.base? = some base) : row.id = base.id := by
  cases row <;> first | (obtain rfl := Option.some.inj h; rfl) | cases h

theorem parentId_of_base (h : row.base? = some base) :
    row.parentId = base.parentId := by
  cases row <;> first | (obtain rfl := Option.some.inj h; rfl) | cases h

end FileEntry

end PrimeAgent
