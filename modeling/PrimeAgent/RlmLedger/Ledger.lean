import PrimeAgent.RlmLedger.Record
import PrimeAgent.Lib.Keyed

/-! # The spawn ledger

An append-only file of records, read back by replay. The first append or read of a process seeds a missing file from
the legacy registries; the checks of a writer replay the file as it is before that.
-/
namespace PrimeAgent.RlmLedger

open SessionStore (SessionUsageSummary)

def rlmLedgerMaxRecords : Nat :=
  100000

/-! ## Replay -/

def edgeKey (canonicalSessionPath : String → String) (childId child : String) : String :=
  childId ++ "\x00" ++ canonicalSessionPath child

structure ReplayState where
  edges : List RlmLedgerEdge
  index : KeyMap String Nat

def ReplayState.empty : ReplayState :=
  { edges := [], index := .empty }

def soleEdgeByChildId (state : ReplayState) (childId : String) : Option Nat :=
  match state.edges.zipIdx.filter (·.1.childId = childId) with
  | [(_, row)] => some row
  | _ => none

def RlmSpawnInput.edge (input : RlmSpawnInput) : RlmLedgerEdge :=
  { childId := input.childId, parent := input.parent, child := input.child, depth := input.depth, name := input.name
    deleted := none, deletedUsage := none }

def RlmLedgerEdge.delete (reason : RlmLedgerDeleteReason) (usage : Option SessionUsageSummary) (edge : RlmLedgerEdge) :
    RlmLedgerEdge :=
  { edge with deleted := some reason, deletedUsage := usage.or edge.deletedUsage }

def RlmLedgerEdge.rename (name : String) (edge : RlmLedgerEdge) : RlmLedgerEdge :=
  { edge with name }

/-- A tool for the records that change an edge: the edge of the key, or else the only edge of the child id. -/
def ReplayState.change (canonicalSessionPath : String → String) (childId child : String)
    (f : RlmLedgerEdge → RlmLedgerEdge) (state : ReplayState) : ReplayState :=
  match (state.index.get (edgeKey canonicalSessionPath childId child)).or (soleEdgeByChildId state childId) with
  | some row => { state with edges := state.edges.modify row f }
  | none => state

def ReplayState.apply (canonicalSessionPath : String → String) (state : ReplayState) : LedgerRecord → ReplayState
  | .spawn input =>
    let key := edgeKey canonicalSessionPath input.childId input.child
    match state.index.get key with
    | some row => { state with edges := state.edges.modify row fun _ => input.edge }
    | none => { index := state.index.insert key state.edges.length, edges := state.edges ++ [input.edge] }
  | .rename childId child name => state.change canonicalSessionPath childId child (.rename name)
  | .delete childId child reason usage => state.change canonicalSessionPath childId child (.delete reason usage)

def replayLines (canonicalSessionPath : String → String) (state : ReplayState) (index : Nat) :
    List Json → Except String ReplayState
  | [] => .ok state
  | line :: rest =>
    if index + 1 > rlmLedgerMaxRecords then
      .error ("exceeds " ++ toString rlmLedgerMaxRecords ++ " records; refusing to read")
    else match parseLedgerLine line index with
      | .error error => .error error
      | .ok none => replayLines canonicalSessionPath state (index + 1) rest
      | .ok (some record) =>
        replayLines canonicalSessionPath (state.apply canonicalSessionPath record) (index + 1) rest

/-! ## The legacy registries -/

structure LegacyRlmSubagentEntry where
  childId : String
  sessionName : String
  sessionFile : String
  rlmDepth : UInt32
  status : String

structure Registries where
  sessionsDir : String
  /-- The session files of the dir, sorted. -/
  rootFiles : List String
  readLegacyRegistry : String → List LegacyRlmSubagentEntry

structure SeedWalk where
  visited : List String
  records : List RlmSpawnInput
  /-- The session files still to look into, the next one first. -/
  queue : List (String × UInt32)

def SeedWalk.entry (canonicalSessionPath : String → String) (sessionFile : String) (depth : UInt32) (walk : SeedWalk)
    (entry : LegacyRlmSubagentEntry) : SeedWalk :=
  let childPath := canonicalSessionPath entry.sessionFile
  if entry.status = "deleted" ∨ entry.childId = "" ∨ childPath ∈ walk.visited then walk
  else
    let childDepth := if entry.rlmDepth ≥ 1 then entry.rlmDepth else depth + 1
    { visited := walk.visited ++ [childPath]
      records := walk.records ++
        [{ childId := entry.childId, parent := canonicalSessionPath sessionFile, child := childPath, depth := childDepth
           name := entry.sessionName }]
      queue := (entry.sessionFile, childDepth) :: walk.queue }

def SeedWalk.run (canonicalSessionPath : String → String) (registries : Registries) :
    Nat → SeedWalk → Option (List RlmSpawnInput)
  | 0, walk => if walk.queue = [] then some walk.records else none
  | fuel + 1, walk =>
    match walk.queue with
    | [] => some walk.records
    | (sessionFile, depth) :: queue =>
      SeedWalk.run canonicalSessionPath registries fuel
        ((registries.readLegacyRegistry sessionFile).foldl (SeedWalk.entry canonicalSessionPath sessionFile depth)
          { walk with queue })

def Registries.walk (canonicalSessionPath : String → String) (registries : Registries) (fuel : Nat) :
    Option (List RlmSpawnInput) :=
  SeedWalk.run canonicalSessionPath registries fuel
    { visited := registries.rootFiles.map canonicalSessionPath, records := []
      queue := (registries.rootFiles.map (·, 0)).reverse }

/-! ## The ledger of a process -/

structure Env where
  canonicalSessionPath : String → String
  sessionsDir : String
  /-- The spawns that the walk over the registries has found. -/
  found : List RlmSpawnInput

def Env.seeded (env : Env) : List RlmSpawnInput :=
  if env.found.length + 1 > rlmLedgerMaxRecords then [] else env.found

structure Ledger where
  lines : Option (List Json)
  /-- What the file's metadata tells its states apart by. -/
  identity : Nat
  seedAttempted : Bool
  cache : Option (Nat × ReplayState)

def Ledger.start : Ledger :=
  { lines := none, identity := 0, seedAttempted := false, cache := none }

structure Stamp where
  time : String
  identity : Nat

namespace Ledger

variable (env : Env)

def replay (s : Ledger) : Except String ReplayState :=
  match s.lines with
  | some lines => replayLines env.canonicalSessionPath .empty 0 lines
  | none => .ok .empty

def replayCached (s : Ledger) : Except String (ReplayState × Ledger) :=
  let reread := (s.replay env).map fun state =>
    (state, if s.lines.isSome then { s with cache := some (s.identity, state) } else s)
  match s.cache with
  | some (identity, state) => if s.lines.isSome ∧ identity = s.identity then .ok (state, s) else reread
  | none => reread

def seedOnce (stamp : Stamp) (s : Ledger) : Ledger :=
  if s.seedAttempted then s
  else if s.lines.isSome ∨ env.seeded = [] then { s with seedAttempted := true }
  else
    { s with
      seedAttempted := true
      lines := some (metaRecord stamp.time env.sessionsDir :: env.seeded.map (spawnRecord stamp.time))
      identity := stamp.identity }

def appendRecord (stamp : Stamp) (value : Json) (s : Ledger) : Ledger :=
  let s := s.seedOnce env stamp
  let lines := match s.lines.getD [] with
    | [] => [metaRecord stamp.time env.sessionsDir]
    | lines => lines
  { s with lines := some (lines ++ [value]), identity := stamp.identity, cache := none }

def appendSpawn (stamp : Stamp) (input : RlmSpawnInput) (s : Ledger) : Except String Ledger :=
  if input.childId = "" ∨ input.parent = "" ∨ input.child = "" ∨ input.depth < 1 then
    .error ("RLM ledger: invalid spawn for " ++ (if input.childId = "" then "<missing childId>" else input.childId) ++
      " (depth " ++ toString input.depth ++ ")")
  else do
    let childPath := env.canonicalSessionPath input.child
    let (state, s) ← s.replayCached env
    match state.edges.find? fun edge =>
      edge.deleted = none ∧ env.canonicalSessionPath edge.child = childPath ∧ edge.childId ≠ input.childId with
    | some edge =>
      .error ("RLM ledger: duplicate child session path " ++ childPath ++ " (already " ++ edge.childId ++ ")")
    | none =>
      .ok (s.appendRecord env stamp
        (spawnRecord stamp.time { input with parent := env.canonicalSessionPath input.parent, child := childPath }))

def appendRename (stamp : Stamp) (childId child name : String) (s : Ledger) : Ledger :=
  s.appendRecord env stamp (renameRecord stamp.time childId (env.canonicalSessionPath child) name)

def appendRenameByChildPath (stamp : Stamp) (child name : String) (s : Ledger) : Except String Ledger := do
  let target := env.canonicalSessionPath child
  let (state, s) ← s.replayCached env
  .ok ((state.edges.filter fun edge => edge.deleted = none ∧ env.canonicalSessionPath edge.child = target).foldl
    (fun s edge => s.appendRecord env stamp (renameRecord stamp.time edge.childId target name)) s)

def appendDelete (stamp : Stamp) (childId child : String) (reason : RlmLedgerDeleteReason) (s : Ledger) : Ledger :=
  s.appendRecord env stamp (deleteRecord stamp.time childId (env.canonicalSessionPath child) reason none)

def appendDeleteWithUsage (stamp : Stamp) (childId child : String) (reason : RlmLedgerDeleteReason)
    (usage : SessionUsageSummary) (s : Ledger) : Ledger :=
  if ¬isFinite usage.cost ∨ isSignNegative usage.cost then s.appendDelete env stamp childId child reason
  else s.appendRecord env stamp (deleteRecord stamp.time childId (env.canonicalSessionPath child) reason (some usage))

def tombstoneChildPathWithUsage (stamp : Stamp) (child : String) (reason : RlmLedgerDeleteReason)
    (usage : Option SessionUsageSummary) (s : Ledger) : Except String (List RlmLedgerEdge × Ledger) := do
  let target := env.canonicalSessionPath child
  let (state, s) ← s.replayCached env
  let matching := state.edges.filter fun edge => env.canonicalSessionPath edge.child = target
  .ok (matching, matching.foldl (fun s edge =>
    match usage with
    | some usage => s.appendDeleteWithUsage env stamp edge.childId edge.child reason usage
    | none => s.appendDelete env stamp edge.childId edge.child reason) s)

def edges (stamp : Stamp) (includeDeleted : Bool) (s : Ledger) : Except String (List RlmLedgerEdge × Ledger) := do
  let (state, s) ← (s.seedOnce env stamp).replayCached env
  .ok (state.edges.filter fun edge => includeDeleted ∨ edge.deleted = none, s)

end Ledger

/-! ## Operations -/

inductive Op where
  | spawn (input : RlmSpawnInput)
  | rename (childId child name : String)
  | renameByChildPath (child name : String)
  | delete (childId child : String) (reason : RlmLedgerDeleteReason) (usage : Option SessionUsageSummary)
  | tombstoneChildPath (child : String) (reason : RlmLedgerDeleteReason) (usage : Option SessionUsageSummary)
  | edges (includeDeleted : Bool)

def Op.run (env : Env) (stamp : Stamp) (s : Ledger) : Op → Except String Ledger
  | .spawn input => s.appendSpawn env stamp input
  | .rename childId child name => .ok (s.appendRename env stamp childId child name)
  | .renameByChildPath child name => s.appendRenameByChildPath env stamp child name
  | .delete childId child reason none => .ok (s.appendDelete env stamp childId child reason)
  | .delete childId child reason (some usage) => .ok (s.appendDeleteWithUsage env stamp childId child reason usage)
  | .tombstoneChildPath child reason usage => (s.tombstoneChildPathWithUsage env stamp child reason usage).map (·.2)
  | .edges includeDeleted => (s.edges env stamp includeDeleted).map (·.2)

def Op.step (env : Env) (stamp : Stamp) (s : Ledger) (op : Op) : Ledger :=
  match op.run env stamp s with
  | .ok s' => s'
  | .error _ => s

end PrimeAgent.RlmLedger
