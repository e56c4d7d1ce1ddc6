import PrimeAgent.SessionStore.EngineRows

/-! # The tree of a stored session

Moving the leaf, labelling a row, and the forks: a file with the path of one leaf, or the same store cut down to it. The
labels of the rows that stay are recorded again behind them.
-/
namespace PrimeAgent.SessionStore

namespace SessionEntry

def isLabel (entry : SessionEntry) : Bool :=
  entry.type == "label"

def labelText (entry : SessionEntry) : Option String :=
  (entry.fields.get "label").bind Json.asStr

end SessionEntry

structure LabelState where
  labels : KeyMap String String
  timestamps : KeyMap String String

namespace LabelState

def apply (state : LabelState) (entry : SessionEntry) : LabelState :=
  if entry.isLabel then
    match entry.targetId, entry.labelText with
    | some target, some label =>
      ⟨state.labels.insert target label, state.timestamps.insert target entry.timestamp⟩
    | some target, none => ⟨state.labels.remove target, state.timestamps.remove target⟩
    | none, _ => state
  else state

def fromEntries (entries : List SessionEntry) : LabelState :=
  entries.foldl apply ⟨.empty, .empty⟩

def shown (state : LabelState) (id : String) : Option String × Option String :=
  (state.labels.get id, state.timestamps.get id)

end LabelState

/-- The ids drawn for each label that is carried over, the clock, the new header's own values, and how the steps that
reach the disk end. -/
structure ForkEnv where
  draw : Nat → Nat → String
  now : Nat → String
  sessionId : String
  timestamp : String
  git : Option GitContext
  path : String
  leased : Bool
  written : Bool

namespace SessionFile

def entry (file : SessionFile) (id : String) : Option SessionEntry :=
  (file.byId.get id).bind fun row => file.entries[row]?

def branchTo (id : Option String) (file : SessionFile) : Option SessionFile :=
  match id with
  | some id => if (file.entry id).isSome then some { file with leafId := some id } else none
  | none => some { file with leafId := none }

def labelChange (targetId : String) (label : Option String) (file : SessionFile) : Option Json :=
  if (file.entry targetId).isSome then
    some (.object [("targetId", .string targetId), ("label", (label.map Json.string).getD .null)])
  else none

/-- The loop is that of `branch`, from this leaf. -/
def branchPathEntries (leafId : String) (file : SessionFile) : Option (List SessionEntry) :=
  let path := { file with leafId := some leafId }.branch
  if path = [] then none else some path

def adoptEntry (file : SessionFile) (entry : SessionEntry) : SessionFile :=
  { file with
    byId := file.byId.insert entry.id file.entries.length
    leafId := some entry.id
    entries := file.entries ++ [entry] }

def labelRow (id : String) (parent : Option String) (timestamp targetId label : String) : SessionEntry where
  type := "label"
  id := id
  parentId := parent
  timestamp := timestamp
  fields := .object [("targetId", .string targetId), ("label", .string label)]

/-- The loop over the ids of the path; `k` counts the labels carried so far. -/
def carryLabels (labels : LabelState) (env : ForkEnv) :
    List String → Nat → Option String → SessionFile → SessionFile
  | [], _, _, forked => forked
  | id :: ids, k, parent, forked =>
    match labels.labels.get id with
    | some label =>
      let entry := labelRow (newEntryId forked.byId (env.draw k)) parent
        ((labels.timestamps.get id).getD (env.now k)) id label
      carryLabels labels env ids (k + 1) (some entry.id) (forked.adoptEntry entry)
    | none => carryLabels labels env ids k parent forked

def createSession (env : ForkEnv) (cwd : String) (parentSession : Option String) (rlmDepth : Nat) : SessionFile :=
  .empty "" { version := some 3, id := env.sessionId, timestamp := env.timestamp, cwd := cwd
              parentSession := parentSession, rlmDepth := some rlmDepth, git := none }

def parentSessionOf (file : SessionFile) : Option String :=
  if file.path = "" then none else some file.path

def forkBase (file : SessionFile) (env : ForkEnv) : SessionFile :=
  let created := createSession env file.header.cwd file.parentSessionOf (file.header.rlmDepth.getD 0 % 2 ^ 32)
  { created with header := { created.header with git := env.git }, path := env.path }

def createBranchedFile (serde : StoreSerde) (env : ForkEnv) (leafId : String) (file : SessionFile) :
    Option (SessionFile × Option Bytes) :=
  (file.branchPathEntries leafId).bind fun path =>
    let kept := path.filter (!·.isLabel)
    let labels := LabelState.fromEntries file.entries
    if env.leased then
      let forked := kept.foldl adoptEntry (file.forkBase env)
      let forked := carryLabels labels env (kept.map (·.id)) 0 (kept.getLast?.map (·.id)) forked
      (rewrite serde forked env.written none).map (forked, ·)
    else none

def replaceWithBranch (env : ForkEnv) (leafId : Option String) (file : SessionFile) : Option SessionFile :=
  let path := match leafId with
    | some leafId => file.branchPathEntries leafId
    | none => some []
  path.map fun path =>
    let kept := path.filter (!·.isLabel)
    let labels := LabelState.fromEntries file.entries
    let cleared := { file with entries := [], byId := .empty, leafId := none }
    let file := kept.foldl adoptEntry cleared
    carryLabels labels env (kept.map (·.id)) 0 file.leafId file

end SessionFile

def rebuiltContext (branch : List SessionEntry) : SessionContext :=
  buildSessionContext (branch.filterMap (·.toFileEntry)) none

end PrimeAgent.SessionStore
