import PrimeAgent.Journal.Worker
import Mathlib.Data.List.Perm.Basic
import Mathlib.Data.List.TakeDrop

/-! # The lanes of queued rows

A row is admitted into a lane by its priority. It is moved, edited, deleted or withdrawn there, and delivered from the front,
alone or with the rows that may join it.
-/
namespace PrimeAgent.Queue

inductive Lane where
  | steering
  | followUp
deriving DecidableEq

/-- A queued row, whether a caller waits for its turn, and the number of its admission, which the code does not keep. -/
structure Row where
  item : QueuedItem
  done : Bool
  number : Nat

def rank : QueuePriority → Nat
  | .background => 0
  | .human => 1
  | .pinned => 2

structure SessionCore where
  created : Bool
  shutdownRequested : Bool
  steering : List Row
  followUp : List Row
  steeringMode : String
  followUpMode : String
  forcedAllSteering : Bool

namespace SessionCore

def rows (core : SessionCore) : Lane → List Row
  | .steering => core.steering
  | .followUp => core.followUp

def setRows (core : SessionCore) (lane : Lane) (rows : List Row) : SessionCore :=
  match lane with
  | .steering => { core with steering := rows }
  | .followUp => { core with followUp := rows }

def mode (core : SessionCore) : Lane → String
  | .steering => core.steeringMode
  | .followUp => core.followUpMode

end SessionCore

def insertionIndex (row : Row) (lane : List Row) : Nat → Nat
  | 0 => 0
  | index + 1 =>
    if (lane[index]?).any fun before => rank before.item.priority < rank row.item.priority
    then insertionIndex row lane index
    else index + 1

def enqueuePriority (lane : List Row) (row : Row) : List Row :=
  lane.insertIdx (insertionIndex row lane lane.length) row

def sessionSlashCommandNames : List Text :=
  ["compact".toList, "refine".toList, "goal".toList, "autonomous".toList]

def parseSlashCommand (text : Text) : Option (Text × Text) :=
  match text with
  | '/' :: rest => some (rest.takeWhile (!isWhitespace ·), trim ((rest.dropWhile (!isWhitespace ·)).drop 1))
  | _ => none

def parsePromptSessionCommand (text : String) : Option (Text × Text) :=
  (parseSlashCommand text.toList).filter fun (name, _) => name ∈ sessionSlashCommandNames

def joins (forced : Bool) (policy : TurnPolicy) (next : Row) : Bool :=
  next.item.policy = policy && next.item.customMessage.isNone && (!forced || next.item.forcedBatch) &&
    (parsePromptSessionCommand next.item.message).isNone

def gatherDeliveryBatch (core : SessionCore) (lane : Lane) : List Row × SessionCore :=
  match core.rows lane with
  | [] => ([], core)
  | first :: rest =>
    let forced := lane = .steering && core.forcedAllSteering && first.item.forcedBatch
    let mode := core.mode lane
    let core :=
      if lane = .steering && core.forcedAllSteering && !forced && !(first :: rest).any (·.item.forcedBatch)
      then { core with forcedAllSteering := false }
      else core
    if first.item.customMessage.isSome || first.item.policy = .direct ||
        (parsePromptSessionCommand first.item.message).isSome then ([first], core.setRows lane rest)
    else if forced || mode = "all" then
      (first :: rest.takeWhile (joins forced first.item.policy),
        core.setRows lane (rest.dropWhile (joins forced first.item.policy)))
    else ([first], core.setRows lane rest)

def wireLane (value : Option Json) : Option Lane :=
  match value.bind Json.asStr with
  | some "steering" => some .steering
  | some "followUp" => some .followUp
  | _ => none

def asI64 : Json → Option Int
  | .number (.posInt n) => if n < 2 ^ 63 then some n else none
  | .number (.negInt n) => some n
  | _ => none

def parsePromptImages (payload : Json) : List ImageContent :=
  match payload.get "images" with
  | some (.array images) => images.filterMap fun image => do
    guard ((image.get "type").bind Json.asStr = some "image")
    some ⟨← (image.get "data").bind Json.asStr, ← (image.get "mimeType").bind Json.asStr⟩
  | _ => []

inductive MutationStatus where
  | applied
  | rejected
deriving DecidableEq

/-- `VecDeque::swap`. -/
def swap (lane : List Row) (index target : Nat) : List Row :=
  match lane[index]?, lane[target]? with
  | some row, some other => (lane.set index other).set target row
  | _, _ => lane

def replaced (item : QueuedItem) (text : String) (mutation : Json) : QueuedItem :=
  { item with
    message := text
    preview := none
    images := if (mutation.get "images").isSome then parsePromptImages mutation else item.images }

def mutateLane (lane : List Row) (index : Nat) (expected : String) (mutation : Json) (mutationType : String) :
    MutationStatus × List Row × Option Row :=
  match lane[index]? with
  | none => (.rejected, lane, none)
  | some row =>
    if row.item.preview.getD row.item.message ≠ expected then (.rejected, lane, none)
    else if mutationType = "delete" then (.applied, lane.eraseIdx index, some row)
    else if mutationType = "move" then
      let direction := ((mutation.get "direction").bind asI64).getD 0
      let target := (index : Int) + direction
      if target < 0 ∨ lane.length ≤ target.toNat ∨ direction = 0 then (.rejected, lane, none)
      else (.applied, swap lane index target.toNat, none)
    else if mutationType = "replace" then
      if row.item.customMessage.isSome || row.item.agentMessage.isSome then (.rejected, lane, none)
      else match (mutation.get "text").bind Json.asStr with
        | none => (.rejected, lane, none)
        | some text => (.applied, lane.set index { row with item := replaced row.item text mutation }, none)
    else (.rejected, lane, none)

/-- The answer, the session, the row that was deleted, and what its waiting caller is told. -/
structure Mutated where
  answer : Except String MutationStatus
  core : SessionCore
  deleted : Option Row
  settled : Option String

def queuedPromptDeleted : String :=
  "Queued prompt was deleted before delivery."

def requireCreated (core : SessionCore) : Except String Unit :=
  if !core.created then .error "Session is still initializing"
  else if core.shutdownRequested then .error "Session is shutting down"
  else .ok ()

/-- What the payload asks for: the lane, the index, the text that is expected there, and the mutation with its type. -/
def parseMutation (payload : Json) : Except String (Lane × Nat × String × Json × String) :=
  match wireLane (payload.get "lane") with
  | none => .error "mutate_queued_message requires lane \"steering\" or \"followUp\""
  | some lane =>
    match (payload.get "index").bind Json.asU64 with
    | none => .error "mutate_queued_message requires an index"
    | some index =>
      match payload.get "mutation" with
      | none => .error "mutate_queued_message requires a mutation"
      | some mutation =>
        let mutationType := ((mutation.get "type").bind Json.asStr).getD ""
        if mutationType ∈ ["delete", "move", "replace"] then
          .ok (lane, index, ((payload.get "expectedText").bind Json.asStr).getD "", mutation, mutationType)
        else .error "mutate_queued_message requires mutation.type \"delete\", \"move\", or \"replace\""

def targetLane (lane : Lane) (mutation : Json) (mutationType : String) : Option Lane :=
  if mutationType = "replace" then (wireLane (mutation.get "lane")).filter (· ≠ lane) else none

def changeLane (core : SessionCore) (lane : Lane) (index : Nat) (target : Option Lane) : SessionCore :=
  match target, (core.rows lane)[index]? with
  | some target, some row =>
    let core := core.setRows lane ((core.rows lane).eraseIdx index)
    core.setRows target (core.rows target ++ [row])
  | _, _ => core

def handleMutateQueuedMessage (core : SessionCore) (payload : Json) : Mutated :=
  match requireCreated core with
  | .error message => ⟨.error message, core, none, none⟩
  | .ok () =>
    match parseMutation payload with
    | .error message => ⟨.error message, core, none, none⟩
    | .ok (lane, index, expected, mutation, mutationType) =>
      let (status, rows, deleted) := mutateLane (core.rows lane) index expected mutation mutationType
      let core := core.setRows lane rows
      let core := if status = .applied then changeLane core lane index (targetLane lane mutation mutationType) else core
      ⟨.ok status, core, deleted, if deleted.any (·.done) then some queuedPromptDeleted else none⟩

def isBashCompletionNoticeFor (pid : Nat) (command : String) (row : Row) : Bool :=
  match row.item.customMessage with
  | none => false
  | some message =>
    (message.get "customType").bind Json.asStr = some "async_bash_completion" &&
      let details := (message.get "details").getD .null
      (details.get "pid").bind Json.asU64 = some pid && (details.get "command").bind Json.asStr = some command

def withdrawBashCompletionNotice (core : SessionCore) (pid : Nat) (command : String) : Option Row × SessionCore :=
  let isNotice := isBashCompletionNoticeFor pid command
  match core.steering.find? isNotice with
  | some row => (some row, { core with steering := core.steering.eraseP isNotice })
  | none => (core.followUp.find? isNotice, { core with followUp := core.followUp.eraseP isNotice })

def armable (row : Row) : Bool :=
  row.item.queueVisible && row.item.agentMessage.isNone && row.item.customMessage.isNone

def armForcedAllSteering (core : SessionCore) : SessionCore :=
  if core.steering.any armable then
    { core with
      forcedAllSteering := true
      steering := core.steering.map fun row =>
        if armable row then { row with item := { row.item with forcedBatch := true } } else row }
  else core

inductive Departure where
  | delivered
  | deleted
  | withdrawn
deriving DecidableEq

structure Session where
  core : SessionCore
  admitted : Nat
  gone : List (Row × Departure)

def Session.start (core : SessionCore) : Session :=
  ⟨{ core with steering := [], followUp := [] }, 0, []⟩

inductive Action where
  | enqueue (lane : Lane) (item : QueuedItem) (done : Bool)
  | pushBack (lane : Lane) (item : QueuedItem)
  | mutate (payload : Json)
  | withdraw (pid : Nat) (command : String)
  | deliver (lane : Lane)
  | arm

def step (s : Session) : Action → Session
  | .enqueue lane item done =>
    { s with
      core := s.core.setRows lane (enqueuePriority (s.core.rows lane) ⟨item, done, s.admitted⟩)
      admitted := s.admitted + 1 }
  -- A continuation of the engine is always of the lowest priority, and nobody waits for it.
  | .pushBack lane item =>
    { s with
      core := s.core.setRows lane (s.core.rows lane ++ [⟨{ item with priority := .background }, false, s.admitted⟩])
      admitted := s.admitted + 1 }
  | .mutate payload =>
    let mutated := handleMutateQueuedMessage s.core payload
    { s with core := mutated.core, gone := s.gone ++ mutated.deleted.toList.map (·, .deleted) }
  | .withdraw pid command =>
    let (row, core) := withdrawBashCompletionNotice s.core pid command
    { s with core, gone := s.gone ++ row.toList.map (·, .withdrawn) }
  | .deliver lane =>
    let (batch, core) := gatherDeliveryBatch s.core lane
    { s with core, gone := s.gone ++ batch.map (·, .delivered) }
  | .arm => { s with core := armForcedAllSteering s.core }

def run (s : Session) (actions : List Action) : Session :=
  actions.foldl step s

end PrimeAgent.Queue
