import PrimeAgent.Types.Decode

/-! # Worker recovery records

The records of the worker journal, the values they are written as and what is read of a value.
-/
namespace PrimeAgent

open Decode

/-- `skip_serializing_if = "Option::is_none"`. -/
def Json.optionalMember (name : String) (value : Option Json) : JsonMap :=
  (value.map (name, ·)).toList

/-- `#[serde(default = "…")]`. -/
def Decode.Fields.defaultedTo {α : Type} (fields : Fields) (name : String) (default : α) (decode : Json → Option α) :
    Option α :=
  match fields.get name with
  | none => some default
  | some value => decode value

theorem Json.lookup_optionalMember {name key : String} (h : key ≠ name) (value : Option Json) (rest : JsonMap) :
    (Json.optionalMember name value ++ rest).lookup key = rest.lookup key := by
  cases value with
  | none => rfl
  | some v => simp [Json.optionalMember, List.lookup_cons, beq_eq_false_iff_ne.mpr h]

theorem Json.lookup_optionalMember_self {name : String} {rest : JsonMap} (h : rest.lookup name = none)
    (value : Option Json) : (Json.optionalMember name value ++ rest).lookup name = value := by
  cases value with
  | none => exact h
  | some v => simp [Json.optionalMember]

theorem Json.lookup_cons_of_ne {name key : String} (h : key ≠ name) (value : Json) (rest : JsonMap) :
    List.lookup key ((name, value) :: rest) = rest.lookup key := by
  simp [List.lookup_cons, beq_eq_false_iff_ne.mpr h]

theorem Decode.Fields.defaulted_eq {α : Type} {fields : Fields} {name : String} {field : Option α} {encode : α → Json}
    {decode : Json → Option α} (hField : fields.get name = field.map encode) (hNull : ∀ a, encode a ≠ .null)
    (hDecode : ∀ a, decode (encode a) = some a) : fields.defaulted name decode = some field := by
  rw [Fields.defaulted, hField]
  cases field with
  | none => rfl
  | some a =>
    have hValue := hDecode a
    have hSome := hNull a
    cases hEncode : encode a with
    | null => exact absurd hEncode hSome
    | _ =>
      rw [hEncode] at hValue
      simp [hEncode, orNull, hValue]

theorem Decode.Fields.defaulted_value {fields : Fields} {name : String} {field : Option Json}
    (hField : fields.get name = field) : fields.defaulted name value = some (field.filter (· ≠ .null)) := by
  rw [Fields.defaulted, hField]
  rcases field with _ | v
  · rfl
  · cases v <;> simp [orNull, value, Option.filter]

structure WorkerRecoveryRecord where
  activeSessionId : String
  sessionId : String
  sessionFile : Option String
  busy : Bool
  operation : String
  recordedAt : String
deriving DecidableEq, Repr

namespace WorkerRecoveryRecord

def toValue (record : WorkerRecoveryRecord) : Json :=
  .object ([("activeSessionId", .string record.activeSessionId), ("sessionId", .string record.sessionId)]
    ++ (Json.optionalMember "sessionFile" (record.sessionFile.map .string)
    ++ [("busy", .bool record.busy), ("operation", .string record.operation),
      ("recordedAt", .string record.recordedAt)]))

def ofValue (v : Json) : Option WorkerRecoveryRecord := do
  let f ← fieldsOf ["activeSessionId", "sessionId", "sessionFile", "busy", "operation", "recordedAt"] v
  return ⟨← f.required "activeSessionId" string, ← f.required "sessionId" string,
    ← f.defaulted "sessionFile" string, ← f.required "busy" Decode.bool, ← f.required "operation" string,
    ← f.required "recordedAt" string⟩

theorem ofValue_toValue (record : WorkerRecoveryRecord) : ofValue record.toValue = some record := by
  obtain ⟨activeSessionId, sessionId, sessionFile, busy, operation, recordedAt⟩ := record
  cases sessionFile with
  | none => rfl
  | some path => rfl

end WorkerRecoveryRecord

inductive QueuePriority where
  | human
  | pinned
  | background
deriving DecidableEq, Repr

namespace QueuePriority

def name : QueuePriority → String
  | human => "human"
  | pinned => "pinned"
  | background => "background"

/-- `#[serde(other)]` takes every other name. -/
def ofName (name : String) : QueuePriority :=
  if name = "human" then human else if name = "pinned" then pinned else background

def toValue (priority : QueuePriority) : Json :=
  .string priority.name

def ofValue : Json → Option QueuePriority
  | .string name | .object [(name, .null)] => some (ofName name)
  | _ => none

@[simp] theorem ofValue_toValue (priority : QueuePriority) : ofValue priority.toValue = some priority := by
  cases priority <;> rfl

end QueuePriority

inductive TurnPolicy where
  | queued
  | injected
  | direct
deriving DecidableEq, Repr

def TurnPolicy.journalValue : TurnPolicy → String
  | queued => "queued"
  | injected => "injected"
  | direct => "direct"

structure WorkerQueueItemRecord where
  message : String
  priority : Option QueuePriority
  preview : Option String
  customMessage : Option Json
  queueKey : Option String
  queueVisible : Bool
  policy : String
deriving DecidableEq

def queueVisibleDefault : Bool :=
  true

def queuePolicyDefault : String :=
  "queued"

namespace WorkerQueueItemRecord

/-- `WorkerQueueItemRecord::policy`. -/
def turnPolicy (record : WorkerQueueItemRecord) : TurnPolicy :=
  if record.policy = "injected" then .injected else if record.policy = "direct" then .direct else .queued

def members (record : WorkerQueueItemRecord) : JsonMap :=
  ("message", .string record.message)
    :: (Json.optionalMember "priority" (record.priority.map QueuePriority.toValue)
    ++ (Json.optionalMember "preview" (record.preview.map .string)
    ++ (Json.optionalMember "custom_message" record.customMessage
    ++ (Json.optionalMember "queue_key" (record.queueKey.map .string)
    ++ [("queue_visible", .bool record.queueVisible), ("policy", .string record.policy)]))))

def toValue (record : WorkerQueueItemRecord) : Json :=
  .object record.members

def ofValue (v : Json) : Option WorkerQueueItemRecord := do
  let f ← fieldsOf ["message", "priority", "preview", "custom_message", "queue_key", "queue_visible", "policy"] v
  return ⟨← f.required "message" string, ← f.defaulted "priority" QueuePriority.ofValue,
    ← f.defaulted "preview" string, ← f.defaulted "custom_message" value, ← f.defaulted "queue_key" string,
    ← f.defaultedTo "queue_visible" queueVisibleDefault Decode.bool, ← f.defaultedTo "policy" queuePolicyDefault string⟩

def withoutNull (record : WorkerQueueItemRecord) : WorkerQueueItemRecord :=
  { record with customMessage := record.customMessage.filter (· ≠ .null) }

theorem lookup_members (record : WorkerQueueItemRecord) :
    record.members.lookup "priority" = record.priority.map QueuePriority.toValue ∧
      record.members.lookup "preview" = record.preview.map .string ∧
      record.members.lookup "custom_message" = record.customMessage ∧
      record.members.lookup "queue_key" = record.queueKey.map .string ∧
      record.members.lookup "queue_visible" = some (.bool record.queueVisible) ∧
      record.members.lookup "policy" = some (.string record.policy) := by
  refine ⟨?_, ?_, ?_, ?_, ?_, ?_⟩ <;>
    simp [members, Json.lookup_cons_of_ne, Json.lookup_optionalMember, Json.lookup_optionalMember_self]

theorem ofValue_toValue (record : WorkerQueueItemRecord) : ofValue record.toValue = some record.withoutNull := by
  obtain ⟨hPriority, hPreview, hCustom, hKey, hVisible, hPolicy⟩ := record.lookup_members
  have hString : ∀ text, string (.string text) = some text := fun _ => rfl
  let f : Fields := ⟨(record.members.lookup ·), true⟩
  have readPriority : f.defaulted "priority" QueuePriority.ofValue = some record.priority :=
    Fields.defaulted_eq hPriority (by rintro (_ | _ | _) <;> simp [QueuePriority.toValue]) QueuePriority.ofValue_toValue
  have readPreview : f.defaulted "preview" string = some record.preview :=
    Fields.defaulted_eq hPreview (by simp) hString
  have readCustom : f.defaulted "custom_message" value = some (record.customMessage.filter (· ≠ .null)) :=
    Fields.defaulted_value hCustom
  have readKey : f.defaulted "queue_key" string = some record.queueKey :=
    Fields.defaulted_eq hKey (by simp) hString
  have readVisible : f.defaultedTo "queue_visible" queueVisibleDefault Decode.bool = some record.queueVisible := by
    simp [f, Fields.defaultedTo, hVisible, Decode.bool]
  have readPolicy : f.defaultedTo "policy" queuePolicyDefault string = some record.policy := by
    simp [f, Fields.defaultedTo, hPolicy, string, Json.asStr]
  have readMessage : f.required "message" string = some record.message := rfl
  rw [toValue, ofValue, fieldsOf]
  simp only [Option.bind_eq_bind, Option.bind_some, Option.pure_def]
  rw [readMessage, readPriority, readPreview, readCustom, readKey, readVisible, readPolicy]
  rfl

end WorkerQueueItemRecord

def WorkerQueueItemRecord.plain (message : String) : WorkerQueueItemRecord :=
  ⟨message, none, none, none, none, queueVisibleDefault, queuePolicyDefault⟩

def parseSnapshotEntry : Json → Option WorkerQueueItemRecord
  | .string message => some (.plain message)
  | .object members => WorkerQueueItemRecord.ofValue (.object members)
  | _ => none

def parseSnapshotLane (value : Option Json) : List WorkerQueueItemRecord :=
  match value with
  | some (.array entries) => entries.filterMap parseSnapshotEntry
  | _ => []

def queueSnapshotRecordType : String :=
  "queue_snapshot"

def queueSnapshotVersion : Nat :=
  2

structure WorkerQueueSnapshotRecord where
  version : Nat
  type : String
  activeSessionId : String
  steering : List WorkerQueueItemRecord
  followUp : List WorkerQueueItemRecord
  recordedAt : String
deriving DecidableEq

namespace WorkerQueueSnapshotRecord

def current (activeSessionId : String) (steering followUp : List WorkerQueueItemRecord) (recordedAt : String) :
    WorkerQueueSnapshotRecord :=
  ⟨queueSnapshotVersion, queueSnapshotRecordType, activeSessionId, steering, followUp, recordedAt⟩

def toValue (record : WorkerQueueSnapshotRecord) : Json :=
  .object [("version", .number (.posInt record.version)), ("type", .string record.type),
    ("active_session_id", .string record.activeSessionId),
    ("steering", .array (record.steering.map WorkerQueueItemRecord.toValue)),
    ("follow_up", .array (record.followUp.map WorkerQueueItemRecord.toValue)),
    ("recorded_at", .string record.recordedAt)]

/-- What `parse_queue_snapshot_records` makes of one line's value. -/
def ofValue (record : Json) : Option WorkerQueueSnapshotRecord :=
  if (record.get "type").bind Json.asStr ≠ some queueSnapshotRecordType then none
  else
    let version := (record.get "version").bind Json.asU64
    if version ≠ some 1 ∧ version ≠ some queueSnapshotVersion then none
    else ((record.get "active_session_id").bind Json.asStr).map fun activeSessionId =>
      current activeSessionId (parseSnapshotLane (record.get "steering")) (parseSnapshotLane (record.get "follow_up"))
        (((record.get "recorded_at").bind Json.asStr).getD "")

def withoutNull (record : WorkerQueueSnapshotRecord) : WorkerQueueSnapshotRecord :=
  { record with
    steering := record.steering.map (·.withoutNull)
    followUp := record.followUp.map (·.withoutNull) }

theorem parseSnapshotLane_toValue (items : List WorkerQueueItemRecord) :
    parseSnapshotLane (some (.array (items.map WorkerQueueItemRecord.toValue))) = items.map (·.withoutNull) := by
  rw [parseSnapshotLane, List.filterMap_map, ← List.filterMap_eq_map]
  refine List.filterMap_congr ?_
  rintro item -
  exact item.ofValue_toValue

theorem ofValue_toValue (activeSessionId : String) (steering followUp : List WorkerQueueItemRecord) (recordedAt : String) :
    ofValue (current activeSessionId steering followUp recordedAt).toValue
      = some (current activeSessionId steering followUp recordedAt).withoutNull := by
  simp [ofValue, toValue, current, withoutNull, Json.get, List.lookup_cons, Json.asStr, Json.asU64, queueSnapshotVersion,
    parseSnapshotLane_toValue]

theorem ofValue_workerRecord (record : WorkerRecoveryRecord) : ofValue record.toValue = none := by
  obtain ⟨activeSessionId, sessionId, sessionFile, busy, operation, recordedAt⟩ := record
  cases sessionFile <;> simp [ofValue, WorkerRecoveryRecord.toValue, Json.optionalMember, Json.get, List.lookup_cons]

end WorkerQueueSnapshotRecord

theorem WorkerRecoveryRecord.ofValue_snapshot (record : WorkerQueueSnapshotRecord) : ofValue record.toValue = none :=
  rfl

end PrimeAgent
