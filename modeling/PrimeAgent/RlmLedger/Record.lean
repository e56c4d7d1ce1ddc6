import PrimeAgent.SessionStore.Info

/-! # The records of the spawn ledger

One object a line. A reader refuses what it cannot understand, so every record a writer appends has to read back.
-/
namespace PrimeAgent.RlmLedger

open SessionStore (SessionUsageSummary)

inductive RlmLedgerDeleteReason where
  | user | parentTeardown | revoked | gc
deriving DecidableEq

namespace RlmLedgerDeleteReason

def fromWire : String → Option RlmLedgerDeleteReason
  | "user" => some .user
  | "parent-teardown" => some .parentTeardown
  | "revoked" => some .revoked
  | "gc" => some .gc
  | _ => none

def wireName : RlmLedgerDeleteReason → String
  | .user => "user"
  | .parentTeardown => "parent-teardown"
  | .revoked => "revoked"
  | .gc => "gc"

theorem fromWire_wireName (reason : RlmLedgerDeleteReason) : fromWire reason.wireName = some reason := by
  cases reason <;> rfl

end RlmLedgerDeleteReason

structure RlmLedgerEdge where
  childId : String
  parent : String
  child : String
  depth : UInt32
  name : String
  deleted : Option RlmLedgerDeleteReason
  deletedUsage : Option SessionUsageSummary
deriving DecidableEq

structure RlmSpawnInput where
  childId : String
  parent : String
  child : String
  depth : UInt32
  name : String
deriving DecidableEq

inductive LedgerRecord where
  | spawn (input : RlmSpawnInput)
  | rename (childId child name : String)
  | delete (childId child : String) (reason : RlmLedgerDeleteReason) (usage : Option SessionUsageSummary)
deriving DecidableEq

/-! ## The sign and kind of an `f64` -/

def isSignNegative (x : F64) : Bool :=
  x.bits.toNat ≥ 2 ^ 63

def exponentBits (x : F64) : Nat :=
  x.bits.toNat / 2 ^ 52 % 2 ^ 11

def isFinite (x : F64) : Bool :=
  exponentBits x ≠ 2 ^ 11 - 1

def isNan (x : F64) : Bool :=
  exponentBits x = 2 ^ 11 - 1 ∧ x.bits.toNat % 2 ^ 52 ≠ 0

/-! ## Writing -/

def record (op time : String) (members : JsonMap) : Json :=
  .object ([("v", .number (.posInt 1)), ("op", .string op), ("at", .string time)] ++ members)

def metaRecord (time sessionsDir : String) : Json :=
  record "meta" time [("sessionsDir", .string sessionsDir)]

def spawnRecord (time : String) (input : RlmSpawnInput) : Json :=
  record "spawn" time [("childId", .string input.childId), ("parent", .string input.parent),
    ("child", .string input.child), ("depth", .number (.posInt input.depth.toNat)), ("name", .string input.name)]

def renameRecord (time childId child name : String) : Json :=
  record "rename" time [("childId", .string childId), ("child", .string child), ("name", .string name)]

def usageValue (usage : SessionUsageSummary) : Json :=
  .object [("inputTokens", .number (.posInt usage.inputTokens)), ("outputTokens", .number (.posInt usage.outputTokens)),
    ("cost", .number (.float usage.cost))]

def deleteRecord (time childId child : String) (reason : RlmLedgerDeleteReason) (usage : Option SessionUsageSummary) :
    Json :=
  record "delete" time ([("childId", .string childId), ("child", .string child), ("reason", .string reason.wireName)] ++
    (usage.map fun usage => ("usage", usageValue usage)).toList)

/-! ## Reading -/

def strField (value : Json) (key : String) : Option String :=
  (value.get key).bind Json.asStr

def malformed (lineNo : Nat) (what : String) : String :=
  "malformed RLM ledger line " ++ toString lineNo ++ ": " ++ what

def parseDeletedUsage (usage : Json) (lineNo : Nat) : Except String SessionUsageSummary :=
  match (usage.get "inputTokens").bind Json.asU64, (usage.get "outputTokens").bind Json.asU64,
    (usage.get "cost").bind Json.asF64 with
  | some inputTokens, some outputTokens, some cost =>
    if isNan cost ∨ isSignNegative cost then .error (malformed lineNo "invalid delete usage")
    else .ok { inputTokens, outputTokens, cost }
  | _, _, _ => .error (malformed lineNo "invalid delete usage")

/-- `none` for a known version with an unknown op. -/
def parseLedgerLine (value : Json) (index : Nat) : Except String (Option LedgerRecord) :=
  let lineNo := index + 1
  if value.get "v" ≠ some (.number (.posInt 1)) then .error (malformed lineNo "unsupported record version")
  else if strField value "at" = none then .error (malformed lineNo "missing at")
  else match (strField value "op").getD "" with
  | "spawn" =>
    match strField value "childId", strField value "parent", strField value "child", strField value "name",
      (value.get "depth").bind Json.asU64 with
    | some childId, some parent, some child, some name, some depth =>
      if depth < 1 ∨ depth > 2 ^ 32 - 1 then .error (malformed lineNo "invalid spawn record")
      else .ok (some (.spawn { childId, parent, child, depth := UInt32.ofNat depth, name }))
    | _, _, _, _, _ => .error (malformed lineNo "invalid spawn record")
  | "rename" =>
    match strField value "childId", strField value "child", strField value "name" with
    | some childId, some child, some name => .ok (some (.rename childId child name))
    | _, _, _ => .error (malformed lineNo "invalid rename record")
  | "delete" =>
    match strField value "childId", strField value "child", (strField value "reason").bind RlmLedgerDeleteReason.fromWire with
    | some childId, some child, some reason =>
      match value.get "usage" with
      | none => .ok (some (.delete childId child reason none))
      | some usage => (parseDeletedUsage usage lineNo).map fun usage => some (.delete childId child reason (some usage))
    | _, _, _ => .error (malformed lineNo "invalid delete record")
  | _ => .ok none

/-! ## What is written reads back -/

theorem parse_meta (time sessionsDir : String) (index : Nat) :
    parseLedgerLine (metaRecord time sessionsDir) index = .ok none := by
  simp [parseLedgerLine, metaRecord, record, strField, Json.get, Json.asStr, List.lookup_cons]

theorem parse_spawn (time : String) {input : RlmSpawnInput} (hDepth : input.depth ≥ 1) (index : Nat) :
    parseLedgerLine (spawnRecord time input) index = .ok (some (.spawn input)) := by
  have hRoom : input.depth.toNat < 2 ^ 32 := input.depth.toNat_lt
  have hOne : 1 ≤ input.depth.toNat := UInt32.le_iff_toNat_le.mp hDepth
  have hBounds : ¬(input.depth.toNat < 1 ∨ input.depth.toNat > 2 ^ 32 - 1) := by omega
  simp only [parseLedgerLine, spawnRecord, record, strField, Json.get, List.cons_append, List.nil_append]
  simp [List.lookup_cons, Json.asStr, Json.asU64]
  omega

theorem parse_rename (time childId child name : String) (index : Nat) :
    parseLedgerLine (renameRecord time childId child name) index = .ok (some (.rename childId child name)) := by
  simp [parseLedgerLine, renameRecord, record, strField, Json.get, Json.asStr, List.lookup_cons]

def Readable (usage : SessionUsageSummary) : Prop :=
  isFinite usage.cost = true ∧ isSignNegative usage.cost = false

theorem parse_usage {usage : SessionUsageSummary} (hReadable : Readable usage) (lineNo : Nat) :
    parseDeletedUsage (usageValue usage) lineNo = .ok usage := by
  obtain ⟨hFinite, hSign⟩ := hReadable
  have hNan : isNan usage.cost = false := by
    have hBits := of_decide_eq_true hFinite
    exact decide_eq_false fun hBoth => hBits hBoth.1
  simp [parseDeletedUsage, usageValue, Json.get, Json.asU64, Json.asF64, List.lookup_cons, hNan, hSign]

theorem parse_delete (time childId child : String) (reason : RlmLedgerDeleteReason) {usage : Option SessionUsageSummary}
    (hReadable : ∀ known, usage = some known → Readable known) (index : Nat) :
    parseLedgerLine (deleteRecord time childId child reason usage) index =
      .ok (some (.delete childId child reason usage)) := by
  cases usage with
  | none =>
    simp [parseLedgerLine, deleteRecord, record, strField, Json.get, Json.asStr, List.lookup_cons,
      RlmLedgerDeleteReason.fromWire_wireName]
  | some known =>
    have hUsage := parse_usage (hReadable known rfl) (index + 1)
    simp [parseLedgerLine, deleteRecord, record, strField, Json.get, Json.asStr, List.lookup_cons,
      RlmLedgerDeleteReason.fromWire_wireName, hUsage, Except.map]

end PrimeAgent.RlmLedger
