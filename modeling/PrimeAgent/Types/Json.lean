import Mathlib.Algebra.Group.Int.Defs
import Mathlib.Algebra.GroupWithZero.Nat
import Mathlib.Data.List.Basic

/-! # JSON values

`serde_json::Value` with `preserve_order`: an object keeps the order its keys came in, and its keys
are distinct once a text has been read. Numbers keep the three forms the reader makes of them.
-/
namespace PrimeAgent

/-- An `f64`, as its bits. -/
structure F64 where
  bits : UInt64
deriving DecidableEq, Repr, Inhabited

def F64.toFloat (x : F64) : Float :=
  Float.ofBits x.bits

def F64.ofFloat (x : Float) : F64 :=
  ⟨x.toBits⟩

def F64.add (a b : F64) : F64 :=
  F64.ofFloat (a.toFloat + b.toFloat)

/-- `n as f64` for a `u64`. -/
def F64.ofNat (n : Nat) : F64 :=
  F64.ofFloat (UInt64.ofNat n).toFloat

/-- `n as f64` for an `i64`. -/
def F64.ofInt (n : Int) : F64 :=
  F64.ofFloat (Int64.ofInt n).toFloat

inductive JsonNumber where
  | posInt (n : Nat)
  | negInt (n : Int)
  | float (value : F64)
deriving DecidableEq, Repr

inductive Json where
  | null
  | bool (value : Bool)
  | number (value : JsonNumber)
  | string (value : String)
  | array (items : List Json)
  | object (members : List (String × Json))

abbrev JsonMap := List (String × Json)

namespace Json

mutual

def decEq : (a b : Json) → Decidable (a = b)
  | .null, .null => isTrue rfl
  | .bool a, .bool b => decidable_of_iff (a = b) (by simp)
  | .number a, .number b => decidable_of_iff (a = b) (by simp)
  | .string a, .string b => decidable_of_iff (a = b) (by simp)
  | .array as, .array bs => @decidable_of_iff _ (as = bs) (by simp) (decEqItems as bs)
  | .object as, .object bs => @decidable_of_iff _ (as = bs) (by simp) (decEqMembers as bs)
  | .null, .bool _ | .null, .number _ | .null, .string _ | .null, .array _ | .null, .object _
  | .bool _, .null | .bool _, .number _ | .bool _, .string _ | .bool _, .array _ | .bool _, .object _
  | .number _, .null | .number _, .bool _ | .number _, .string _ | .number _, .array _
  | .number _, .object _ | .string _, .null | .string _, .bool _ | .string _, .number _
  | .string _, .array _ | .string _, .object _ | .array _, .null | .array _, .bool _
  | .array _, .number _ | .array _, .string _ | .array _, .object _ | .object _, .null
  | .object _, .bool _ | .object _, .number _ | .object _, .string _ | .object _, .array _ =>
    isFalse (by simp)

def decEqItems : (as bs : List Json) → Decidable (as = bs)
  | [], [] => isTrue rfl
  | [], _ :: _ | _ :: _, [] => isFalse (by simp)
  | a :: as, b :: bs =>
    @decidable_of_iff _ (a = b ∧ as = bs) (by simp)
      (@instDecidableAnd _ _ (decEq a b) (decEqItems as bs))

def decEqMembers : (as bs : List (String × Json)) → Decidable (as = bs)
  | [], [] => isTrue rfl
  | [], _ :: _ | _ :: _, [] => isFalse (by simp)
  | (k, a) :: as, (l, b) :: bs =>
    @decidable_of_iff _ ((k = l ∧ a = b) ∧ as = bs) (by simp)
      (@instDecidableAnd _ _ (@instDecidableAnd _ _ inferInstance (decEq a b)) (decEqMembers as bs))

end

instance : DecidableEq Json := decEq

/-- `value.get(key)`: nothing where the value is not an object. -/
def get (key : String) : Json → Option Json
  | .object members => members.lookup key
  | _ => none

def asStr : Json → Option String
  | .string s => some s
  | _ => none

def asBool : Json → Option Bool
  | .bool value => some value
  | _ => none

def asU64 : Json → Option Nat
  | .number (.posInt n) => some n
  | _ => none

def asF64 : Json → Option F64
  | .number (.posInt n) => some (F64.ofNat n)
  | .number (.negInt n) => some (F64.ofInt n)
  | .number (.float x) => some x
  | _ => none

def isObject : Json → Bool
  | .object _ => true
  | _ => false

end Json

namespace JsonMap

/-- `map.insert(key, value)`: an existing key keeps its place. -/
def set (key : String) (value : Json) : JsonMap → JsonMap
  | [] => [(key, value)]
  | (k, v) :: rest => if k = key then (k, value) :: rest else (k, v) :: set key value rest

/-- `map.remove(key)`, up to the order that is left. -/
def remove (key : String) (members : JsonMap) : JsonMap :=
  members.filter (·.1 ≠ key)

theorem lookup_set_self (key : String) (value : Json) (members : JsonMap) :
    (set key value members).lookup key = some value := by
  induction members with
  | nil => simp [set]
  | cons member members ih =>
    obtain ⟨k, v⟩ := member
    rw [set]
    split
    · rename_i hKey
      simp [hKey]
    · rename_i hKey
      rw [List.lookup_cons, ih]
      have hNe : (key == k) = false := by simpa using fun h => hKey h.symm
      rw [hNe]

variable {key other : String}

theorem lookup_set_of_ne (hNe : other ≠ key) (value : Json) (members : JsonMap) :
    (set key value members).lookup other = members.lookup other := by
  have hTest : (other == key) = false := by simpa using hNe
  induction members with
  | nil => simp [set, List.lookup_cons, hTest]
  | cons member members ih =>
    obtain ⟨k, v⟩ := member
    rw [set]
    split
    · rename_i hKey
      subst hKey
      rw [List.lookup_cons, List.lookup_cons, hTest]
    · rw [List.lookup_cons, List.lookup_cons, ih]

theorem lookup_remove_of_ne (hNe : other ≠ key) (members : JsonMap) :
    (remove key members).lookup other = members.lookup other := by
  induction members with
  | nil => rfl
  | cons member members ih =>
    obtain ⟨k, v⟩ := member
    unfold remove at ih ⊢
    by_cases hKey : k = key
    · have hTest : (other == k) = false := by simpa [hKey] using hNe
      rw [List.filter_cons_of_neg (by simpa using hKey), ih, List.lookup_cons, hTest]
    · rw [List.filter_cons_of_pos (by simpa using hKey), List.lookup_cons, List.lookup_cons, ih]

end JsonMap

end PrimeAgent
