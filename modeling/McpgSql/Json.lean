import Mathlib.Data.String.Basic
import McpgSql.Library.OrdMap

/-!
# JSON values

`serde_json::Value` as the plugin uses it. Without the `preserve_order` feature
its `Map` is a B-tree map, so an object is the list of its members in key
order; `Assoc.insert` keeps that order.
-/

namespace McpgSql

open Library

/-- A JSON number: an unsigned integer, a negative integer (`neg n` is
`-(n + 1)`), or a finite double, by its bits. -/
inductive Number where
  | pos (n : Nat)
  | neg (n : Nat)
  | float (bits : BitVec 64)
deriving DecidableEq, Repr

/-- The number of an integer. -/
def Number.ofInt : Int → Number
  | .ofNat n => .pos n
  | .negSucc n => .neg n

inductive Value where
  | null
  | bool (b : Bool)
  | num (n : Number)
  | str (s : String)
  | arr (items : List Value)
  | obj (members : List (String × Value))
deriving Repr

namespace Value

mutual

def decEq : (v w : Value) → Decidable (v = w)
  | null, null => isTrue rfl
  | bool a, bool b => decidable_of_iff (a = b) (by simp)
  | num a, num b => decidable_of_iff (a = b) (by simp)
  | str a, str b => decidable_of_iff (a = b) (by simp)
  | arr a, arr b => match decEqItems a b with
    | isTrue h => isTrue (by rw [h])
    | isFalse h => isFalse (by simpa using h)
  | obj a, obj b => match decEqMembers a b with
    | isTrue h => isTrue (by rw [h])
    | isFalse h => isFalse (by simpa using h)
  | null, bool _ | null, num _ | null, str _ | null, arr _ | null, obj _
  | bool _, null | bool _, num _ | bool _, str _ | bool _, arr _ | bool _, obj _
  | num _, null | num _, bool _ | num _, str _ | num _, arr _ | num _, obj _
  | str _, null | str _, bool _ | str _, num _ | str _, arr _ | str _, obj _
  | arr _, null | arr _, bool _ | arr _, num _ | arr _, str _ | arr _, obj _
  | obj _, null | obj _, bool _ | obj _, num _ | obj _, str _ | obj _, arr _ => isFalse nofun

def decEqItems : (a b : List Value) → Decidable (a = b)
  | [], [] => isTrue rfl
  | [], _ :: _ | _ :: _, [] => isFalse nofun
  | v :: a, w :: b => match decEq v w, decEqItems a b with
    | isTrue h, isTrue h' => isTrue (by rw [h, h'])
    | isFalse h, _ => isFalse (by simp [h])
    | _, isFalse h => isFalse (by simp [h])

def decEqMembers : (a b : List (String × Value)) → Decidable (a = b)
  | [], [] => isTrue rfl
  | [], _ :: _ | _ :: _, [] => isFalse nofun
  | (k, v) :: a, (j, w) :: b =>
    if hk : k = j then match decEq v w, decEqMembers a b with
      | isTrue h, isTrue h' => isTrue (by rw [hk, h, h'])
      | isFalse h, _ => isFalse (by simp [h])
      | _, isFalse h => isFalse (by simp [h])
    else isFalse (by simp [hk])

end

instance : DecidableEq Value := decEq

def isNull : Value → Bool
  | null => true
  | _ => false

/-- The member `key` of an object. -/
def get : Value → String → Option Value
  | obj members, key => Assoc.get? members key
  | _, _ => none

def asStr : Value → Option String
  | str s => some s
  | _ => none

/-- The kind of a value, for messages. -/
def jsonType : Value → String
  | null => "null"
  | bool _ => "boolean"
  | num _ => "number"
  | str _ => "string"
  | arr _ => "array"
  | obj _ => "object"

/-- The value as a `u64`, which an unsigned JSON integer is. -/
def asU64 : Value → Option Nat
  | num (.pos n) => some n
  | _ => none

/-- The value of an unsigned integer. -/
def ofNat (n : Nat) : Value := num (.pos n)

/-- The value of a signed integer. -/
def ofInt (i : Int) : Value := num (.ofInt i)

/-- An object with these members, as `json!` builds it: the last of two members
of one name stays. -/
def object (members : List (String × Value)) : Value := obj (Assoc.ofList members)

end Value

end McpgSql
