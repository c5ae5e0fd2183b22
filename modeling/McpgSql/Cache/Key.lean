import McpgSql.Library.OrdMap
import McpgSql.Params

/-!
# The key of a cached response

`build_cache_key` hashes the backend name, the SQL text, the bound parameters,
the session variables and the version of the cache, one after the other. The
hash is taken over the bytes given to it, in that order.

`writeValue` takes the members of an object in the order of their names, so the
bytes of a value are those of its canonical form, written as it stands
(`writeValue_eq_emit`).
-/

namespace McpgSql.Cache

open Library

/-- What the key takes from the libraries: BLAKE3 as hexadecimal text, and
`serde_json`'s text of a double. -/
structure Lib where
  blake3Hex : List UInt8 → String
  floatText : BitVec 64 → String

/-- The variables set on a connection, in the order of their names. -/
structure SessionVars where
  values : OrdMap String String
deriving DecidableEq

/-- The bytes of `n as u32`, the lowest first. -/
def le32 (n : Nat) : List UInt8 :=
  [UInt8.ofNat n, UInt8.ofNat (n / 2 ^ 8), UInt8.ofNat (n / 2 ^ 16), UInt8.ofNat (n / 2 ^ 24)]

/-- The bytes of a `u64`, the lowest first. -/
def le64 (n : UInt64) : List UInt8 :=
  (List.range 8).map fun i => UInt8.ofNat (n.toNat / 2 ^ (8 * i))

/-- `Number::to_string`. -/
def numberText (lib : Lib) : Number → String
  | .pos n => Nat.repr n
  | .neg n => "-" ++ Nat.repr (n + 1)
  | .float bits => lib.floatText bits

/-- The members, each with its bytes, in the order of their names. -/
def sortMembers {α : Type} (members : List (String × α)) : List (String × α) :=
  members.insertionSort fun a b => a.1 ≤ b.1

/-- The members of an object as they are given to the hasher. -/
def joinMembers (members : List (String × List UInt8)) : List UInt8 :=
  members.flatMap fun m => utf8 m.1 ++ ':'.toUInt8 :: (m.2 ++ [';'.toUInt8])

mutual

/-- The bytes of a JSON value: the members of an object in the order of their
names, the items of a list each after its index. The source sorts the names and
looks each up; no name comes twice in an object, so that is the same. -/
def writeValue (lib : Lib) : Value → List UInt8
  | .null => ['n'.toUInt8]
  | .bool true => ['t'.toUInt8]
  | .bool false => ['f'.toUInt8]
  | .num n => '#'.toUInt8 :: utf8 (numberText lib n)
  | .str s => '"'.toUInt8 :: (utf8 s ++ ['"'.toUInt8])
  | .arr items => '['.toUInt8 :: (writeItems lib 0 items ++ [']'.toUInt8])
  | .obj members =>
    '{'.toUInt8 :: (joinMembers (sortMembers (writeMembers lib members)) ++ ['}'.toUInt8])

/-- The items from index `i` on. -/
def writeItems (lib : Lib) : Nat → List Value → List UInt8
  | _, [] => []
  | i, item :: items => le32 i ++ writeValue lib item ++ writeItems lib (i + 1) items

/-- The bytes of each member's value. -/
def writeMembers (lib : Lib) : List (String × Value) → List (String × List UInt8)
  | [] => []
  | (k, v) :: members => (k, writeValue lib v) :: writeMembers lib members

end

/-- The parameters from index `i` on, in the order they are bound. -/
def writeCanonicalParams (lib : Lib) : Nat → List BoundParam → List UInt8
  | _, [] => []
  | i, p :: params =>
    le32 i ++ utf8 p.name ++ '='.toUInt8 :: (writeValue lib p.value ++
      ';'.toUInt8 :: writeCanonicalParams lib (i + 1) params)

def writeSessionVars (vars : OrdMap String String) : List UInt8 :=
  vars.entries.flatMap fun var => utf8 var.1 ++ '='.toUInt8 :: (utf8 var.2 ++ [';'.toUInt8])

/-- The bytes given to the hasher. -/
def keyBytes (lib : Lib) (backendName sqlText : String) (boundParams : List BoundParam)
    (sessionVars : SessionVars) (version : UInt64) : List UInt8 :=
  utf8 "sql\x00" ++ (utf8 backendName ++ 0 :: (utf8 sqlText ++ 0 ::
    (writeCanonicalParams lib 0 boundParams ++ 0 ::
      (writeSessionVars sessionVars.values ++ 0 :: le64 version))))

/-- The key of one call. -/
def buildCacheKey (lib : Lib) (backendName sqlText : String) (boundParams : List BoundParam)
    (sessionVars : SessionVars) (version : UInt64) : String :=
  lib.blake3Hex (keyBytes lib backendName sqlText boundParams sessionVars version)

/-! ## Canonical values -/

mutual

/-- The value with the members of its objects in the order of their names. -/
def canon : Value → Value
  | .arr items => .arr (canonItems items)
  | .obj members => .obj (sortMembers (canonMembers members))
  | v => v

def canonItems : List Value → List Value
  | [] => []
  | v :: items => canon v :: canonItems items

def canonMembers : List (String × Value) → List (String × Value)
  | [] => []
  | (k, v) :: members => (k, canon v) :: canonMembers members

end

mutual

/-- The bytes of a value whose members are in the order to write them in. -/
def emit (lib : Lib) : Value → List UInt8
  | .null => ['n'.toUInt8]
  | .bool true => ['t'.toUInt8]
  | .bool false => ['f'.toUInt8]
  | .num n => '#'.toUInt8 :: utf8 (numberText lib n)
  | .str s => '"'.toUInt8 :: (utf8 s ++ ['"'.toUInt8])
  | .arr items => '['.toUInt8 :: (emitItems lib 0 items ++ [']'.toUInt8])
  | .obj members => '{'.toUInt8 :: (emitMembers lib members ++ ['}'.toUInt8])

def emitItems (lib : Lib) : Nat → List Value → List UInt8
  | _, [] => []
  | i, item :: items => le32 i ++ emit lib item ++ emitItems lib (i + 1) items

def emitMembers (lib : Lib) : List (String × Value) → List UInt8
  | [] => []
  | (k, v) :: members =>
    utf8 k ++ ':'.toUInt8 :: (emit lib v ++ ';'.toUInt8 :: emitMembers lib members)

end

theorem canonItems_eq_map (items : List Value) : canonItems items = items.map canon := by
  induction items with
  | nil => rfl
  | cons v items ih => rw [canonItems, ih, List.map_cons]

theorem emitMembers_eq_join (lib : Lib) (members : List (String × Value)) :
    emitMembers lib members = joinMembers (members.map fun m => (m.1, emit lib m.2)) := by
  induction members with
  | nil => rfl
  | cons m members ih =>
    obtain ⟨k, v⟩ := m
    simp only [emitMembers, ih, joinMembers, List.map_cons, List.flatMap_cons, List.append_assoc,
      List.cons_append, List.nil_append]

/-- The order of the members depends on their names only. -/
theorem map_sortMembers {α β : Type} (f : α → β) (members : List (String × α)) :
    (sortMembers members).map (fun m => (m.1, f m.2)) =
      sortMembers (members.map fun m => (m.1, f m.2)) :=
  List.map_insertionSort _ _ _ _ fun _ _ _ _ => Iff.rfl

mutual

/-- A value is written as its canonical form stands. -/
theorem writeValue_eq_emit (lib : Lib) : (v : Value) → writeValue lib v = emit lib (canon v)
  | .null => rfl
  | .bool true => rfl
  | .bool false => rfl
  | .num _ => rfl
  | .str _ => rfl
  | .arr items => by
    rw [writeValue, canon, emit, writeItems_eq_emit lib 0 items]
  | .obj members => by
    rw [writeValue, canon, emit, emitMembers_eq_join, map_sortMembers,
      writeMembers_eq_emit lib members]

theorem writeItems_eq_emit (lib : Lib) :
    (i : Nat) → (items : List Value) → writeItems lib i items = emitItems lib i (canonItems items)
  | _, [] => rfl
  | i, v :: items => by
    rw [writeItems, canonItems, emitItems, writeValue_eq_emit lib v,
      writeItems_eq_emit lib (i + 1) items]

theorem writeMembers_eq_emit (lib : Lib) : (members : List (String × Value)) →
    writeMembers lib members = (canonMembers members).map fun m => (m.1, emit lib m.2)
  | [] => rfl
  | (k, v) :: members => by
    rw [writeMembers, canonMembers, List.map_cons, writeValue_eq_emit lib v,
      writeMembers_eq_emit lib members]

end

/-! ## Calls -/

/-- What a cached call is made of. -/
structure Call where
  backendName : String
  sqlText : String
  boundParams : List BoundParam
  sessionVars : SessionVars
  version : UInt64
deriving DecidableEq

/-- The key the response of `c` is stored under. -/
def Call.key (lib : Lib) (c : Call) : String :=
  buildCacheKey lib c.backendName c.sqlText c.boundParams c.sessionVars c.version

/-- The parameter with its value in canonical form. -/
def canonParam (p : BoundParam) : BoundParam := { p with value := canon p.value }

/-- The call with its parameters' values in canonical form. -/
def Call.canon (c : Call) : Call := { c with boundParams := c.boundParams.map canonParam }

/-- The same call: objects are compared without regard to the order of their
members. -/
def Call.Same (a b : Call) : Prop := a.canon = b.canon

instance (a b : Call) : Decidable (a.Same b) := inferInstanceAs (Decidable (_ = _))

theorem Call.same_iff {a b : Call} :
    a.Same b ↔ a.backendName = b.backendName ∧ a.sqlText = b.sqlText ∧
      a.boundParams.map canonParam = b.boundParams.map canonParam ∧
      a.sessionVars = b.sessionVars ∧ a.version = b.version := by
  cases a; cases b; simp [Call.Same, Call.canon]

end McpgSql.Cache
