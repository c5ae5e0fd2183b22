import McpgSql.Config
import McpgSql.Json
import McpgSql.Library.Except
import McpgSql.Library.Utf8

/-!
# Placeholders

The rewriting of `:name` placeholders to the driver's positional form, on the
bytes of the SQL text as the source reads them.
-/

namespace McpgSql

open Library

/-- An argument to bind; the name is for messages only. -/
structure BoundParam where
  name : String
  value : Value
deriving DecidableEq, Repr

/-- The rewritten SQL and the names of its placeholders, in the order the driver
binds them. -/
structure PreparedStmt where
  sql : String
  paramOrder : List String
  driver : DriverKind
deriving DecidableEq, Repr

/-- The bytes of a text. -/
def utf8 (s : String) : List UInt8 := s.toByteArray.data.toList

theorem utf8_inj {a b : String} : utf8 a = utf8 b ↔ a = b := by
  simp [utf8, ← Array.toList_inj, ByteArray.ext_iff, ← String.toByteArray_inj]

theorem utf8_append (a b : String) : utf8 (a ++ b) = utf8 a ++ utf8 b := by
  simp [utf8]

theorem utf8_eq_flatMap (s : String) : utf8 s = s.toList.flatMap String.utf8EncodeChar := by
  have : s.toByteArray = s.toList.utf8Encode := by
    rw [← String.toByteArray_ofList, String.ofList_toList]
  simp [utf8, this, List.utf8Encode]

/-- `[A-Za-z0-9_]`. -/
def isNameByte (b : UInt8) : Bool :=
  (b ≥ 48 && b ≤ 57) || (b ≥ 65 && b ≤ 90) || (b ≥ 97 && b ≤ 122) || b = 95

/-- An ASCII character is one byte, its code. -/
theorem utf8EncodeChar_of_ascii {c : Char} (h : c.val.toNat < 128) :
    String.utf8EncodeChar c = [c.toUInt8] ∧ c.toUInt8.toNat = c.val.toNat := by
  constructor
  · have : c.val ≤ 127 := UInt32.le_iff_toNat_le.mpr (Nat.le_of_lt_succ h)
    exact String.utf8EncodeChar_eq_singleton (by simp [Char.utf8Size, this])
  · rw [Char.toUInt8, UInt32.toNat_toUInt8]
    omega

theorem utf8_of_ascii {s : String} (h : ∀ c ∈ s.toList, c.val.toNat < 128) :
    utf8 s = s.toList.map Char.toUInt8 := by
  rw [utf8_eq_flatMap, List.map_eq_flatMap]
  exact List.flatMap_congr fun c hc => (utf8EncodeChar_of_ascii (h c hc)).1

/-- Bytes written as the characters with their codes. -/
theorem latin1_injective :
    Function.Injective fun bytes : List UInt8 => String.ofList (bytes.map Char.ofUInt8) := by
  intro x y h
  refine List.map_injective_iff.mpr (fun a b h => ?_) (String.ofList_injective h)
  exact UInt8.toUInt32_inj.mp (congrArg Char.val h)

theorem isWhiteSpace_of_isAlphanum {c : Char} (h : c.isAlphanum = true) :
    isWhiteSpace c = false :=
  of_ascii (P := fun c => c.isAlphanum = true → isWhiteSpace c = false) (ascii_of_isAlphanum h)
    (by decide) h

theorem identifier_char {c : Char} (h : (c.isAlphanum || c = '_' || c = '.') = true) :
    c.val.toNat < 128 ∧ (isNameByte c.toUInt8 || c.toUInt8 = 46) = true := by
  by_cases hu : c = '_'
  · subst hu; decide
  by_cases hp : c = '.'
  · subst hp; decide
  have hc := code_of_isAlphanum (c := c) (by simpa [hu, hp] using h)
  have hascii : c.val.toNat < 128 := by omega
  refine ⟨hascii, ?_⟩
  simp only [isNameByte, Bool.or_eq_true, Bool.and_eq_true, decide_eq_true_eq, ge_iff_le,
    UInt8.le_iff_toNat_le, (utf8EncodeChar_of_ascii hascii).2]
  left
  left
  show ((48 ≤ _ ∧ _ ≤ 57) ∨ (65 ≤ _ ∧ _ ≤ 90)) ∨ (97 ≤ _ ∧ _ ≤ 122)
  omega

/-- The bytes of an identifier are those of a placeholder's name, or a point. -/
theorem identifier_bytes {s : String} (h : isSafeSqlIdentifier s) :
    utf8 s ≠ [] ∧ ∀ b ∈ utf8 s, isNameByte b || b = 46 := by
  simp only [isSafeSqlIdentifier, Bool.and_eq_true, List.all_eq_true] at h
  have hc := fun c hc => identifier_char (h.1.2 c hc)
  rw [utf8_of_ascii fun c hc' => (hc c hc').1]
  refine ⟨by simpa using h.1.1, fun b hb => ?_⟩
  obtain ⟨c, hc', rfl⟩ := List.mem_map.mp hb
  exact (hc c hc').2

/-- `b as char`: the character with this code, whatever the byte was part of. -/
def asChar (b : UInt8) : Char := Char.ofNat b.toNat

/-- What `rewrite_placeholders` has written, and whether it is in a literal or a
quoted identifier. -/
structure Rewriting where
  out : List Char := []
  order : List String := []
  inSingleQuote : Bool := false
  inDoubleQuote : Bool := false

/-- The placeholder of the driver for the last name of `order`. -/
def placeholder (driver : DriverKind) (order : List String) : List Char :=
  match driver with
  | .postgres => '$' :: (toString order.length).toList
  | .mysql | .mariadb | .sqlite => ['?']

/-- The loop of `rewrite_placeholders`; every round takes a byte at least, so the
number of bytes bounds the rounds. -/
def rewriteLoop (driver : DriverKind) : Nat → List UInt8 → Rewriting → Rewriting
  | 0, _, st => st
  | _ + 1, [], st => st
  | n + 1, c :: rest, st =>
    if c = 39 && !st.inDoubleQuote then
      rewriteLoop driver n rest
        { st with inSingleQuote := !st.inSingleQuote, out := st.out ++ [asChar c] }
    else if c = 34 && !st.inSingleQuote then
      rewriteLoop driver n rest
        { st with inDoubleQuote := !st.inDoubleQuote, out := st.out ++ [asChar c] }
    else if c = 58 && !st.inSingleQuote && !st.inDoubleQuote then
      -- `::` is a cast; a `:` with no name after it stays.
      if rest.head? = some 58 then
        rewriteLoop driver n rest.tail { st with out := st.out ++ [':', ':'] }
      else if (rest.takeWhile isNameByte).isEmpty then
        rewriteLoop driver n rest { st with out := st.out ++ [':'] }
      else
        let order := st.order ++ [String.ofList ((rest.takeWhile isNameByte).map asChar)]
        rewriteLoop driver n (rest.dropWhile isNameByte)
          { st with order, out := st.out ++ placeholder driver order }
    else rewriteLoop driver n rest { st with out := st.out ++ [asChar c] }

/-- The SQL with the driver's placeholders, and the names they stand for. -/
def rewritePlaceholders (sql : String) (driver : DriverKind) : String × List String :=
  let st := rewriteLoop driver (utf8 sql).length (utf8 sql) {}
  (String.ofList st.out, st.order)

example : rewritePlaceholders "a = :id::int AND t = ':x'" .postgres =
    ("a = $1::int AND t = ':x'", ["id"]) := by
  decide

/-- The arguments of the call bound to the placeholders, in the order of the
statement. -/
def collectBoundParams (args : Value) (paramOrder : List String) :
    Except SqlError (List BoundParam) :=
  match args with
  | .obj obj => paramOrder.mapM fun name =>
    match Assoc.get? obj name with
    | some value => .ok { name, value }
    | none => .error (.invalidSpec ("missing required parameter '" ++ name ++ "'"))
  | .null => match paramOrder with
    | [] => .ok []
    | name :: _ => .error (.invalidSpec ("tool arguments must be an object when parameters are " ++
        "declared; missing '" ++ name ++ "'"))
  | _ => .error (.invalidSpec "tool arguments must be a JSON object")

/-- Every placeholder is bound to the argument of its name. -/
theorem collectBoundParams_obj {obj : List (String × Value)} {order : List String}
    {bound : List BoundParam} :
    collectBoundParams (.obj obj) order = .ok bound ↔
      (∀ name ∈ order, Assoc.get? obj name ≠ none) ∧
        bound = order.map fun name => { name, value := (Assoc.get? obj name).getD .null } := by
  simp only [collectBoundParams]
  induction order generalizing bound with
  | nil =>
    rw [List.mapM_nil, pure_eq_ok]
    simp [eq_comm]
  | cons name order ih =>
    simp only [List.mapM_cons, bind_eq_ok, pure_eq_ok, ih, List.forall_mem_cons, List.map_cons]
    cases hget : Assoc.get? obj name with
    | none => simp
    | some value =>
      constructor
      · rintro ⟨p, hp, rest, ⟨hall, rfl⟩, rfl⟩
        cases hp
        exact ⟨⟨Option.some_ne_none _, hall⟩, rfl⟩
      · rintro ⟨⟨-, hall⟩, rfl⟩
        exact ⟨_, rfl, _, ⟨hall, rfl⟩, rfl⟩

end McpgSql
