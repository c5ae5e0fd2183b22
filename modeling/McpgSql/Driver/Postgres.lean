import McpgSql.Schema.Derive

/-!
# Rows of PostgreSQL

`decode_pg_column` reads a column as the Rust type that its type name asks for, and
writes that as JSON. What the server sent is read by a library, which fails where the
column is not of that Rust type or the value does not fit it; `row_to_json_pg` then
writes null.
-/

namespace McpgSql.Driver

open Library McpgSql.Schema

/-- The types that are written as texts. -/
inductive TextType where
  | decimal
  | uuid
  | dateTimeUtc
  | naiveDateTime
  | naiveDate
  | naiveTime
  | pgInterval
  | string
deriving DecidableEq, Repr

/-- The types that a column is read as. -/
inductive RustType where
  | bool
  | i16
  | i32
  | i64
  | f64
  | value
  | bytes
  | text (t : TextType)
deriving DecidableEq, Repr

/-- What is read: a double is its bits, and a value that is written as a text is that
text. -/
def RustType.Read : RustType → Type
  | .bool => Bool
  | .i16 => Int16
  | .i32 => Int32
  | .i64 => Int64
  | .f64 => BitVec 64
  | .value => Value
  | .bytes => List UInt8
  | .text _ => String

/-- What is taken from libraries: `try_get` on what the server sent for a column, with
null as `none`, and the text of bytes. -/
structure PgLib (ρ : Type) where
  tryGet : (t : RustType) → ρ → Except String (Option t.Read)
  base64 : List UInt8 → String

/-- The Rust type that a column of this type name is read as; at last, a text. -/
def rustType (typeName : String) : RustType :=
  match typeName with
  | "BOOL" | "BOOLEAN" => .bool
  | "INT2" | "SMALLINT" => .i16
  | "INT4" | "INTEGER" => .i32
  | "INT8" | "BIGINT" => .i64
  | "FLOAT4" | "FLOAT8" | "REAL" | "DOUBLE PRECISION" => .f64
  | "NUMERIC" | "DECIMAL" => .text .decimal
  | "JSON" | "JSONB" => .value
  | "UUID" => .text .uuid
  | "TIMESTAMPTZ" | "TIMESTAMP WITH TIME ZONE" => .text .dateTimeUtc
  | "TIMESTAMP" | "TIMESTAMP WITHOUT TIME ZONE" => .text .naiveDateTime
  | "DATE" => .text .naiveDate
  | "TIME" | "TIME WITHOUT TIME ZONE" => .text .naiveTime
  | "INTERVAL" => .text .pgInterval
  | "BYTEA" => .bytes
  | _ => .text .string

/-- `Number::from_f64`: a JSON number is finite. -/
def fromF64 (bits : BitVec 64) : Value :=
  if bits.toNat / 2 ^ 52 % 2 ^ 11 = 2047 then .null else .num (.float bits)

theorem fromF64_eq_null_iff (bits : BitVec 64) :
    fromF64 bits = .null ↔ bits.toNat / 2 ^ 52 % 2 ^ 11 = 2047 := by
  unfold fromF64
  split
  · rename_i hexp
    exact ⟨fun _ => hexp, fun _ => rfl⟩
  · rename_i hexp
    exact ⟨nofun, fun h => absurd h hexp⟩

section

variable {ρ : Type} (lib : PgLib ρ)

/-- What is read, as JSON. -/
def toJson : (t : RustType) → t.Read → Value
  | .bool, b => .bool b
  | .i16, v => .ofInt (Int16.toInt v)
  | .i32, v => .ofInt (Int32.toInt v)
  | .i64, v => .ofInt (Int64.toInt v)
  | .f64, bits => fromF64 bits
  | .value, v => v
  | .bytes, bytes => .object [("base64", .str (lib.base64 bytes))]
  | .text _, s => .str s

def decodePgColumn (cell : ρ) (typeName : String) : Except String Value := do
  match ← lib.tryGet (rustType typeName) cell with
  | some v => .ok (toJson lib _ v)
  | none => .ok .null

/-- The cell as it stands in a response: null where it cannot be decoded. -/
def shownCell (cell : ρ) (typeName : String) : Value :=
  (decodePgColumn lib cell typeName).toOption.getD .null

/-- A row: what the server sent for each of these columns. -/
structure PgRow (ρ : Type) (columns : List OutputColumn) where
  cells : List (OutputColumn × ρ)
  columns_eq : cells.map Prod.fst = columns

def rowToJsonPg {columns : List OutputColumn} (row : PgRow ρ columns) : Value :=
  .object (row.cells.map fun cell => (cell.1.name, shownCell lib cell.2 cell.1.pgType))

end

end McpgSql.Driver
