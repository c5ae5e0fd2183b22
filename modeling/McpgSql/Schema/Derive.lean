import McpgSql.Changes.Plan
import McpgSql.Config
import McpgSql.Json

/-!
# Derived output schemas

`output_schema_from_pg_columns`: the schema of a response, from the columns that the
server describes a prepared statement with and the row mode.
-/

namespace McpgSql.Schema

open Library

/-- The schema of a type by its name; a name that is not known takes every value. -/
def pgTypeToJsonSchema (pgType : String) : Value :=
  match Changes.asciiLowercase pgType with
  | "bool" => .object [("type", .str "boolean")]
  | "int2" | "smallint" => .object
      [("type", .str "integer"), ("minimum", .ofInt (-32768)), ("maximum", .ofInt 32767)]
  | "int4" | "integer" | "int" => .object [("type", .str "integer")]
  | "int8" | "bigint" => .object [("type", .str "integer")]
  | "float4" | "real" => .object [("type", .str "number")]
  | "float8" | "double precision" | "double" => .object [("type", .str "number")]
  -- a decimal keeps its digits as a text
  | "numeric" | "decimal" => .object [("type", .str "string"), ("format", .str "decimal")]
  | "text" | "varchar" | "char" | "bpchar" | "name" | "citext" => .object [("type", .str "string")]
  | "date" => .object [("type", .str "string"), ("format", .str "date")]
  | "time" | "timetz" => .object [("type", .str "string"), ("format", .str "time")]
  | "timestamp" | "timestamptz" => .object [("type", .str "string"), ("format", .str "date-time")]
  | "interval" => .object [("type", .str "string"), ("format", .str "duration")]
  | "uuid" => .object [("type", .str "string"), ("format", .str "uuid")]
  | "json" | "jsonb" => .object []
  | "bytea" => .object [("type", .str "string"), ("contentEncoding", .str "base64")]
  | _ => .object []

/-- A column as the server describes it. The nullability may be unknown. -/
structure OutputColumn where
  name : String
  pgType : String
  nullable : Option Bool
deriving DecidableEq, Repr

/-- A column that may be null takes null too. -/
def widenToNullable (frag : Value) (nullable : Option Bool) : Value :=
  if nullable = some false then frag
  else match frag with
    | .obj map =>
      let rest := Assoc.eraseP map fun key => key = "type"
      match Assoc.get? map "type" with
      | some (.str s) =>
        if s ≠ "null" then .obj (Assoc.insert rest "type" (.arr [.str s, .str "null"]))
        else .obj (Assoc.insert rest "type" (.str s))
      | some other => .obj (Assoc.insert rest "type" other)
      | none => .obj rest
    | frag => frag

/-- The schema of the values of a column. -/
def columnSchema (col : OutputColumn) : Value :=
  widenToNullable (pgTypeToJsonSchema col.pgType) col.nullable

/-- The schema of a row: a column is required where it is known not to be null. -/
def rowSchema (columns : List OutputColumn) : Value :=
  .object [("type", .str "object"), ("additionalProperties", .bool false),
    ("required", .arr ((columns.filter fun col => col.nullable = some false).map fun col =>
      .str col.name)),
    ("properties", .obj (Assoc.ofList (columns.map fun col => (col.name, columnSchema col))))]

/-- The schema of a response, where the row mode has one. -/
def outputSchemaFromPgColumns (columns : List OutputColumn) (rowMode : RowMode) : Option Value :=
  match columns with
  | [] => none
  | col :: _ => match rowMode with
    | .resourceContents | .resultSets => none
    | .affectedRows => some (.object [("type", .str "object"),
        ("properties", .object [("rows_affected",
          .object [("type", .str "integer"), ("minimum", .ofNat 0)])]),
        ("required", .arr [.str "rows_affected"])])
    | .scalar => some (columnSchema col)
    | .single => some (rowSchema columns)
    | .many => some (.object [("type", .str "array"), ("items", rowSchema columns)])
    | .stream => some (.object [("type", .str "object"), ("additionalProperties", .bool false),
        ("required", .arr [.str "rows", .str "next_cursor", .str "truncated"]),
        ("properties", .object
          [("rows", .object [("type", .str "array"), ("items", rowSchema columns)]),
          ("next_cursor", .object [("type", .arr [.str "string", .str "null"])]),
          ("truncated", .object [("type", .str "boolean")])])])

end McpgSql.Schema
