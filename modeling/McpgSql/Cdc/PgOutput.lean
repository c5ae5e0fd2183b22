import Mathlib.Algebra.Group.Int.Defs
import McpgSql.Json

/-!
# The messages of a logical replication slot

The decoded messages of PostgreSQL's `pgoutput` plugin and what the watch
reads from them: a tuple as a JSON object (`rowOf`), an LSN as PostgreSQL
writes it (`lsnText`), a commit time.
-/

namespace McpgSql.Cdc

open Library

/-- A position in the write-ahead log, a `u64`; the watch only compares them. -/
abbrev Lsn := Nat

/-- What the decoder takes from its libraries: Rust's reading of a double (its
bits, when it is finite), `serde_json`'s reader, and the protocol crate's
RFC 3339 text of a time in milliseconds. -/
structure Codec where
  parseF64 : String → Option (BitVec 64)
  parseJson : String → Option Value
  occurredAtFromMillis : Int → Option String

structure Column where
  name : String
  typeOid : Nat
  key : Bool
deriving DecidableEq, Repr

/-- A table, as a Relation message describes it. -/
structure Relation where
  schema : String
  name : String
  columns : List Column
deriving DecidableEq, Repr

/-- One column value of a tuple; `unchanged` is a TOASTed value the change left
as it was and did not send. -/
inductive Datum where
  | null
  | unchanged
  | text (s : String)
deriving DecidableEq, Repr

inductive Message where
  | begin (finalLsn : Lsn) (commitTimeMicros : Int) (xid : Nat)
  | commit (endLsn : Lsn)
  | relation (oid : Nat) (relation : Relation)
  | insert (oid : Nat) (new : List Datum)
  /-- `old` is the old key (`false`) or row (`true`), when the replica identity
  sends one. -/
  | update (oid : Nat) (old : Option (List Datum × Bool)) (new : List Datum)
  | delete (oid : Nat) (old : List Datum) (full : Bool)
  | truncate (oids : List Nat) (cascade : Bool) (restartIdentity : Bool)
  | other
deriving DecidableEq, Repr

/-- The messages that change rows: all but Begin, Commit, Relation and the ones
a row change does not need. -/
def Message.isChange : Message → Bool
  | begin .. | commit .. | relation .. | other => false
  | insert .. | update .. | delete .. | truncate .. => true

/-- The relations of one decoding session, by oid. -/
abbrev Relations := OrdMap Nat Relation

/-! ## Values -/

/-- The value of the decimal digits `cs`, `none` when one is not a digit. -/
def digits : Nat → List Char → Option Nat
  | n, [] => some n
  | n, c :: cs => if c.isDigit then digits (10 * n + (c.toNat - '0'.toNat)) cs else none

/-- `str::parse::<i64>`: an optional sign, then at least one digit, in range. -/
def parseI64 (text : String) : Option Int :=
  let value (negative : Bool) (cs : List Char) : Option Int :=
    if cs.isEmpty then none else (digits 0 cs).bind fun n =>
      let i : Int := if negative then -n else n
      if -2 ^ 63 ≤ i ∧ i < 2 ^ 63 then some i else none
  match text.toList with
  | '-' :: cs => value true cs
  | '+' :: cs => value false cs
  | cs => value false cs

/-- A column value as JSON, by its type: numbers and booleans as such, `json`
and `jsonb` parsed, everything else as PostgreSQL's text. -/
def valueOf (lib : Codec) (typeOid : Nat) (text : String) : Value :=
  match typeOid with
  | 16 => .bool (text == "t")
  | 20 | 21 | 23 | 26 => (parseI64 text).elim (.str text) .ofInt
  | 700 | 701 => (lib.parseF64 text).elim (.str text) fun bits => .num (.float bits)
  | 114 | 3802 => (lib.parseJson text).getD (.str text)
  | _ => .str text

/-- A tuple as a JSON object, and the columns a change left unchanged. With
`keysOnly`, only the key columns. -/
def rowOf (lib : Codec) (relation : Relation) (datums : List Datum) (keysOnly : Bool) :
    List (String × Value) × List String :=
  (relation.columns.zip datums).foldl
    (fun (row, unchanged) (column, datum) =>
      if keysOnly && !column.key then (row, unchanged)
      else match datum with
        | .null => (Assoc.insert row column.name .null, unchanged)
        | .unchanged => (row, unchanged ++ [column.name])
        | .text text =>
          (Assoc.insert row column.name (valueOf lib column.typeOid text), unchanged))
    ([], [])

/-! ## Positions and times -/

/-- `{:X}`: upper-case hexadecimal, without leading zeros. -/
def upperHex (n : Nat) : String := String.ofList ((Nat.toDigits 16 n).map Char.toUpper)

/-- An LSN as PostgreSQL writes it, `X/Y`. -/
def lsnText (lsn : Lsn) : String := upperHex (lsn >>> 32) ++ "/" ++ upperHex (lsn &&& 0xFFFFFFFF)

/-- Microseconds between the Unix epoch and PostgreSQL's, 2000-01-01. -/
def pgEpochMicros : Int := 946684800000000

/-- A commit time, RFC 3339, from microseconds since 2000-01-01; Rust's `/` on
signed integers rounds toward zero. -/
def commitTime (lib : Codec) (micros : Int) : Option String :=
  lib.occurredAtFromMillis ((micros + pgEpochMicros).tdiv 1000)

/-! ## Samples -/

/-- A codec for sample messages: their values are text and their commit time is
PostgreSQL's epoch. -/
def sampleCodec : Codec where
  parseF64 _ := none
  parseJson _ := none
  occurredAtFromMillis millis :=
    if millis = 946684800000 then some "2000-01-01T00:00:00.000Z" else none

/-- A table with one text column. -/
def sampleRelation : Relation where
  schema := "public"
  name := "orders"
  columns := [{ name := "id", typeOid := 25, key := true }]

end McpgSql.Cdc
