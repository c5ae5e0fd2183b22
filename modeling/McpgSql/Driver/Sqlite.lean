import McpgSql.Changes.Plan
import McpgSql.Driver.Postgres
import McpgSql.Execute.Shape

/-!
# Rows of SQLite

A cell has a storage class of its own, whatever its column declares. The driver and the
transaction handle each have a binder and a decoder: the driver probes a cell for all
classes, the handle for integers and texts only.

`tx_same_iff`: a transaction gives the rows of a plain call where no cell that a row shows
is a finite real or a blob.
-/

namespace McpgSql.Driver

open Library

/-- What a cell stores. -/
inductive SqliteCell where
  | null
  | integer (n : Int64)
  | real (bits : BitVec 64)
  | text (s : String)
  | blob (bytes : List UInt8)
deriving DecidableEq, Repr

/-- The types that a cell is probed for. -/
inductive SqliteType where
  | i64
  | f64
  | bool
  | string
  | bytes
deriving DecidableEq, Repr

def SqliteType.Read : SqliteType → Type
  | .i64 => Int64
  | .f64 => BitVec 64
  | .bool => Bool
  | .string => String
  | .bytes => List UInt8

/-- A value bound to a placeholder; null is bound as a text that is not there. -/
inductive SqliteArg where
  | null
  | bool (b : Bool)
  | int (i : Int)
  | double (bits : BitVec 64)
  | text (s : String)
deriving DecidableEq, Repr

/-- What is taken from libraries: `try_get`, with null as `none`, the text of bytes, and the
double and the texts of JSON values. -/
structure SqliteLib where
  tryGet : (t : SqliteType) → SqliteCell → Except String (Option t.Read)
  base64 : List UInt8 → String
  asF64 : Number → Option (BitVec 64)
  numberText : Number → String
  valueText : Value → String

/-- The columns of a row with their cells. -/
abbrev SqliteRow := List (String × SqliteCell)

/-- What runs a statement: its rows, or its error as `from_execute` gives it. -/
abbrev FetchAll := String → List SqliteArg → Except SqlError (List SqliteRow)

section

variable (lib : SqliteLib)

/-! ## Plain calls -/

def bindSqlite (q : List SqliteArg) (v : Value) : List SqliteArg :=
  match v with
  | .null => q ++ [.null]
  | .bool b => q ++ [.bool b]
  | .num n => match Changes.asI64 n with
    | some i => q ++ [.int i]
    | none => match lib.asF64 n with
      | some bits => q ++ [.double bits]
      | none => q ++ [.text (lib.numberText n)]
  | .str s => q ++ [.text s]
  | .arr _ | .obj _ => q ++ [.text (lib.valueText v)]

def decodeSqliteColumn (cell : SqliteCell) : Except String Value :=
  match lib.tryGet .i64 cell with
  | .ok v => .ok (v.elim .null fun i : Int64 => .ofInt i.toInt)
  | .error _ => match lib.tryGet .f64 cell with
    | .ok v => .ok (v.elim .null fromF64)
    | .error _ => match lib.tryGet .bool cell with
      | .ok v => .ok (v.elim .null .bool)
      | .error _ => match lib.tryGet .string cell with
        | .ok v => .ok (v.elim .null .str)
        | .error _ => match lib.tryGet .bytes cell with
          | .ok v => .ok (v.elim .null fun bytes => .object [("base64", .str (lib.base64 bytes))])
          | .error _ => .error "no decode path matched"

/-- The cell in a row of a plain call. -/
def plainCell (cell : SqliteCell) : Value := (decodeSqliteColumn lib cell).toOption.getD .null

def rowToJsonSqlite (row : SqliteRow) : Except SqlError Value :=
  .ok (.object (row.map fun col => (col.1, plainCell lib col.2)))

def finishRows (rows : List SqliteRow) : Except SqlError RowBatch := do
  let columns := (rows.head?.map (List.map Prod.fst)).getD []
  let out ← rows.mapM (rowToJsonSqlite lib)
  .ok { columns, rows := out }

def SqliteDriver.execute (fetchAll : FetchAll) (stmt : PreparedStmt) (args : List BoundParam) :
    Except SqlError RowBatch := do
  let q := args.foldl (fun q arg => bindSqlite lib q arg.value) []
  let rows ← fetchAll stmt.sql q
  finishRows lib rows

/-! ## Transactions -/

def SqliteTxHandle.bindSqlite (q : List SqliteArg) : List BoundParam → List SqliteArg
  | [] => q
  | arg :: args =>
    let q := match arg.value with
      | .null => q ++ [.null]
      | .bool b => q ++ [.bool b]
      | .num n => match Changes.asI64 n with
        | some i => q ++ [.int i]
        | none => match lib.asF64 n with
          | some bits => q ++ [.double bits]
          | none => q ++ [.text (lib.numberText n)]
      | .str s => q ++ [.text s]
      | .arr _ | .obj _ => q ++ [.text (lib.valueText arg.value)]
    SqliteTxHandle.bindSqlite q args

/-- The cell in a row of a transaction. -/
def txCell (cell : SqliteCell) : Value :=
  match lib.tryGet .i64 cell with
  | .ok v => v.elim .null fun n : Int64 => .ofInt n.toInt
  | .error _ => match lib.tryGet .string cell with
    | .ok v => v.elim .null .str
    | .error _ => .null

/-- `execute` on a handle that has its transaction or not, and whether it has it after
the call. -/
def SqliteTxHandle.execute (inner : Bool) (fetchAll : FetchAll) (stmt : PreparedStmt)
    (args : List BoundParam) : Except SqlError RowBatch × Bool :=
  if inner then
    match fetchAll stmt.sql (SqliteTxHandle.bindSqlite lib [] args) with
    | .error e => (.error e, true)
    | .ok rows =>
      let out := rows.map fun row => Value.object (row.map fun col => (col.1, txCell lib col.2))
      (.ok { columns := [], rows := out }, true)
  else (.error (.invalidSpec "transaction already closed"), false)

/-! ## Where they agree -/

/-- What a type reads: cells of its own storage class and null. -/
def ownClass : (t : SqliteType) → SqliteCell → Option (Option t.Read)
  | _, .null => some none
  | .i64, .integer n => some (some n)
  | .f64, .real bits => some (some bits)
  | .bool, .integer n => some (some (n != 0))
  | .string, .text s => some (some s)
  | .bytes, .blob bytes => some (some bytes)
  | _, _ => none

/-- `try_get` reads for a type exactly its own storage class and null. -/
def OwnClass : Prop := ∀ t cell, (lib.tryGet t cell).toOption = ownClass t cell

/-- A transaction does with these arguments and this result what a plain call does: it
binds the same values, and has the same rows. -/
structure SameInTx (fetchAll : FetchAll) (stmt : PreparedStmt) (args : List BoundParam) : Prop where
  binds : SqliteTxHandle.bindSqlite lib [] args =
    args.foldl (fun q arg => bindSqlite lib q arg.value) []
  rows : (SqliteTxHandle.execute lib true fetchAll stmt args).1.map RowBatch.rows =
    (SqliteDriver.execute lib fetchAll stmt args).map RowBatch.rows

end

/-- A value that only the driver decodes: a finite real or a blob. -/
def SqliteCell.nulled : SqliteCell → Bool
  | .real bits => bits.toNat / 2 ^ 52 % 2 ^ 11 ≠ 2047
  | .blob _ => true
  | .null | .integer _ | .text _ => false

variable {lib : SqliteLib}

/-- Both binders append the same value. -/
theorem bindSqlite_cons (q : List SqliteArg) (arg : BoundParam) (args : List BoundParam) :
    SqliteTxHandle.bindSqlite lib q (arg :: args) =
      SqliteTxHandle.bindSqlite lib (bindSqlite lib q arg.value) args := rfl

theorem bindSqlite_eq_foldl (q : List SqliteArg) (args : List BoundParam) :
    SqliteTxHandle.bindSqlite lib q args =
      args.foldl (fun q arg => bindSqlite lib q arg.value) q := by
  induction args generalizing q with
  | nil => rfl
  | cons arg args ih => rw [bindSqlite_cons, ih, List.foldl_cons]

/-- A probe succeeds with what the storage class says. -/
theorem OwnClass.tryGet_ok (h : OwnClass lib) (t : SqliteType) {cell : SqliteCell} {v : Option t.Read}
    (hv : ownClass t cell = some v) : lib.tryGet t cell = .ok v := by
  have hget := h t cell
  rw [hv] at hget
  cases hcell : lib.tryGet t cell with
  | error e =>
    rw [hcell] at hget
    cases hget
  | ok w =>
    rw [hcell] at hget
    exact congrArg Except.ok (Option.some.inj hget)

theorem OwnClass.tryGet_error (h : OwnClass lib) (t : SqliteType) (cell : SqliteCell)
    (hv : ownClass t cell = none) : ∃ e, lib.tryGet t cell = .error e := by
  have hget := h t cell
  rw [hv] at hget
  cases hcell : lib.tryGet t cell with
  | error e => exact ⟨e, rfl⟩
  | ok w =>
    rw [hcell] at hget
    cases hget

/-- What the driver shows of a cell. -/
theorem plainCell_eq (h : OwnClass lib) (cell : SqliteCell) : plainCell lib cell = match cell with
    | .null => .null
    | .integer n => .ofInt n.toInt
    | .real bits => fromF64 bits
    | .text s => .str s
    | .blob bytes => .object [("base64", .str (lib.base64 bytes))] := by
  unfold plainCell decodeSqliteColumn
  cases cell with
  | null => rw [h.tryGet_ok .i64 (v := none) rfl]; rfl
  | integer n => rw [h.tryGet_ok .i64 (v := some n) rfl]; rfl
  | real bits =>
    obtain ⟨_, hint⟩ := h.tryGet_error .i64 (.real bits) rfl
    rw [hint, h.tryGet_ok .f64 (v := some bits) rfl]
    rfl
  | text s =>
    obtain ⟨_, hint⟩ := h.tryGet_error .i64 (.text s) rfl
    obtain ⟨_, hreal⟩ := h.tryGet_error .f64 (.text s) rfl
    obtain ⟨_, hbool⟩ := h.tryGet_error .bool (.text s) rfl
    rw [hint, hreal, hbool, h.tryGet_ok .string (v := some s) rfl]
    rfl
  | blob bytes =>
    obtain ⟨_, hint⟩ := h.tryGet_error .i64 (.blob bytes) rfl
    obtain ⟨_, hreal⟩ := h.tryGet_error .f64 (.blob bytes) rfl
    obtain ⟨_, hbool⟩ := h.tryGet_error .bool (.blob bytes) rfl
    obtain ⟨_, htext⟩ := h.tryGet_error .string (.blob bytes) rfl
    rw [hint, hreal, hbool, htext, h.tryGet_ok .bytes (v := some bytes) rfl]
    rfl

/-- What a transaction shows of a cell. -/
theorem txCell_eq (h : OwnClass lib) (cell : SqliteCell) : txCell lib cell = match cell with
    | .integer n => .ofInt n.toInt
    | .text s => .str s
    | .null | .real _ | .blob _ => .null := by
  unfold txCell
  cases cell with
  | null => rw [h.tryGet_ok .i64 (v := none) rfl]; rfl
  | integer n => rw [h.tryGet_ok .i64 (v := some n) rfl]; rfl
  | text s =>
    obtain ⟨_, hint⟩ := h.tryGet_error .i64 (.text s) rfl
    rw [hint, h.tryGet_ok .string (v := some s) rfl]
    rfl
  | real bits =>
    obtain ⟨_, hint⟩ := h.tryGet_error .i64 (.real bits) rfl
    obtain ⟨_, htext⟩ := h.tryGet_error .string (.real bits) rfl
    rw [hint, htext]
  | blob bytes =>
    obtain ⟨_, hint⟩ := h.tryGet_error .i64 (.blob bytes) rfl
    obtain ⟨_, htext⟩ := h.tryGet_error .string (.blob bytes) rfl
    rw [hint, htext]

/-- A cell looks different in a transaction when that shows null for its value. -/
theorem txCell_eq_plainCell_iff (h : OwnClass lib) (cell : SqliteCell) :
    txCell lib cell = plainCell lib cell ↔ cell.nulled = false := by
  rw [txCell_eq h, plainCell_eq h]
  cases cell with
  | null | integer _ | text _ => exact ⟨fun _ => rfl, fun _ => rfl⟩
  | real bits =>
    simp only [SqliteCell.nulled, decide_eq_false_iff_not, not_not]
    exact eq_comm.trans (fromF64_eq_null_iff bits)
  | blob bytes => exact ⟨nofun, nofun⟩

/-- A row whose cells are shown so. -/
def shownRow (decode : SqliteCell → Value) (row : SqliteRow) : Value :=
  .object (row.map fun col => (col.1, decode col.2))

theorem finishRows_rows (rows : List SqliteRow) :
    (finishRows lib rows).map RowBatch.rows = .ok (rows.map (shownRow (plainCell lib))) := by
  have hrows : rows.mapM (rowToJsonSqlite lib) = .ok (rows.map (shownRow (plainCell lib))) :=
    List.mapM_pure
  rw [finishRows, hrows]
  rfl

section

variable (lib) (fetchAll : FetchAll) (stmt : PreparedStmt) (args : List BoundParam)

/-- What the database gives for the statement and these arguments. -/
def fetched : Except SqlError (List SqliteRow) :=
  fetchAll stmt.sql (SqliteTxHandle.bindSqlite lib [] args)

theorem plain_rows : (SqliteDriver.execute lib fetchAll stmt args).map RowBatch.rows =
    (fetched lib fetchAll stmt args).map (List.map (shownRow (plainCell lib))) := by
  rw [SqliteDriver.execute, ← bindSqlite_eq_foldl, fetched]
  cases fetchAll stmt.sql (SqliteTxHandle.bindSqlite lib [] args) with
  | error e => rfl
  | ok rows => exact finishRows_rows rows

theorem tx_rows : (SqliteTxHandle.execute lib true fetchAll stmt args).1.map RowBatch.rows =
    (fetched lib fetchAll stmt args).map (List.map (shownRow (txCell lib))) := by
  rw [SqliteTxHandle.execute, if_pos rfl, fetched]
  cases fetchAll stmt.sql (SqliteTxHandle.bindSqlite lib [] args) with
  | error e => rfl
  | ok rows => rfl

end

/-- A row is the same in a transaction where none of the cells that it shows is nulled. -/
theorem shownRow_eq_iff (h : OwnClass lib) (row : SqliteRow) :
    shownRow (txCell lib) row = shownRow (plainCell lib) row ↔
      ∀ name cell, Assoc.get? row.reverse name = some cell → cell.nulled = false := by
  simp only [shownRow, Value.object, Value.obj.injEq, Assoc.ofList_map_eq_iff,
    txCell_eq_plainCell_iff h]

/-- A transaction does what a plain call does, in its arguments and in the rows of its
result, iff no cell that a row shows is a finite real or a blob: of columns of one name,
a row shows the last. -/
theorem tx_same_iff (lib : SqliteLib) (fetchAll : FetchAll) (stmt : PreparedStmt) (args : List BoundParam)
    (h : OwnClass lib) :
    SameInTx lib fetchAll stmt args ↔
      ∀ rows, fetched lib fetchAll stmt args = .ok rows →
        ∀ row ∈ rows, ∀ name cell, Assoc.get? row.reverse name = some cell → cell.nulled = false := by
  have hbinds : SqliteTxHandle.bindSqlite lib [] args = _ := bindSqlite_eq_foldl [] args
  have hrows : SameInTx lib fetchAll stmt args ↔
      (fetched lib fetchAll stmt args).map (List.map (shownRow (txCell lib))) =
        (fetched lib fetchAll stmt args).map (List.map (shownRow (plainCell lib))) := by
    rw [← tx_rows, ← plain_rows]
    exact ⟨SameInTx.rows, fun hsame => ⟨hbinds, hsame⟩⟩
  rw [hrows]
  cases hfetched : fetched lib fetchAll stmt args with
  | error e => exact ⟨fun _ => nofun, fun _ => rfl⟩
  | ok rows =>
    simp only [Except.map, Except.ok.injEq, List.map_inj_left, shownRow_eq_iff h, forall_eq']

/-! ### A table with every storage class -/

/-- A library that reads as the storage classes say. -/
def classLib : SqliteLib where
  tryGet t cell := match ownClass t cell with
    | some v => .ok v
    | none => .error "mismatched types"
  base64 _ := "AQ=="
  asF64 _ := none
  numberText _ := "0"
  valueText _ := "[]"

theorem classLib_ownClass : OwnClass classLib := by
  intro t cell
  show (match ownClass t cell with
    | some v => Except.ok v
    | none => .error "mismatched types").toOption = _
  cases ownClass t cell with
  | none => rfl
  | some v => rfl

def selectAll : PreparedStmt := { sql := "SELECT * FROM items", paramOrder := [], driver := .sqlite }

/-- A price and a picture are null in a transaction, and only there. -/
theorem price_nulled : OwnClass classLib ∧
    ¬SameInTx classLib (fun _ _ => .ok [[("price", .real 0x3FF8000000000000#64), ("picture", .blob [1])]])
      selectAll [] ∧
    (SqliteTxHandle.execute classLib true
      (fun _ _ => .ok [[("price", .real 0x3FF8000000000000#64), ("picture", .blob [1])]])
      selectAll []).1.map RowBatch.rows = .ok [.object [("price", .null), ("picture", .null)]] :=
  ⟨classLib_ownClass, fun h => absurd h.rows (by decide), by decide⟩

/-- The theorem at a row of an integer, a text and null. -/
theorem item_same : SameInTx classLib
    (fun _ _ => .ok [[("id", .integer 7), ("name", .text "pen"), ("note", .null)]])
    selectAll [⟨"id", .ofNat 7⟩] := by
  refine (tx_same_iff classLib _ selectAll [⟨"id", .ofNat 7⟩] classLib_ownClass).mpr ?_
  intro rows hrows row hrow name cell hcell
  obtain rfl := Except.ok.inj hrows
  obtain rfl := List.mem_singleton.mp hrow
  have hmem := Assoc.mem_of_get? hcell
  simp only [List.reverse_cons, List.reverse_nil, List.nil_append, List.cons_append, List.mem_cons,
    Prod.mk.injEq, List.not_mem_nil, or_false] at hmem
  obtain ⟨-, rfl⟩ | ⟨-, rfl⟩ | ⟨-, rfl⟩ := hmem <;> rfl

end McpgSql.Driver
