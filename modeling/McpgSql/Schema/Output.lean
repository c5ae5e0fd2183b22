import Mathlib.Data.Nat.Cast.Order.Ring
import McpgSql.Execute.Shape
import McpgSql.Schema.Cells
import McpgSql.Stream.Paging

/-!
# Responses and their schemas

The payload that `shape_response` makes of the rows of a query, beside the schema that
is derived from its columns.

* `row_validates_iff`: a row is valid exactly where all its cells fit.
* `response_validates_iff`: so is a response where the rows that are returned fit; in
  `single` there has to be one, and in `scalar` the column that comes first by name has
  to fit the schema of the first column of the query.
-/

namespace McpgSql.Schema

open Library McpgSql.Driver McpgSql.Stream

/-! ## Rows -/

section

variable {ρ : Type} (lib : PgLib ρ) {columns : List OutputColumn}

/-- Every cell of the row fits. -/
def RowFits (row : PgRow ρ columns) : Prop := ∀ cell ∈ row.cells, CellFits lib cell.1 cell.2

variable {lib} {row : PgRow ρ columns}

theorem PgRow.mem_columns {cell : OutputColumn × ρ} (h : cell ∈ row.cells) : cell.1 ∈ columns := by
  rw [← row.columns_eq]
  exact List.mem_map_of_mem h

variable (columns) in
theorem rowSchema_get :
    (rowSchema columns).get "type" = some (.str "object") ∧
    (rowSchema columns).get "minimum" = none ∧ (rowSchema columns).get "maximum" = none ∧
    (rowSchema columns).get "required" = some (.arr
      ((columns.filter fun col => col.nullable = some false).map fun col => .str col.name)) ∧
    (rowSchema columns).get "properties" =
      some (.obj (Assoc.ofList (columns.map fun col => (col.name, columnSchema col)))) := by
  simp [rowSchema, get_object, Assoc.get?]

variable (lib row) in
/-- The members of a row, by the names of its columns. -/
theorem row_members (hnames : (columns.map OutputColumn.name).Nodup) {m : String × Value} :
    m ∈ Assoc.ofList (row.cells.map fun cell =>
        (cell.1.name, shownCell lib cell.2 cell.1.pgType)) ↔
      ∃ cell ∈ row.cells, (cell.1.name, shownCell lib cell.2 cell.1.pgType) = m := by
  rw [Assoc.mem_ofList, List.mem_map]
  rw [← row.columns_eq, List.map_map] at hnames
  rw [List.map_map]
  exact hnames

/-- The schema of a member of a row is that of its column. -/
theorem memberSchema_row (hnames : (columns.map OutputColumn.name).Nodup) {col : OutputColumn}
    (hcol : col ∈ columns) : memberSchema (rowSchema columns) col.name = some (columnSchema col) := by
  have hget : Assoc.get? (Assoc.ofList (columns.map fun col => (col.name, columnSchema col)))
      col.name = some (columnSchema col) := by
    refine Assoc.get?_of_mem (Assoc.sorted_ofList _) ?_
    rw [Assoc.mem_ofList (by rwa [List.map_map])]
    exact List.mem_map_of_mem hcol
  rw [memberSchema, (rowSchema_get columns).2.2.2.2]
  simp [Value.get, hget]

/-- A row is an object with all its columns. -/
theorem takes_row (hnames : (columns.map OutputColumn.name).Nodup) :
    takes (rowSchema columns) (rowToJsonPg lib row) := by
  obtain ⟨htype, hmin, hmax, hrequired, _⟩ := rowSchema_get columns
  have hobj : ∃ map, rowSchema columns = .obj map := ⟨_, rfl⟩
  rw [takes_iff hobj, htype, hmin, hmax, hrequired]
  refine ⟨rfl, rfl, rfl, ?_⟩
  show List.all _ _
  rw [List.all_eq_true]
  intro name hname
  obtain ⟨col, hcol, rfl⟩ := List.mem_map.mp hname
  have hcells : col ∈ row.cells.map Prod.fst := by
    rw [row.columns_eq]
    exact (List.mem_filter.mp hcol).1
  obtain ⟨cell, hcell, rfl⟩ := List.mem_map.mp hcells
  have hget := Assoc.get?_of_mem (Assoc.sorted_ofList _)
    ((row_members lib row hnames).mpr ⟨cell, hcell, rfl⟩)
  show (Assoc.get? _ cell.1.name).isSome
  rw [hget]
  rfl

/-- A row is valid for the schema of its columns exactly where its cells fit. -/
theorem row_validates_iff (hnames : (columns.map OutputColumn.name).Nodup)
    (hhandled : ∀ col ∈ columns, Handled col.pgType) :
    validates (rowSchema columns) (rowToJsonPg lib row) ↔ RowFits lib row := by
  have hmembers : validates (rowSchema columns) (rowToJsonPg lib row) ↔
      ∀ cell ∈ row.cells, validates (columnSchema cell.1) (shownCell lib cell.2 cell.1.pgType) := by
    rw [rowToJsonPg, Value.object, validates_obj]
    constructor
    · rintro ⟨-, h⟩ cell hcell
      exact h _ ((row_members lib row hnames).mpr ⟨cell, hcell, rfl⟩) _
        (memberSchema_row hnames (PgRow.mem_columns hcell))
    · intro h
      refine ⟨takes_row hnames, ?_⟩
      intro m hm schema hschema
      obtain ⟨cell, hcell, rfl⟩ := (row_members lib row hnames).mp hm
      rw [memberSchema_row hnames (PgRow.mem_columns hcell)] at hschema
      cases hschema
      exact h cell hcell
  rw [hmembers]
  refine forall_congr' fun cell => imp_congr_right fun hcell => ?_
  exact cell_validates_iff (hhandled _ (PgRow.mem_columns hcell))

/-- Rows are valid exactly where all their cells fit. -/
theorem rows_validate_iff (hnames : (columns.map OutputColumn.name).Nodup)
    (hhandled : ∀ col ∈ columns, Handled col.pgType) (rows : List (PgRow ρ columns)) :
    validates (.object [("type", .str "array"), ("items", rowSchema columns)])
        (.arr (rows.map (rowToJsonPg lib))) ↔ ∀ row ∈ rows, RowFits lib row := by
  have hitems : (Value.object [("type", .str "array"), ("items", rowSchema columns)]).get "items" =
      some (rowSchema columns) := by
    simp [get_object, Assoc.get?]
  have htakes : takes (.object [("type", .str "array"), ("items", rowSchema columns)])
      (.arr (rows.map (rowToJsonPg lib))) := by
    rw [takes_object]
    simp [get_object, Assoc.get?, typeOk, hasType, boundOk, requiredOk]
  rw [validates_arr, hitems]
  simp only [htakes, true_and, List.forall_mem_map, Option.some.injEq, forall_eq']
  exact forall_congr' fun row => imp_congr_right fun _ => row_validates_iff hnames hhandled

end

/-! ## The first column by name -/

section

variable {ρ : Type} {lib : PgLib ρ} {columns : List OutputColumn} {row : PgRow ρ columns}
  {cell : OutputColumn × ρ}

/-- The cell whose column comes first by name. -/
def IsFirst (row : PgRow ρ columns) (cell : OutputColumn × ρ) : Prop :=
  cell ∈ row.cells ∧ ∀ other ∈ row.cells, cell.1.name ≤ other.1.name

variable (lib row) in
/-- `scalar` is the cell whose column comes first by name. -/
theorem scalarOf_row (hnames : (columns.map OutputColumn.name).Nodup) (hcolumns : columns ≠ []) :
    ∃ cell, IsFirst row cell ∧
      scalarOf (rowToJsonPg lib row) = shownCell lib cell.2 cell.1.pgType := by
  have hkeys : ((row.cells.map fun cell => (cell.1.name, shownCell lib cell.2 cell.1.pgType)).map
      Prod.fst).Nodup := by
    rw [← row.columns_eq, List.map_map] at hnames
    rwa [List.map_map]
  have hcells : row.cells.map (fun cell => (cell.1.name, shownCell lib cell.2 cell.1.pgType)) ≠ [] := by
    rw [Ne, List.map_eq_nil_iff]
    rintro hnil
    rw [← row.columns_eq, hnil] at hcolumns
    exact hcolumns rfl
  obtain ⟨_, hmem, hleast, hhead⟩ := Assoc.head?_ofList hkeys hcells
  obtain ⟨cell, hcell, rfl⟩ := List.mem_map.mp hmem
  refine ⟨cell, ⟨hcell, fun other hother => ?_⟩, ?_⟩
  · exact hleast _ (List.mem_map_of_mem hother)
  · rw [rowToJsonPg, Value.object, scalarOf, hhead]
    rfl

theorem IsFirst.unique (hnames : (columns.map OutputColumn.name).Nodup) {other : OutputColumn × ρ}
    (h : IsFirst row cell) (h' : IsFirst row other) : cell = other := by
  have hname := le_antisymm (h.2 other h'.1) (h'.2 cell h.1)
  rw [← row.columns_eq, List.map_map] at hnames
  exact List.inj_on_of_nodup_map hnames h.1 h'.1 hname

end

/-! ## Responses -/

/-- The response of a batch; that of a stream has the token of its next page. -/
def pgResponse (cursor : CursorLib) (streamRt : StreamRuntime) (backendName : String)
    (batch : RowBatch) (mode : RowMode) (maxRows : Nat) : Except BackendError Value := do
  let (payload, _) ← shapeResponse batch mode maxRows
  .ok (if mode = .stream then addCursor cursor streamRt backendName payload else payload)

/-- An object that is written out is valid where its members are. -/
theorem validates_object {schema : Value} {members : List (String × Value)}
    (hnodup : (members.map Prod.fst).Nodup) : validates schema (.object members) ↔
      takes schema (.object members) ∧
        ∀ m ∈ members, ∀ s, memberSchema schema m.1 = some s → validates s m.2 := by
  rw [Value.object, validates_obj]
  simp only [Assoc.mem_ofList hnodup]

theorem hasType_object {members : List (String × Value)} (type : String) :
    hasType (.object members) type = decide (type = "object") := rfl

theorem requiredOk_object {members : List (String × Value)} {names : List Value} :
    requiredOk (.object members) (some (.arr names)) = names.all fun name =>
      (name.asStr.map fun name => ((Value.object members).get name).isSome).getD false := rfl

/-- The schema of a member, where `properties` has one. -/
theorem memberSchema_eq {schema properties sub : Value} {name : String}
    (hproperties : schema.get "properties" = some properties)
    (hsub : properties.get name = some sub) : memberSchema schema name = some sub := by
  rw [memberSchema, hproperties, Option.bind_some, hsub, Option.some_or]

theorem number_valid (n : Nat) :
    validates (.object [("type", .str "integer"), ("minimum", .ofNat 0)]) (.ofNat n) := by
  rw [Value.ofNat, Value.ofNat, validates, takes_object]
  simp [get_object, Assoc.get?, typeOk, hasType, boundOk, requiredOk, numberValue]

/-- The number of changed rows is valid. -/
theorem affectedRows_valid (n : Nat) {schema : Value} {columns : List OutputColumn}
    (hschema : outputSchemaFromPgColumns columns .affectedRows = some schema) :
    validates schema (.object [("rows_affected", .ofNat n)]) := by
  cases columns with
  | nil => cases hschema
  | cons col columns =>
    obtain rfl := Option.some.inj hschema
    rw [validates_object (by simp)]
    constructor
    · rw [takes_object]
      simp [get_object, Assoc.get?, typeOk, hasType_object, boundOk, requiredOk_object, Value.asStr]
    · intro m hm s hs
      obtain rfl := List.mem_singleton.mp hm
      rw [memberSchema_eq (get_object _ _) (get_object _ _)] at hs
      obtain rfl := Option.some.inj hs
      exact number_valid n

/-- The token of the next page is a text or null. -/
theorem mintNextCursor_valid (cursor : CursorLib) (payload : Value) (streamRt : StreamRuntime)
    (backendName : String) : validates (.object [("type", .arr [.str "string", .str "null"])])
      (mintNextCursor cursor payload streamRt backendName) := by
  have htoken : ∀ v, v = .null ∨ (∃ token, v = .str token) →
      validates (.object [("type", .arr [.str "string", .str "null"])]) v := by
    intro v hv
    rcases hv with rfl | ⟨token, rfl⟩
    · rfl
    · rfl
  apply htoken
  unfold mintNextCursor
  split
  · split
    · split
      · exact .inr ⟨_, rfl⟩
      · exact .inl rfl
    · exact .inl rfl
  · exact .inl rfl

/-- A page is valid where its rows are. -/
theorem page_validates_iff {rowsSchema rows : Value} (truncated : Bool) {token : Value}
    (htoken : validates (.object [("type", .arr [.str "string", .str "null"])]) token) :
    validates (.object [("type", .str "object"), ("additionalProperties", .bool false),
        ("required", .arr [.str "rows", .str "next_cursor", .str "truncated"]),
        ("properties", .object [("rows", rowsSchema),
          ("next_cursor", .object [("type", .arr [.str "string", .str "null"])]),
          ("truncated", .object [("type", .str "boolean")])])])
      (.object [("rows", rows), ("truncated", .bool truncated), ("next_cursor", token)]) ↔
    validates rowsSchema rows := by
  rw [validates_object (by simp)]
  constructor
  · intro ⟨_, h⟩
    exact h ("rows", rows) List.mem_cons_self rowsSchema
      (memberSchema_eq (get_object _ _) (get_object _ _))
  · intro h
    constructor
    · rw [takes_object]
      simp [get_object, Assoc.get?, typeOk, hasType_object, boundOk, requiredOk_object, Value.asStr]
    · intro m hm s hs
      simp only [List.mem_cons, List.not_mem_nil, or_false] at hm
      rcases hm with rfl | rfl | rfl
      · rw [memberSchema_eq (get_object _ _) (get_object _ _)] at hs
        obtain rfl := Option.some.inj hs
        exact h
      · rw [memberSchema_eq (get_object _ _) (get_object _ _)] at hs
        obtain rfl := Option.some.inj hs
        rfl
      · rw [memberSchema_eq (get_object _ _) (get_object _ _)] at hs
        obtain rfl := Option.some.inj hs
        exact htoken

section

variable {ρ : Type} (lib : PgLib ρ) {columns : List OutputColumn}

/-- The rows of a query fit the schema of its response. -/
def ResponseFits (mode : RowMode) (maxRows : Nat) (rows : List (PgRow ρ columns)) : Prop :=
  match mode with
  | .single => ∃ row, rows.head? = some row ∧ RowFits lib row
  | .many | .stream => ∀ row ∈ rows.take maxRows, RowFits lib row
  | .scalar => ∃ col, columns.head? = some col ∧ match rows.head? with
    | some row => ∃ cell, IsFirst row cell ∧ FitsInto lib col cell.1.pgType cell.2
    | none => Untyped col.pgType ∨ col.nullable ≠ some false
  | .affectedRows => True
  | .resourceContents | .resultSets => False

/-- The answer of the driver to a query. -/
def pgBatch (rows : List (PgRow ρ columns)) (affected : Option Nat) : RowBatch :=
  { columns := columns.map OutputColumn.name
    rows := rows.map (rowToJsonPg lib)
    rowsAffected := affected }

variable {lib} {maxRows : Nat}

variable (lib) in
theorem head?_take_rows (hmax : 1 ≤ maxRows) (rows : List (PgRow ρ columns)) :
    ((rows.map (rowToJsonPg lib)).take maxRows).head? = rows.head?.map (rowToJsonPg lib) := by
  cases rows with
  | nil => simp
  | cons row rows =>
    obtain ⟨n, rfl⟩ : ∃ n, maxRows = n + 1 := ⟨maxRows - 1, by omega⟩
    rfl

theorem single_validates_iff (hnames : (columns.map OutputColumn.name).Nodup)
    (hhandled : ∀ col ∈ columns, Handled col.pgType) (row : Option (PgRow ρ columns)) :
    validates (rowSchema columns) ((row.map (rowToJsonPg lib)).getD .null) ↔
      ∃ r, row = some r ∧ RowFits lib r := by
  cases row with
  | none =>
    refine iff_of_false ?_ (by simp)
    intro h
    have hobj : ∃ map, rowSchema columns = .obj map := ⟨_, rfl⟩
    have htype := ((takes_iff hobj).mp (validates.takes h)).1
    rw [(rowSchema_get columns).1] at htype
    cases htype
  | some row =>
    refine (row_validates_iff hnames hhandled).trans ?_
    simp

theorem scalar_validates_iff (hnames : (columns.map OutputColumn.name).Nodup) {col : OutputColumn}
    (hcol : columns.head? = some col) (row : Option (PgRow ρ columns)) :
    validates (columnSchema col) (scalarOf ((row.map (rowToJsonPg lib)).getD .null)) ↔
      match row with
      | some row => ∃ cell, IsFirst row cell ∧ FitsInto lib col cell.1.pgType cell.2
      | none => Untyped col.pgType ∨ col.nullable ≠ some false := by
  cases row with
  | none =>
    refine columnSchema_validates.trans ?_
    show (takes (pgTypeToJsonSchema col.pgType) .null ∨ (Value.null = .null ∧ _)) ↔ _
    rw [(fragment_pgType col.pgType).takes_null]
    simp [Untyped]
  | some row =>
    have hcolumns : columns ≠ [] := by
      rintro rfl
      cases hcol
    obtain ⟨cell, hfirst, hscalar⟩ := scalarOf_row lib row hnames hcolumns
    show validates (columnSchema col) (scalarOf (rowToJsonPg lib row)) ↔ _
    rw [hscalar, fitsInto_iff]
    constructor
    · intro h
      exact ⟨cell, hfirst, h⟩
    · rintro ⟨other, hother, h⟩
      rw [hfirst.unique hnames hother]
      exact h

variable (lib) in
/-- A response is valid for the schema of its query exactly where its rows fit. -/
theorem response_validates_iff (cursor : CursorLib) (streamRt : StreamRuntime) (backendName : String)
    (hnames : (columns.map OutputColumn.name).Nodup)
    (hhandled : ∀ col ∈ columns, Handled col.pgType) (hmax : 1 ≤ maxRows) {mode : RowMode}
    {schema : Value} (hschema : outputSchemaFromPgColumns columns mode = some schema)
    (rows : List (PgRow ρ columns)) (affected : Option Nat) :
    ∃ payload, pgResponse cursor streamRt backendName (pgBatch lib rows affected) mode maxRows =
        .ok payload ∧
      (validates schema payload ↔ ResponseFits lib mode maxRows rows) := by
  have hhead := head?_take_rows lib hmax rows
  cases columns with
  | nil => cases hschema
  | cons col columns =>
    cases mode with
    | single =>
      obtain rfl := Option.some.inj hschema
      refine ⟨_, rfl, ?_⟩
      show validates _ (((rows.map (rowToJsonPg lib)).take maxRows).head?.getD .null) ↔ _
      rw [hhead]
      exact single_validates_iff hnames hhandled rows.head?
    | many =>
      obtain rfl := Option.some.inj hschema
      refine ⟨_, rfl, ?_⟩
      show validates _ (.arr ((rows.map (rowToJsonPg lib)).take maxRows)) ↔ _
      rw [← List.map_take]
      exact rows_validate_iff hnames hhandled (rows.take maxRows)
    | scalar =>
      obtain rfl := Option.some.inj hschema
      refine ⟨_, rfl, ?_⟩
      show validates _ (scalarOf (((rows.map (rowToJsonPg lib)).take maxRows).head?.getD .null)) ↔ _
      rw [hhead, scalar_validates_iff hnames rfl rows.head?, ResponseFits]
      simp
    | affectedRows =>
      exact ⟨_, rfl, iff_of_true (affectedRows_valid _ hschema) trivial⟩
    | stream =>
      obtain rfl := Option.some.inj hschema
      refine ⟨_, rfl, ?_⟩
      refine (page_validates_iff _ (mintNextCursor_valid cursor _ streamRt backendName)).trans ?_
      show validates _ (.arr ((rows.map (rowToJsonPg lib)).take maxRows)) ↔ _
      rw [← List.map_take]
      exact rows_validate_iff hnames hhandled (rows.take maxRows)
    | resourceContents => cases hschema
    | resultSets => cases hschema

end

/-- What a server sends for an integer or for bytes. -/
inductive SampleCell where
  | null
  | int4 (v : Int32)
  | bytea (bytes : List UInt8)

/-- Cells are read as what they are; the bytes 1, 2, 3 are `AQID` in base64. -/
def sampleSqlx : PgLib SampleCell where
  tryGet
    | _, .null => .ok none
    | .i32, .int4 v => .ok (some v)
    | .bytes, .bytea bytes => .ok (some bytes)
    | _, _ => .error "mismatched types"
  base64 _ := "AQID"

def idColumn : OutputColumn := ⟨"id", "INT4", some false⟩

def contentColumn : OutputColumn := ⟨"content", "BYTEA", some false⟩

/-- One row with the id 7. -/
def idRows : List (PgRow SampleCell [idColumn]) := [⟨[(idColumn, .int4 7)], rfl⟩]

theorem idRows_valid : ∃ payload,
    pgResponse (sampleLib []) ordersStream "orders" (pgBatch sampleSqlx idRows none) .single 1 =
      .ok payload ∧
    validates (rowSchema [idColumn]) payload := by
  have hhandled : ∀ col ∈ [idColumn], Handled col.pgType := by
    intro col hcol
    obtain rfl := List.mem_singleton.mp hcol
    exact .inl (by decide)
  have hschema : outputSchemaFromPgColumns [idColumn] .single = some (rowSchema [idColumn]) := rfl
  obtain ⟨payload, hpayload, hvalid⟩ := response_validates_iff sampleSqlx (sampleLib [])
    ordersStream "orders" (by decide) hhandled (le_refl 1) hschema idRows none
  refine ⟨payload, hpayload, hvalid.mpr ⟨_, rfl, fun cell hcell => ?_⟩⟩
  obtain rfl := List.mem_singleton.mp hcell
  exact .inr (.inl ⟨⟨(7 : Int32), rfl, nofun⟩, by decide⟩)

/-- Bytes are an object in the response, and a text by the schema. -/
theorem contentRow_not_valid : ∃ schema payload,
    outputSchemaFromPgColumns [contentColumn] .many = some schema ∧
    pgResponse (sampleLib []) ordersStream "files"
      (pgBatch sampleSqlx [⟨[(contentColumn, .bytea [1, 2, 3])], rfl⟩] none) .many 1 = .ok payload ∧
    validates schema payload = false :=
  ⟨_, _, rfl, rfl, by decide⟩

end McpgSql.Schema
