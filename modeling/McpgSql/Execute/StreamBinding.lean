import McpgSql.Execute.Registration
import McpgSql.Sql.Rewriting

/-!
# Stream bindings

A binding with `row_mode: stream` pages by its keyset: `:_after_<col>` is bound to the
position of the cursor. `SqlBackendConfig::validate` looks for the placeholders in the
text of `sql`, as they are written; `prepare_stmt` binds those that the rewriting
finds, and looks for none in the text of a `sql_file`.

`keyset_bound_iff`: the statement has the placeholders of the keyset exactly where the
text does, by the grammar.
-/

namespace McpgSql.Execute

open Library McpgSql.Stream McpgSql.Sql
open McpgSql.Changes (ensure)

/-! ## Configuration -/

/-- A binding's configuration with its `stream` block. The `connectionChecks` of `base`
are those of the URL, `auth` and the pool, which come before the check of the block. -/
structure StreamBindingConfig where
  base : BindingConfig
  stream : Option StreamConfig := none
  /-- Of result sets, heartbeats and the breaker, which come after it. -/
  laterChecks : Except SqlError Unit := .ok ()

/-- `str::contains`. -/
def containsText (text part : String) : Bool := decide (part.toList <:+: text.toList)

/-- The text has the placeholder of every cursor column, as it is written. -/
def StreamConfig.checkSql (cfg : StreamConfig) (sql : String) : Except SqlError Unit :=
  match cfg.placeholderNames.find? fun ph => !containsText sql (":" ++ ph) with
  | some ph => .error (.invalidSpec ("row_mode: stream — query.sql must reference placeholder `:" ++
      ph ++ "` (one per declared stream.cursor_columns column). The plugin binds last-row keyset " ++
      "values to these placeholders for continuation calls."))
  | none => .ok ()

/-- The `stream` block stands exactly in the `stream` row mode. The text of a file is not
there yet. -/
def checkStream (query : QueryShape) (stream : Option StreamConfig) : Except SqlError Unit :=
  match query.rowMode with
  | .stream => match stream with
    | none => .error (.invalidSpec
        "row_mode: stream requires a `stream:` block declaring cursor_columns")
    | some cfg => do
      cfg.validate
      match query.body with
      | .sql sql => StreamConfig.checkSql cfg sql
      | .sqlFile _ | .procedure _ => .ok ()
  | .single | .many | .scalar | .affectedRows | .resourceContents | .resultSets =>
    ensure stream.isNone (.invalidSpec ("query.stream is only valid when row_mode is `stream` — " ++
      "remove the block or set row_mode: stream."))

namespace StreamBindingConfig

variable (cfg : StreamBindingConfig)

/-- The configuration with all its checks. -/
def config : BindingConfig :=
  { cfg.base with
    connectionChecks := do
      cfg.base.connectionChecks
      checkStream cfg.base.query cfg.stream
      cfg.laterChecks }

def validate : Except SqlError Unit := cfg.config.validate

def prepareStmt (files : Files) : Except SqlError PreparedStmt := cfg.config.prepareStmt files

end StreamBindingConfig

/-! ## The keyset -/

/-- The statement binds the names that the rewriting found, or the declared ones where
it found none. -/
theorem paramOrder_of_prepareSql {raw : String} {params : List String} {driver : DriverKind}
    {stmt : PreparedStmt} (h : prepareSql raw params driver = .ok stmt) :
    stmt.paramOrder = if names (partsOf raw) = [] then params else names (partsOf raw) := by
  rw [prepareSql, rewritePlaceholders_eq] at h
  by_cases hempty : names (partsOf raw) = []
  · simp only [hempty, List.isEmpty_nil, if_true, Except.ok.injEq] at h
    rw [if_pos hempty, ← h]
  · simp only [List.isEmpty_iff, hempty, if_false, bind_eq_ok, Except.ok.injEq] at h
    obtain ⟨_, -, h⟩ := h
    rw [if_neg hempty, ← h]

/-- A stream binding that `validate` and `prepare_stmt` accept, with its statement. -/
structure RegisteredStream (cfg : StreamBindingConfig) (files : Files) (stream : StreamConfig)
    (stmt : PreparedStmt) : Prop where
  mode : cfg.base.query.rowMode = .stream
  block : cfg.stream = some stream
  valid : cfg.validate = .ok ()
  prepared : cfg.prepareStmt files = .ok stmt

/-- The statement has the placeholder of every cursor column. -/
def BindsKeyset (stream : StreamConfig) (stmt : PreparedStmt) : Prop :=
  ∀ col ∈ stream.cursorColumns, StreamConfig.placeholder col ∈ stmt.paramOrder

/-- The statement of a stream binding has the placeholder of every cursor column exactly
where the text has it as a placeholder, or has none at all and it is declared. -/
theorem keyset_bound_iff {cfg : StreamBindingConfig} {files : Files} {stream : StreamConfig}
    {stmt : PreparedStmt} (h : RegisteredStream cfg files stream stmt) :
    ∃ raw, cfg.config.raw files = .ok raw ∧ (BindsKeyset stream stmt ↔
      ∀ col ∈ stream.cursorColumns, StreamConfig.placeholder col ∈ names (partsOf raw) ∨
        names (partsOf raw) = [] ∧ StreamConfig.placeholder col ∈ cfg.base.params) := by
  have hprepared := h.prepared
  rw [StreamBindingConfig.prepareStmt, BindingConfig.prepareStmt, bind_eq_ok] at hprepared
  obtain ⟨raw, hraw, hstmt⟩ := hprepared
  refine ⟨raw, hraw, ?_⟩
  rw [BindsKeyset, paramOrder_of_prepareSql hstmt]
  refine forall₂_congr fun col _ => ?_
  by_cases hempty : names (partsOf raw) = []
  · rw [if_pos hempty, hempty]
    simp [StreamBindingConfig.config]
  · rw [if_neg hempty]
    simp [hempty]

/-- A stream over the orders, by their id. -/
def sampleStream (body : QueryBody) : StreamBindingConfig where
  base := { driver := .postgres, query := { body, rowMode := .stream } }
  stream := some { cursorColumns := ["id"] }

/-- A text that pages by the id. -/
theorem sampleStream_registered :
    RegisteredStream (sampleStream (.sql "SELECT id FROM orders WHERE id > :_after_id"))
      (fun _ => .error "") { cursorColumns := ["id"] }
      { sql := "SELECT id FROM orders WHERE id > $1", paramOrder := ["_after_id"]
        driver := .postgres } :=
  ⟨rfl, rfl, by decide, by decide⟩

/-- The theorem at that text. -/
theorem sampleStream_bound :
    BindsKeyset { cursorColumns := ["id"] }
      { sql := "SELECT id FROM orders WHERE id > $1", paramOrder := ["_after_id"]
        driver := .postgres } := by
  obtain ⟨raw, hraw, hiff⟩ := keyset_bound_iff sampleStream_registered
  cases hraw
  exact hiff.mpr (by decide)

/-- The text of a file is accepted without the placeholder. -/
theorem file_not_bound :
    RegisteredStream (sampleStream (.sqlFile "page.sql")) (fun _ => .ok "SELECT id FROM orders")
        { cursorColumns := ["id"] }
        { sql := "SELECT id FROM orders", paramOrder := [], driver := .postgres } ∧
      ¬BindsKeyset { cursorColumns := ["id"] }
        { sql := "SELECT id FROM orders", paramOrder := [], driver := .postgres } := by
  refine ⟨⟨rfl, rfl, by decide, by decide⟩, fun h => ?_⟩
  exact List.not_mem_nil (h "id" (by decide))

end McpgSql.Execute
