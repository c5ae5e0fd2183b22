import McpgSql.Cache.Crossing
import McpgSql.Execute.Calls

/-!
# Transactions, listings and completions

The entry points of a binding besides `execute`: `execute_transaction` runs the
steps of a group on one connection, `list_resources` the listing query, and
`complete_template_variable` a query that comes with the call. `Entry` are all the
entry points that run SQL for a caller.
-/

namespace McpgSql.Execute

open Library McpgSql.Pool McpgSql.Cache McpgSql.Listing McpgSql.Stream

variable {δ : Type} (lib : CallLib δ) (rt : Runtime)

/-! ## Transactions -/

structure TxNestedStep where
  id : String
  sql : String
  params : List String := []
  rowMode : String := "affected_rows"

structure TxGroup where
  steps : List TxNestedStep
  stepInput : Value := .null

/-- The driver of a transaction handle; MariaDB has MySQL's. -/
def txDriver : DriverKind → DriverKind
  | .mariadb => .mysql
  | driver => driver

/-- The first column of the first row, by name. -/
def txFirstScalar (batch : RowBatch) : Value :=
  match batch.rows.head? with
  | none => .null
  | some row => scalarOf row

/-- The statement of a step. -/
def TxNestedStep.prepare (step : TxNestedStep) (driver : DriverKind) : PreparedStmt :=
  let (sql, order) := rewritePlaceholders step.sql driver
  { sql, paramOrder := if order.isEmpty then step.params else order, driver }

/-- A statement on the connection of the transaction. -/
def submitTx (how : Submit) (stmt : PreparedStmt) (args : List BoundParam) (session : SessionVars) :
    Call δ (Except SqlError how.Reply) :=
  ask (.submit ⟨.transaction, how, stmt, args, session⟩)

/-- `run_tx_nested_step`: the result in the shape of the row mode, or what went wrong. -/
def runTxNestedStep (driver : DriverKind) (step : TxNestedStep) (stepInput : Value)
    (session : SessionVars) : Call δ (Except String Value) :=
  let stmt := step.prepare driver
  match collectBoundParams stepInput stmt.paramOrder with
  | .error e => pure (.error ("parameter bind for '" ++ step.id ++ "': " ++ e.text))
  | .ok args => match step.rowMode with
    | "affected_rows" => do
      let reply : Except SqlError Nat ← submitTx .executeAffected stmt args session
      match reply with
      | .ok count => pure (.ok (.object [("rows_affected", .ofNat count)]))
      | .error e => pure (.error ("execute_affected: " ++ e.text))
    | "many" => rows (fun batch => .arr batch.rows) stmt args
    | "single" => rows (fun batch => batch.rows.head?.getD .null) stmt args
    | "scalar" => rows txFirstScalar stmt args
    | other => pure (.error ("unsupported row_mode '" ++ other ++
        "' (supported: affected_rows, many, single, scalar)"))
where
  /-- A step that answers with rows. -/
  rows (shape : RowBatch → Value) (stmt : PreparedStmt) (args : List BoundParam) :
      Call δ (Except String Value) := do
    let reply : Except SqlError RowBatch ← submitTx .execute stmt args session
    match reply with
    | .ok batch => pure (.ok (shape batch))
    | .error e => pure (.error ("execute: " ++ e.text))

/-- The steps one by one; the first that fails rolls the transaction back. -/
def txLoop (driver : DriverKind) (stepInput : Value) (session : SessionVars) :
    List TxNestedStep → List (String × Value) → Call δ (List (String × Value))
  | [], results => pure results
  | step :: steps, results => do
    match ← runTxNestedStep driver step stepInput session with
    | .ok value => txLoop driver stepInput session steps (Assoc.insert results step.id value)
    | .error msg => do
      let _rolledBack : Except SqlError Unit ← ask .rollback
      .fail (.failed (.transport ("sql_tx nested step '" ++ step.id ++ "': " ++ msg)))

/-- `execute_transaction`; the group as `serde_json` reads it. -/
def executeTransaction (group : Except String TxGroup) : Call δ Value := do
  match group with
  | .error e => .fail (.failed (.invalidSpec ("sql_tx group: " ++ e)))
  | .ok group => do
    let begun : Except SqlError Unit ← ask .beginTransaction
    ofSql lib begun
    let results ← txLoop (txDriver rt.driverKind) group.stepInput ⟨.empty⟩ group.steps []
    let committed : Except SqlError Unit ← ask .commit
    match committed with
    | .ok _ => pure (.object [("steps", .obj results)])
    | .error e => .fail (.failed (.transport ("sql_tx commit: " ++ e.text)))

/-! ## Listings -/

/-- A statement of the binding on its registered pool, with no timeout. -/
def submitRegistered (stmt : PreparedStmt) (args : List BoundParam) : Call δ RowBatch := do
  let reply : Except SqlError RowBatch ←
    ask (.submit ⟨.pool .registered, .execute, stmt, args, rt.sessionVars⟩)
  ofSql lib reply

/-- `list_resources`; a binding with no `list_query` has none. -/
def listResources (cursor : Option String) : Call δ ResourcePage :=
  match rt.list with
  | none => pure {}
  | some (stmt, cfg) => do
    let args ← ofSql lib (listArgs cfg stmt.paramOrder cursor)
    let batch ← submitRegistered lib rt stmt args
    pure (batchToResourcePage lib.text batch cfg)

/-! ## Completions -/

structure SqlCompletionConfig where
  query : String
  maxResults : Option Nat := none

/-- The statement of a completion query. -/
def SqlCompletionConfig.prepare (cfg : SqlCompletionConfig) (driver : DriverKind) : PreparedStmt :=
  let (sql, order) := rewritePlaceholders cfg.query driver
  { sql, paramOrder := order, driver }

/-- A key of the context that may follow `:ctx_`. -/
def isContextKey (k : String) : Bool :=
  !k.toList.isEmpty && k.toList.all fun c => c.isAlphanum || c = '_'

/-- The context by the lower case of its keys; the last of one key stays. -/
def contextBinds (context : OrdMap String String) : List (String × String) :=
  context.entries.foldl (fun binds e =>
    if isContextKey e.1 then Assoc.insert binds (Changes.asciiLowercase e.1) e.2 else binds) []

/-- What a placeholder of a completion query is bound to. -/
def completionValue (typed : String) (binds : List (String × String)) (name : String) :
    Except BackendError Value :=
  if name = "prefix" then .ok (.str typed)
  else if "ctx_".toList.isPrefixOf name.toList then
    let rest := String.ofList (name.toList.drop 4)
    match Assoc.get? binds rest with
    | some v => .ok (.str v)
    | none => .error (.invalidSpec ("variable_completions.config.query references `:ctx_" ++ rest ++
        "` but completion context has no `" ++ rest ++ "` entry"))
  else .error (.invalidSpec ("variable_completions.config.query references unsupported placeholder ':"
    ++ name ++ "' (only :prefix and :ctx_<key> are bound)"))

/-- The first column of the rows, where it is a text. -/
def completions (batch : RowBatch) (max : Nat) : List String :=
  (batch.rows.take max).filterMap fun row =>
    (batch.columns.head?.bind row.get).bind Value.asStr

/-- `complete_template_variable`, the configuration as `serde_json` reads it. -/
def completeTemplateVariable (typed : String) (config : Except String SqlCompletionConfig)
    (context : OrdMap String String) : Call δ (List String) := do
  match config with
  | .error e => .fail (.failed (.invalidSpec ("variable_completions.config: " ++ e)))
  | .ok cfg =>
    if ¬":prefix".toList <:+: cfg.query.toList then
      .fail (.failed (.invalidSpec "variable_completions.config.query must reference `:prefix`"))
    else do
      let stmt := cfg.prepare rt.driverKind
      let args ← ofBackend (stmt.paramOrder.mapM fun name => do
        let value ← completionValue typed (contextBinds context) name
        pure { name, value : BoundParam })
      let batch ← submitRegistered lib rt stmt args
      pure (completions batch (cfg.maxResults.getD 100))

/-! ## All entry points -/

/-- A call that runs SQL for a caller. -/
inductive Entry where
  | execute (polls : Nat) (request : BackendRequest)
  | executeTransaction (group : Except String TxGroup)
  | listResources (cursor : Option String)
  | completeTemplateVariable (typed : String) (config : Except String SqlCompletionConfig)
      (context : OrdMap String String)

inductive EntryResult where
  | response (r : BackendResponse)
  | steps (v : Value)
  | page (p : ResourcePage)
  | completions (values : List String)

def Entry.call : Entry → Call δ EntryResult
  | .execute polls request => do return .response (← executeInnerImpl lib rt polls request)
  | .executeTransaction group => do return .steps (← Execute.executeTransaction lib rt group)
  | .listResources cursor => do return .page (← Execute.listResources lib rt cursor)
  | .completeTemplateVariable typed config context => do
    return .completions (← Execute.completeTemplateVariable lib rt typed config context)

/-- The statements of a call. -/
def Entry.statements (rt : Runtime) : Entry → List PreparedStmt
  | .execute .. => rt.toProfileRuntime.statements
  | .executeTransaction group =>
    (group.toOption.toList.flatMap TxGroup.steps).map (·.prepare (txDriver rt.driverKind))
  | .listResources _ => rt.list.toList.map Prod.fst
  | .completeTemplateVariable _ config _ => config.toOption.toList.map (·.prepare rt.driverKind)

/-- The statements that a call hands to the driver or to its transaction. -/
def Entry.handed (env : Nat → (q : Question δ) → Answer q) (entry : Entry) : List Submission :=
  (Prog.trace env 0 (entry.call lib rt)).filterMap fun ev => ev.1.submission?

/-! ## Concrete calls -/

/-- Libraries for concrete calls: bytes are their own hash, texts are not redacted. -/
def scanLib : CallLib String where
  redact := id
  cursor := sampleLib []
  cache := plainLib
  text := { floatText := plainLib.floatText, valueText _ := "" }
  toVec _ := .ok []
  isRetryableStale _ := false
  syn := scanSyntax
  blake3 bytes := String.ofList (bytes.map Char.ofUInt8)

/-- A binding of a query with no parameters. -/
def ordersRuntime (cfg : CredConfig) : Runtime where
  stmt := ⟨"SELECT * FROM orders", [], .postgres⟩
  backendName := "orders"
  driverKind := .postgres
  cfg := cfg
  rowMode := .many

/-- A host that resolves nothing and has nothing cached, pools that cannot be opened, and
a driver that answers with these rows. -/
def answering (rows : List BoundParam → List Value) : (q : Question δ) → Answer q
  | .submit ⟨_, .execute, _, args, _⟩ => (.ok { rows := rows args } : Except SqlError RowBatch)
  | .submit ⟨_, .executeAffected, _, _, _⟩ => (.ok 0 : Except SqlError Nat)
  | .submit ⟨_, .executeMultiResult, _, _, _⟩ => (.ok [] : Except SqlError (List (List Value)))
  | .submitWithin _ ⟨_, .execute, _, args, _⟩ =>
    (some (.ok { rows := rows args }) : Option (Except SqlError RowBatch))
  | .submitWithin _ ⟨_, .executeAffected, _, _, _⟩ => (some (.ok 0) : Option (Except SqlError Nat))
  | .submitWithin _ ⟨_, .executeMultiResult, _, _, _⟩ =>
    (some (.ok []) : Option (Except SqlError (List (List Value))))
  | .resolveCredentials _ => (.error (.other "no resolver") : Except BackendHostError Value)
  | .getOrBuild .. => (.error (.connect "no pool") : Except SqlError PoolHandle)
  | .beginTransaction | .commit | .rollback => (.ok () : Except SqlError Unit)
  | .cacheVersion => (0 : UInt64)
  | .cacheGet _ => (.ok none : Except String (Option (List UInt8)))
  | .cachePut .. => (.ok () : Except String Unit)
  | .now => (0 : Nat)
  | .sleep _ => false
  | .charge .. | .refund _ => ()

end McpgSql.Execute
