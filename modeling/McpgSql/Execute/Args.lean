import McpgSql.Execute.ParamExprs
import McpgSql.Protocol
import McpgSql.Stream.Cursor

/-!
# The arguments of a call

What `execute_inner_impl` and `execute_await_loop` do to the arguments of a call
before they bind them to the placeholders of a statement: the plain path computes
the declared parameters, then the position of a stream, then adds the idempotency
hint; the path of an `await` block only computes the declared parameters.

`prepareSql` is how a statement's placeholders are registered: those that the
plugin manages need no declaration, in every row mode.
-/

namespace McpgSql.Execute

open Library McpgSql.Stream

/-- The idempotency hint of the gateway. -/
structure IdempotencyHint where
  key : String
  scopeHash : String

/-- A request; its payload is empty, or what `serde_json` reads it as. -/
structure BackendRequest where
  payload : Option (Except String Value)
  identity : Option PluginIdentity := none
  client : Option ClientInfo := none
  idempotency : Option IdempotencyHint := none

/-! ## Placeholders -/

/-- The placeholders of the idempotency hint. -/
def isIdempotencyName (name : String) : Bool :=
  name = "idempotency_key" || name = "idempotency_scope_hash"

/-- The placeholders that the plugin manages. -/
def isManaged (name : String) : Bool :=
  "_after_".toList.isPrefixOf name.toList || isIdempotencyName name

/-- Every placeholder of the statement is declared, but for those the plugin manages. -/
def validateNamedParamsMatchConfig (rewrittenOrder declared : List String) : Except SqlError Unit :=
  match rewrittenOrder.find? fun name => !isManaged name && name ∉ declared with
  | some name => .error (.invalidSpec
      ("named placeholder ':" ++ name ++ "' is not listed in `params`"))
  | none => .ok ()

/-- `prepare_stmt`, from the SQL text on. -/
def prepareSql (raw : String) (params : List String) (driver : DriverKind) :
    Except SqlError PreparedStmt := do
  let (sql, order) := rewritePlaceholders raw driver
  if order.isEmpty then .ok { sql, paramOrder := params, driver }
  else do
    validateNamedParamsMatchConfig order params
    .ok { sql, paramOrder := order, driver }

/-! ## Runtimes -/

/-- The statements of an `await` block. -/
structure AwaitRuntime where
  triggerStmt : Option PreparedStmt
  checkStmt : PreparedStmt

/-- What a registered binding binds its statements from. A stream runtime stands
exactly in the `stream` row mode. -/
structure ProfileRuntime where
  stmt : PreparedStmt
  paramExprs : List ParamExpr := []
  streamRt : Option StreamRuntime := none
  awaitRt : Option AwaitRuntime := none

namespace ProfileRuntime

/-- The statements that a call binds: those of the `await` block, or the query. -/
def statements (rt : ProfileRuntime) : List PreparedStmt :=
  match rt.awaitRt with
  | some aw => aw.triggerStmt.toList ++ [aw.checkStmt]
  | none => [rt.stmt]

end ProfileRuntime

/-! ## Arguments -/

/-- The arguments as they come; an empty payload is null. -/
def parseArgs : Option (Except String Value) → Except BackendError Value
  | none => .ok .null
  | some (.ok args) => .ok args
  | some (.error e) => .error (.invalidSpec ("request payload is not valid JSON: " ++ e))

/-- The arguments that a hint gives. -/
def hintMembers (hint : IdempotencyHint) : List (String × Value) :=
  [("idempotency_key", .str hint.key), ("idempotency_scope_hash", .str hint.scopeHash)]

/-- The hint is written over the arguments of its names; null becomes an object. -/
def injectIdempotency (hint : Option IdempotencyHint) (args : Value) : Value :=
  match hint, args with
  | none, args => args
  | some hint, .null => .obj (Assoc.insertAll [] (hintMembers hint))
  | some hint, .obj obj => .obj (Assoc.insertAll obj (hintMembers hint))
  | some _, args => args

section

variable (redact : String → String) (lib : CursorLib) (rt : ProfileRuntime) (backendName : String)

/-- The declared parameters computed over the arguments of a request. -/
def derivedArgs (request : BackendRequest) : Except BackendError Value := do
  let args ← parseArgs request.payload
  (evaluateWithClient args rt.paramExprs request.identity request.client).mapError
    (BackendError.ofSql redact)

/-- The position of a stream binding; the arguments of another one stay. -/
def positionedArgs (args : Value) : Except SqlError Value :=
  match rt.streamRt with
  | some streamRt => applyStreamCursor lib args streamRt backendName
  | none => .ok args

/-- The arguments that the statements of the call are bound from. -/
def callArgs (request : BackendRequest) : Except BackendError Value :=
  match rt.awaitRt with
  | some _ => derivedArgs redact rt request
  | none => do
    let args ← derivedArgs redact rt request
    let args ← (positionedArgs lib rt backendName args).mapError (BackendError.ofSql redact)
    .ok (injectIdempotency request.idempotency args)

/-- What a request binds to the placeholders of a statement. -/
def bindStmt (request : BackendRequest) (stmt : PreparedStmt) :
    Except BackendError (List BoundParam) := do
  let args ← callArgs redact lib rt backendName request
  (collectBoundParams args stmt.paramOrder).mapError (BackendError.ofSql redact)

end

end McpgSql.Execute
