import McpgSql.Cache.Lookup
import McpgSql.Execute.Shape
import McpgSql.Library.Prog
import McpgSql.Listing.Page
import McpgSql.Stream.Paging

/-!
# The entry points of a binding

The calls that run SQL for a caller: `execute` on a plain binding and on one with
an `await` block, `execute_transaction`, `list_resources` and
`complete_template_variable`. Each is a program that asks its environment: the
host for credentials and cached responses, the registry for a pool, the driver
and the transaction handle for the answer to a statement, and the clock.

A runtime stands for a registered binding; `execute` finds it by name, and its
breaker, before the program starts.
-/

namespace McpgSql.Execute

open Library McpgSql.Pool McpgSql.Cache McpgSql.Listing McpgSql.Stream

/-! ## Questions -/

/-- What a statement is handed over for: its rows, the number of rows it changes, or
its result sets. -/
inductive Submit where
  | execute
  | executeAffected
  | executeMultiResult
deriving DecidableEq, Repr

def Submit.Reply : Submit → Type
  | .execute => RowBatch
  | .executeAffected => Nat
  | .executeMultiResult => List (List Value)

/-- The pool that the registration opened, or one of the registry. -/
inductive PoolHandle where
  | registered
  | opened (n : Nat)
deriving DecidableEq, Repr

/-- Statements go to a connection of a pool, or to the transaction of the call. -/
inductive Target where
  | pool (p : PoolHandle)
  | transaction
deriving DecidableEq, Repr

/-- A statement as it is handed to the driver or to a transaction handle. -/
structure Submission where
  target : Target
  how : Submit
  stmt : PreparedStmt
  args : List BoundParam
  session : SessionVars
deriving DecidableEq

inductive Question (δ : Type) where
  | resolveCredentials (snapshot : Value)
  | getOrBuild (digest : δ) (credKeys : List (String × String)) (url : String)
  | submit (s : Submission)
  | submitWithin (ms : Nat) (s : Submission)
  | beginTransaction
  | commit
  | rollback
  | cacheVersion
  | cacheGet (key : String)
  | cachePut (key : String) (entry : List UInt8) (ttlSeconds : Nat)
  | now
  | sleep (ns : Nat)
  | charge (amount : BitVec 64) (rows bytes : Nat)
  | refund (reason : String)

/-- A statement under a timeout may have no answer, and a sleep ends early where the
plugin is drained. -/
def Answer {δ : Type} : Question δ → Type
  | .resolveCredentials _ => Except BackendHostError Value
  | .getOrBuild .. => Except SqlError PoolHandle
  | .submit s => Except SqlError s.how.Reply
  | .submitWithin _ s => Option (Except SqlError s.how.Reply)
  | .beginTransaction | .commit | .rollback => Except SqlError Unit
  | .cacheVersion => UInt64
  | .cacheGet _ => Except String (Option (List UInt8))
  | .cachePut .. => Except String Unit
  | .now => Nat
  | .sleep _ => Bool
  | .charge .. | .refund _ => Unit

/-- The statement that a question hands over. -/
def Question.submission? {δ : Type} : Question δ → Option Submission
  | .submit s | .submitWithin _ s => some s
  | _ => none

/-- A call ends with an error, or has not ended within the polls that were counted. -/
inductive Stop where
  | failed (e : BackendError)
  | running
deriving DecidableEq, Repr

abbrev Call (δ : Type) := Prog (Question δ) Answer Stop

/-! ## Bindings -/

/-- What calls take from libraries: redaction of messages, signed cursors, the hash and
the texts of values, serialization, and which errors are of a stale statement. -/
structure CallLib (δ : Type) where
  redact : String → String
  cursor : CursorLib
  cache : Cache.Lib
  text : TextLib
  toVec : Value → Except String (List UInt8)
  isRetryableStale : SqlError → Bool
  syn : CredSyntax
  blake3 : List UInt8 → δ

/-- The price of a call by its arguments, rows and bytes; amounts are doubles. -/
structure BackendCost where
  compute : Value → Nat → Nat → Except SqlError (BitVec 64)

/-- When an `await` block ends: a row and the arguments satisfy the predicate, or time
is up. -/
structure AwaitCfg where
  predicate : Value → Value → Bool := fun _ _ => false
  pollIntervalMs : Nat := 1000
  timeoutMs : Nat := 60000

/-- A registered binding. -/
structure Runtime extends ProfileRuntime where
  backendName : String
  driverKind : DriverKind
  cfg : CredConfig
  rowMode : RowMode
  maxRows : Nat := 1000
  timeoutMs : Nat := 30000
  awaitCfg : AwaitCfg := {}
  list : Option (PreparedStmt × ListQueryConfig) := none
  cache : Option CacheSpec := none
  cost : Option BackendCost := none

structure BackendResponse where
  payload : List UInt8
  truncated : Bool
deriving DecidableEq, Repr

section

variable {δ α : Type} (lib : CallLib δ) (rt : Runtime)

/-- The session variables as the configuration has them. -/
def Runtime.sessionVars : SessionVars := ⟨rt.cfg.sessionVars⟩

def Runtime.hasCredRefs : Bool := configHasCredRefs lib.syn rt.cfg

def ask (q : Question δ) : Call δ (Answer q) := .query q

/-! ## Ends of a call -/

def ofBackend (x : Except BackendError α) : Call δ α := .ofExcept (x.mapError .failed)

def ofSql (x : Except SqlError α) : Call δ α := ofBackend (x.mapError (BackendError.ofSql lib.redact))

/-- The label of an error in the accounting of refunds. -/
def refundReasonFor : BackendError → String
  | .timeout _ => "timeout"
  | .transport _ => "transport"
  | .invalidSpec _ => "invalid_spec"
  | .profileNotFound _ => "invalid_spec"

def tryEmitRefund (rt : Runtime) (reason : String) : Call δ Unit :=
  if rt.cost.isSome then ask (.refund reason) else pure ()

def tryEmitCharge (args : Value) (rows bytes : Nat) : Call δ Unit :=
  match rt.cost with
  | none => pure ()
  | some c => do
    let amount ← ofSql lib (c.compute args rows bytes)
    ask (.charge amount rows bytes)

/-- The call ends with `e`, and its price is given back. -/
def refundAndFail (rt : Runtime) (reason : String) (e : BackendError) : Call δ α := do
  tryEmitRefund rt reason
  .fail (.failed e)

/-- A statement failed with `e`. -/
def failWith (e : SqlError) : Call δ α :=
  let e := BackendError.ofSql lib.redact e
  refundAndFail rt (refundReasonFor e) e

/-- A statement under the timeout of the query. -/
def submitWithin (rt : Runtime) (pool : PoolHandle) (how : Submit) (stmt : PreparedStmt)
    (args : List BoundParam) (session : SessionVars) : Call δ (Except SqlError how.Reply) := do
  let reply : Option (Except SqlError how.Reply) ←
    ask (.submitWithin rt.timeoutMs ⟨.pool pool, how, stmt, args, session⟩)
  match reply with
  | some reply => pure reply
  | none => refundAndFail rt "timeout" (.timeout rt.timeoutMs)

/-- The bytes of a payload; `message` is what a failure begins with. -/
def serialize (payload : Value) (message : String) : Call δ (List UInt8) :=
  match lib.toVec payload with
  | .ok bytes => pure bytes
  | .error e => refundAndFail rt "transport" (.transport (message ++ e))

/-! ## Credentials, pool and session variables -/

/-- `resolve_creds_for`: the host is asked each time. -/
def resolveCreds : Call δ (ResolvedCreds δ) := do
  let answer : Except BackendHostError Value ← ask (.resolveCredentials (credSnapshot lib.syn rt.cfg))
  ofBackend (resolveCredsFor lib.syn rt.cfg lib.blake3 fun _ => answer)

/-- The pool of the call: the registered one, or the one of the caller's credentials. -/
def resolvePoolForCall : Call δ PoolHandle :=
  if rt.hasCredRefs lib then do
    let resolved ← resolveCreds lib rt
    let pool : Except SqlError PoolHandle ←
      ask (.getOrBuild resolved.digest resolved.credKeys resolved.url)
    ofSql lib pool
  else pure .registered

/-- The session variables of the call. The credentials are resolved once more for them. -/
def activeSessionVars : Call δ SessionVars :=
  if rt.hasCredRefs lib then do
    let resolved ← resolveCreds lib rt
    pure ⟨resolved.sessionVars⟩
  else pure rt.sessionVars

/-! ## `execute` on a plain binding -/

/-- The version in the key of the call; it counts where something invalidates the cache. -/
def lookupVersion (cache : CacheSpec) : Call δ UInt64 :=
  if cache.invalidateOn.isSome then ask .cacheVersion else pure 0

/-- The response under the key of the call, or the key to store it under. A cached value
begins with one byte for `truncated`. -/
def cacheLookup (bound : List BoundParam) (session : SessionVars) :
    Call δ (BackendResponse ⊕ Option String) :=
  match rt.cache.filter (·.enabled) with
  | none => pure (.inr none)
  | some cache => do
    let version ← lookupVersion cache
    let key := buildCacheKey lib.cache rt.backendName rt.stmt.sql bound session version
    let found : Except String (Option (List UInt8)) ← ask (.cacheGet key)
    match found with
    | .ok (some (header :: payload)) => pure (.inl { payload, truncated := header ≠ 0 })
    | .ok (some []) | .ok none => pure (.inr (some key))
    | .error _ => pure (.inr none)

/-- The query of the binding, tried once more where its first error is of a stale
statement. -/
def submitRetrying (pool : PoolHandle) (how : Submit) (bound : List BoundParam)
    (session : SessionVars) : Call δ how.Reply := do
  match ← submitWithin rt pool how rt.stmt bound session with
  | .ok reply => pure reply
  | .error e =>
    if lib.isRetryableStale e then do
      match ← submitWithin rt pool how rt.stmt bound session with
      | .ok reply => pure reply
      | .error e => failWith lib rt e
    else failWith lib rt e

/-- The first `remaining` rows over all sets; every set keeps its place. -/
def cutSets : Nat → List (List Value) → List (List Value)
  | _, [] => []
  | remaining, set :: sets =>
    if remaining ≥ set.length then set :: cutSets (remaining - set.length) sets
    else set.take remaining :: cutSets 0 sets

/-- A procedure, for all its result sets. -/
def runResultSets (args : Value) (pool : PoolHandle) (bound : List BoundParam)
    (session : SessionVars) : Call δ BackendResponse := do
  let reply : Except SqlError (List (List Value)) ←
    submitWithin rt pool .executeMultiResult rt.stmt bound session
  match reply with
  | .error e => failWith lib rt e
  | .ok sets =>
    let total := (sets.map List.length).sum
    let truncated : Bool := total > rt.maxRows
    let sets := if truncated then cutSets rt.maxRows sets else sets
    let payload := .object [("result_sets", .arr (sets.map .arr)), ("truncated", .bool truncated)]
    let payload ← serialize lib rt payload "serialize response: "
    tryEmitCharge lib rt args total payload.length
    pure { payload, truncated }

/-- The rows of a query, or the number of rows that a statement changes. -/
def runBatch (pool : PoolHandle) (bound : List BoundParam) (session : SessionVars) :
    Call δ RowBatch :=
  if rt.rowMode = .affectedRows then do
    let n : Nat ← submitRetrying lib rt pool .executeAffected bound session
    pure { rowsAffected := some n }
  else submitRetrying lib rt pool .execute bound session

/-- The response of a batch: in the shape of the row mode, charged, and stored where the
call has a key. -/
def finishBatch (args : Value) (batch : RowBatch) (key : Option String) :
    Call δ BackendResponse := do
  let rowCount :=
    if rt.rowMode = .affectedRows then batch.rowsAffected.getD 0 else batch.rows.length
  let (payload, truncated) ← ofBackend (shapeResponse batch rt.rowMode rt.maxRows)
  let payload := match rt.streamRt with
    | some streamRt =>
      if rt.rowMode = .stream then addCursor lib.cursor streamRt rt.backendName payload else payload
    | none => payload
  let bytes ← serialize lib rt payload "serialize response: "
  tryEmitCharge lib rt args rowCount bytes.length
  match key, rt.cache with
  | some key, some cache => do
    let entry := (if truncated then 1 else 0) :: bytes
    let _stored : Except String Unit ← ask (.cachePut key entry cache.ttlSeconds)
    pure { payload := bytes, truncated }
  | _, _ => pure { payload := bytes, truncated }

/-- A plain call, over its pool and session variables. -/
def runQuery (pool : PoolHandle) (session : SessionVars) (request : BackendRequest) :
    Call δ BackendResponse := do
  let args ← ofBackend (callArgs lib.redact lib.cursor rt.toProfileRuntime rt.backendName request)
  let bound ← ofSql lib (collectBoundParams args rt.stmt.paramOrder)
  match ← cacheLookup lib rt bound session with
  | .inl response => pure response
  | .inr key =>
    if rt.rowMode = .resultSets then runResultSets lib rt args pool bound session
    else do
      let batch ← runBatch lib rt pool bound session
      finishBatch lib rt args batch key

/-! ## `execute` on a binding with an `await` block -/

/-- A statement of the block, on the registered pool. -/
def submitAwait (stmt : PreparedStmt) (args : Value) : Call δ RowBatch := do
  let bound ← ofSql lib (collectBoundParams args stmt.paramOrder)
  let reply : Except SqlError RowBatch ←
    submitWithin rt .registered .execute stmt bound rt.sessionVars
  match reply with
  | .ok batch => pure batch
  | .error e => failWith lib rt e

/-- The check query until its row satisfies the predicate, for this many polls after the
first `polls`. -/
def pollLoop (checkStmt : PreparedStmt) (args : Value) (deadline : Nat) :
    Nat → Nat → Call δ BackendResponse
  | _, 0 => .fail .running
  | polls, more + 1 => do
    let batch ← submitAwait lib rt checkStmt args
    let row := batch.rows.head?.getD .null
    if rt.awaitCfg.predicate row args then do
      let payload ← serialize lib rt row ("await check row serialization (binding=" ++
        rt.backendName ++ ", driver=" ++ rt.driverKind.asStr ++ ", polls=" ++
        toString (polls + 1) ++ "): ")
      tryEmitCharge lib rt args (if row.isNull then 0 else 1) payload.length
      pure { payload, truncated := false }
    else do
      let now : Nat ← ask .now
      if now ≥ deadline then refundAndFail rt "timeout" (.timeout rt.awaitCfg.timeoutMs)
      else do
        let drained : Bool ← ask (.sleep (min (rt.awaitCfg.pollIntervalMs * 1000000) (deadline - now)))
        if drained then refundAndFail rt "timeout" (.timeout rt.awaitCfg.timeoutMs)
        else pollLoop checkStmt args deadline (polls + 1) more

/-- The trigger of the block, for what it does. -/
def fireTrigger (args : Value) : Option PreparedStmt → Call δ Unit
  | none => pure ()
  | some stmt => do
    let _batch ← submitAwait lib rt stmt args
    pure ()

/-- The trigger once, then the check query. -/
def executeAwaitLoop (aw : AwaitRuntime) (polls : Nat) (request : BackendRequest) :
    Call δ BackendResponse := do
  let args ← ofBackend (callArgs lib.redact lib.cursor rt.toProfileRuntime rt.backendName request)
  fireTrigger lib rt args aw.triggerStmt
  let start : Nat ← ask .now
  pollLoop lib rt aw.checkStmt args (start + rt.awaitCfg.timeoutMs * 1000000) 0 polls

/-- `execute_inner_impl`; an `await` block is followed for this many polls. -/
def executeInnerImpl (polls : Nat) (request : BackendRequest) : Call δ BackendResponse :=
  match rt.awaitRt with
  | some aw => executeAwaitLoop lib rt aw polls request
  | none => do
    let pool ← resolvePoolForCall lib rt
    let session ← activeSessionVars lib rt
    runQuery lib rt pool session request

end

end McpgSql.Execute
