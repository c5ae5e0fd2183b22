import McpgSql.Auth.Config
import McpgSql.Breaker.Circuit
import McpgSql.Cost
import McpgSql.Execute.StreamBinding

/-!
# Registered profiles

The whole configuration of a binding, with every check that
`SqlBackendConfig::validate` makes of it, in its order; and `register_profile`, which
makes the profile of an accepted configuration. The session variables of a profile have
safe names because its configuration was accepted.
-/

namespace McpgSql.Execute

open Library McpgSql.Auth McpgSql.Cache McpgSql.Listing McpgSql.Pool McpgSql.Stream
open McpgSql.Breaker (CircuitBreakerConfig)
open McpgSql.Changes (ensure ensure_eq_ok)

/-! ## Configuration -/

structure PoolConfig where
  maxConnections : Nat := 10
  minIdle : Nat := 0
  requireCancelPrivilege : Bool := true

/-- A binding as it is configured. -/
structure ProfileConfig extends SqlBackendConfig where
  url : String
  auth : Option AuthConfig := none
  pool : PoolConfig := {}
  params : List String := []
  paramExprs : OrdMap String String := .empty
  maxRows : Nat := 1000
  progressHeartbeatMs : Option Nat := none
  stream : Option StreamConfig := none
  sessionVars : OrdMap String String := .empty
  circuitBreaker : Option CircuitBreakerConfig := none
  listQuery : Option ListQueryConfig := none
  await : Option AwaitConfig := none
  isolationLevel : Option IsolationLevel := none
  cache : Option CacheSpec := none
  cost : Option Cost.CostSpec := none

/-- What registration takes from libraries: URLs, prices, and CEL. -/
structure RegisterLib (δ : Type) extends CallLib δ where
  parseUrl : ParseUrl
  prices : Cost.CostLib
  compileParam : String → Except String Program
  compileCel : String → Except String (Value → Value → Bool)
  /-- The key of these bytes, and one that is drawn. -/
  keyFrom : List UInt8 → CursorSigningKey
  keyGenerated : CursorSigningKey

/-! ## Checks -/

def urlSchemes : DriverKind → List String
  | .postgres => ["postgres", "postgresql"]
  | .mysql | .mariadb => ["mysql", "mariadb"]
  | .sqlite => ["sqlite"]

def checkScheme (driver : DriverKind) (scheme : String) : Except SqlError Unit :=
  ensure (scheme ∈ urlSchemes driver) (.invalidSpec ("driver=" ++ (txDriver driver).asStr ++
    " expects url scheme " ++
    " or ".intercalate ((urlSchemes driver).map fun s => "'" ++ s ++ "'") ++ ", got '" ++ scheme ++ "'"))

def PoolConfig.validate (pool : PoolConfig) : Except SqlError Unit := do
  ensure (pool.maxConnections ≠ 0) (.invalidSpec "pool.max_connections must be > 0")
  ensure (pool.minIdle ≤ pool.maxConnections)
    (.invalidSpec "pool.min_idle must be <= pool.max_connections")

/-- `c.is_control()`. -/
def isControl (c : Char) : Bool :=
  let n := c.val.toNat
  n < 0x20 || (0x7F ≤ n && n ≤ 0x9F)

section

variable {δ : Type} (lib : RegisterLib δ)

/-- Exactly one of the amount and the expression, and that one is well formed. -/
def checkRate (spec : Cost.CostSpec) : Except SqlError Unit :=
  match spec.amount, spec.expression with
  | some _, some _ => .error (.invalidSpec
      "cost spec must set exactly one of `amount` or `expression`, not both")
  | none, none => .error (.invalidSpec "cost spec must set exactly one of `amount` or `expression`")
  | some amt, none => do
    let _amount ← Cost.parseDecimalAmount lib.prices amt "cost.amount"
  | none, some expr => do
    ensure (!(trim expr).isEmpty) (.invalidSpec "cost.expression must not be empty")
    let _program ← (lib.prices.compilePrice expr).mapError fun e =>
      .invalidSpec ("cost.expression does not compile as CEL: " ++ e)

/-- `CostSpec::validate`. -/
def validateCost (spec : Cost.CostSpec) : Except SqlError Unit := do
  checkRate lib spec
  ensure (!(trim spec.currency).isEmpty) (.invalidSpec "cost.currency must not be empty")
  ensure (!spec.currency.toList.any isControl)
    (.invalidSpec ("cost.currency '" ++ spec.currency ++ "' contains control characters"))
  whenSome (fun cap => do
    let _cap ← Cost.parseDecimalAmount lib.prices cap "cost.max_per_call") spec.maxPerCall

namespace ProfileConfig

variable (cfg : ProfileConfig)

/-- One credential surface: an `auth` block goes with no password and no token in the URL. -/
def checkAuth (parsed : Url) (auth : AuthConfig) : Except SqlError Unit := do
  auth.validate.mapError AuthError.toSql
  ensure (cfg.driver = .postgres) (.invalidSpec ("auth: \x7b kind: " ++ auth.scheme ++
    " \x7d requires driver: postgres in this build; MySQL/MariaDB on RDS is not yet supported, " ++
    "SQLite cannot be IAM-authed"))
  ensure (parsed.password.getD "").isEmpty (.invalidSpec ("auth: \x7b ... \x7d block is mutually " ++
    "exclusive with a password embedded in `url`. Drop the `:password@` segment; the auth " ++
    "provider supplies the password at connect time."))
  ensure (lib.syn.credTokens cfg.url).isEmpty (.invalidSpec ("auth: \x7b ... \x7d block is mutually " ++
    "exclusive with `$\x7bcred://…\x7d` tokens in `url`. Pick one: cloud-IAM auth, or per-caller " ++
    "dynamic creds."))

def checkConnection : Except SqlError Unit := do
  let parsed ← (lib.parseUrl cfg.url).mapError fun e => .invalidSpec ("url parse failed: " ++ e)
  checkScheme cfg.driver parsed.scheme
  whenSome (cfg.checkAuth lib parsed) cfg.auth
  cfg.pool.validate

/-- Result sets are of a procedure. -/
def checkProcedure : QueryBody → Except SqlError Unit
  | .procedure _ => .ok ()
  | .sql _ | .sqlFile _ => .error (.invalidSpec ("row_mode: result_sets requires " ++
      "`query.procedure` — only stored procedures yield multiple result sets. Switch to " ++
      "`row_mode: many` for SELECTs that return a single set."))

def checkMultiResult : DriverKind → Except SqlError Unit
  | .mysql | .mariadb => .ok ()
  | .postgres => .error (.invalidSpec ("row_mode: result_sets is not supported on Postgres — " ++
      "`CALL <proc>` returns at most one result set. Use `row_mode: many` instead."))
  | .sqlite => .error (.invalidSpec ("row_mode: result_sets is not supported on SQLite — the " ++
      "engine has no stored-procedure concept. Use `row_mode: many` for SELECTs."))

def checkResultSets : Except SqlError Unit :=
  if cfg.query.rowMode = .resultSets then do
    checkProcedure cfg.query.body
    checkMultiResult cfg.driver
  else .ok ()

def checkHeartbeat (ms : Nat) : Except SqlError Unit :=
  ensure (50 ≤ ms) (.invalidSpec ("query.progress_heartbeat_ms (" ++ toString ms ++
    " ms) is below the 50 ms floor"))

/-- What the driver can set: no dotted names on MySQL, and nothing on SQLite. -/
def checkSettable (keys : List String) : Except SqlError Unit :=
  if keys.isEmpty then .ok ()
  else match cfg.driver with
    | .postgres => .ok ()
    | .mysql | .mariadb => keys.forM fun key => ensure ('.' ∉ key.toList)
        (.invalidSpec ("session_vars: '" ++ key ++ "' contains '.', which is not valid in a " ++
          "MySQL/MariaDB user-variable name. Rename to '" ++
          String.ofList (key.toList.map fun c => if c = '.' then '_' else c) ++
          "' (replace dots with underscores)."))
    | .sqlite => .error (.invalidSpec ("session_vars: SQLite has no transaction-scoped " ++
        "session-variable concept (no SET LOCAL, no user variables). Remove `session_vars` or " ++
        "switch the binding to Postgres / MySQL."))

def checkSessionVars : Except SqlError Unit := do
  let keys := cfg.sessionVars.entries.map Prod.fst
  keys.forM fun key => ensure (isSafeSqlIdentifier key) (.invalidSpec ("session_vars: '" ++ key ++
    "' is not a safe SQL identifier (allowed: ASCII letters, digits, `_`, `.`)"))
  cfg.checkSettable keys

/-- `{:?}` of a level. -/
def debugLevel : IsolationLevel → String
  | .readCommitted => "ReadCommitted"
  | .repeatableRead => "RepeatableRead"
  | .serializable => "Serializable"

def checkIsolation (level : IsolationLevel) : Except SqlError Unit :=
  ensure (cfg.driver ≠ .sqlite || level = .serializable) (.invalidSpec ("isolation_level=" ++
    debugLevel level ++ ": SQLite is always serializable; drop the field or set it to 'serializable'"))

/-- The configuration with its checks, those of the stream apart. -/
def binding : BindingConfig where
  toSqlBackendConfig := cfg.toSqlBackendConfig
  params := cfg.params
  listQuery := cfg.listQuery
  await := cfg.await
  cache := cfg.cache
  connectionChecks := cfg.checkConnection lib
  accountChecks := do
    whenSome (validateCost lib) cfg.cost
    cfg.checkSessionVars
  isolationCheck := whenSome cfg.checkIsolation cfg.isolationLevel

def streamBinding : StreamBindingConfig where
  base := cfg.binding lib
  stream := cfg.stream
  laterChecks := do
    cfg.checkResultSets
    whenSome checkHeartbeat cfg.progressHeartbeatMs
    whenSome CircuitBreakerConfig.validate cfg.circuitBreaker

/-- `SqlBackendConfig::validate`. -/
def validate : Except SqlError Unit := (cfg.streamBinding lib).validate

end ProfileConfig

end

/-! ## Registration -/

/-- What a pool is opened with. -/
structure ConnectCfg where
  url : String
  pool : PoolConfig
  statementTimeoutMs : Option Nat
  authProvider : Option AuthConfig := none

def ConnectCfg.fromConfig (cfg : ProfileConfig) : ConnectCfg where
  url := cfg.url
  pool := cfg.pool
  statementTimeoutMs := cfg.query.timeoutMs

namespace ProfileConfig

variable (cfg : ProfileConfig)

def buildPool : ConnectCfg :=
  match cfg.auth with
  | some auth => { ConnectCfg.fromConfig cfg with authProvider := some auth }
  | none => ConnectCfg.fromConfig cfg

/-- The provider of an `auth` block is not attached. -/
def buildPoolWithUrl (url : String) : ConnectCfg := { ConnectCfg.fromConfig cfg with url }

end ProfileConfig

/-- What registration finds: the drivers of the build, and what the database answers. -/
structure Opening where
  files : Files
  drivers : List DriverKind := [.postgres, .mysql, .mariadb, .sqlite]
  connect : ConnectCfg → Except SqlError Unit := fun _ => .ok ()
  healthCheck : Except SqlError Unit := .ok ()
  verifyCancelPrivilege : Except SqlError Unit := .ok ()

/-- The driver is one of the build. -/
def Opening.requireDriver (opening : Opening) (driver : DriverKind) : Except BackendError Unit :=
  if driver ∈ opening.drivers then .ok ()
  else .error (.invalidSpec ("driver '" ++ driver.asStr ++ "' is not compiled into this build"))

/-- The pool of the profile, probed before it is used. -/
def Opening.openPool (opening : Opening) (cfg : ProfileConfig) : Except SqlError Unit := do
  opening.connect cfg.buildPool
  opening.healthCheck
  if cfg.pool.requireCancelPrivilege then opening.verifyCancelPrivilege else .ok ()

/-- The names that the driver can set. -/
def settable (driver : DriverKind) (name : String) : Bool :=
  match driver with
  | .postgres => isSafeSqlIdentifier name
  | .mysql | .mariadb => isSafeSqlIdentifier name && '.' ∉ name.toList
  | .sqlite => false

section

variable {δ : Type} {lib : RegisterLib δ} {cfg : ProfileConfig}

theorem forM_eq_ok {α : Type} {f : α → Except SqlError Unit} {l : List α} :
    l.forM f = .ok () ↔ ∀ a ∈ l, f a = .ok () := by
  induction l with
  | nil => simp [List.forM_nil, pure_eq_ok]
  | cons a l ih =>
    show (f a >>= fun _ => l.forM f) = .ok () ↔ _
    rw [bind_eq_ok, List.forall_mem_cons, ← ih]
    constructor
    · rintro ⟨_, ha, hl⟩
      exact ⟨ha, hl⟩
    · rintro ⟨ha, hl⟩
      exact ⟨(), ha, hl⟩

/-- What `validate` has checked of an accepted configuration. -/
structure ProfileConfig.Valid (lib : RegisterLib δ) (cfg : ProfileConfig) : Prop where
  /-- An `auth` block is the one credential surface. -/
  surface : ∀ auth, cfg.auth = some auth → lib.syn.credTokens cfg.url = [] ∧
    ∃ parsed, lib.parseUrl cfg.url = .ok parsed ∧ parsed.password.getD "" = ""
  stream : cfg.query.rowMode = .stream → cfg.stream.isSome
  resultSets : cfg.query.rowMode = .resultSets →
    (cfg.driver = .mysql ∨ cfg.driver = .mariadb) ∧ ∃ procedure, cfg.query.body = .procedure procedure
  cached : ∀ cache, cfg.cache = some cache → cache.enabled →
    uncachedRowMode cfg.query.rowMode = none ∧ ∀ procedure, cfg.query.body ≠ .procedure procedure
  sessionVars : ∀ var ∈ cfg.sessionVars.entries, isSafeSqlIdentifier var.1 ∧
    settable cfg.driver var.1

namespace ProfileConfig

theorem surface_of_checkConnection (h : cfg.checkConnection lib = .ok ()) {auth : AuthConfig}
    (hauth : cfg.auth = some auth) : lib.syn.credTokens cfg.url = [] ∧
      ∃ parsed, lib.parseUrl cfg.url = .ok parsed ∧ parsed.password.getD "" = "" := by
  simp only [checkConnection, bind_eq_ok, mapError_eq_ok] at h
  obtain ⟨parsed, hparsed, _, -, _, hcheck, -⟩ := h
  have hcheck := whenSome_eq_ok.mp hcheck auth hauth
  simp only [checkAuth, bind_eq_ok] at hcheck
  obtain ⟨_, -, _, -, _, hpassword, htokens⟩ := hcheck
  exact ⟨List.isEmpty_iff.mp (ensure_eq_ok.mp htokens), parsed, hparsed,
    String.isEmpty_iff.mp (ensure_eq_ok.mp hpassword)⟩

theorem resultSets_of_check (h : cfg.checkResultSets = .ok ())
    (hmode : cfg.query.rowMode = .resultSets) :
    (cfg.driver = .mysql ∨ cfg.driver = .mariadb) ∧
      ∃ procedure, cfg.query.body = .procedure procedure := by
  rw [checkResultSets, if_pos hmode, bind_eq_ok] at h
  obtain ⟨_, hbody, hdriver⟩ := h
  constructor
  · cases hd : cfg.driver with
    | mysql => exact .inl rfl
    | mariadb => exact .inr rfl
    | postgres =>
      rw [hd] at hdriver
      cases hdriver
    | sqlite =>
      rw [hd] at hdriver
      cases hdriver
  · cases hb : cfg.query.body with
    | procedure procedure => exact ⟨procedure, rfl⟩
    | sql sql =>
      rw [hb] at hbody
      cases hbody
    | sqlFile file =>
      rw [hb] at hbody
      cases hbody

theorem sessionVars_of_check (h : cfg.checkSessionVars = .ok ()) :
    ∀ var ∈ cfg.sessionVars.entries, isSafeSqlIdentifier var.1 ∧ settable cfg.driver var.1 := by
  obtain ⟨_, hsafe, hsettable⟩ := bind_eq_ok.mp h
  intro var hvar
  have hmem : var.1 ∈ cfg.sessionVars.entries.map Prod.fst := List.mem_map_of_mem hvar
  have hsafe := ensure_eq_ok.mp (forM_eq_ok.mp hsafe _ hmem)
  refine ⟨hsafe, ?_⟩
  rw [checkSettable, if_neg (by simp [List.isEmpty_iff, List.ne_nil_of_mem hvar])] at hsettable
  cases hd : cfg.driver with
  | postgres => exact hsafe
  | sqlite =>
    rw [hd] at hsettable
    cases hsettable
  | mysql =>
    rw [hd] at hsettable
    exact Bool.and_eq_true_iff.mpr ⟨hsafe, ensure_eq_ok.mp (forM_eq_ok.mp hsettable _ hmem)⟩
  | mariadb =>
    rw [hd] at hsettable
    exact Bool.and_eq_true_iff.mpr ⟨hsafe, ensure_eq_ok.mp (forM_eq_ok.mp hsettable _ hmem)⟩

theorem stream_of_check {query : QueryShape} {stream : Option StreamConfig}
    (h : checkStream query stream = .ok ()) (hmode : query.rowMode = .stream) : stream.isSome := by
  cases stream with
  | some block => rfl
  | none =>
    unfold checkStream at h
    rw [hmode] at h
    cases h

theorem cached_of_check {query : QueryShape} {cache : CacheSpec} {guards : Changes.Guards}
    (h : cache.validate guards query = .ok ()) (henabled : cache.enabled) :
    uncachedRowMode query.rowMode = none ∧ ∀ procedure, query.body ≠ .procedure procedure := by
  rw [CacheSpec.validate, if_pos henabled] at h
  cases hmode : uncachedRowMode query.rowMode with
  | some message => rw [hmode] at h; cases h
  | none =>
    refine ⟨rfl, fun procedure hbody => ?_⟩
    rw [hmode, hbody] at h
    cases h

theorem valid_of_validate (h : cfg.validate lib = .ok ()) : cfg.Valid lib := by
  simp only [validate, StreamBindingConfig.validate, BindingConfig.validate, bind_eq_ok,
    StreamBindingConfig.config, streamBinding, binding] at h
  obtain ⟨_, ⟨_, hconn, _, hstream, _, hsets, -⟩, _, -, _, -, _, hcache, _, ⟨_, -, hvars⟩, -⟩ := h
  exact ⟨fun auth hauth => surface_of_checkConnection hconn hauth,
    fun hmode => stream_of_check hstream hmode,
    fun hmode => resultSets_of_check hsets hmode,
    fun cache hsome henabled => cached_of_check (whenSome_eq_ok.mp hcache cache hsome) henabled,
    sessionVars_of_check hvars⟩

variable (lib cfg)

/-- The parts of an accepted configuration that carry credentials. -/
def credConfig (h : cfg.validate lib = .ok ()) : CredConfig where
  url := cfg.url
  sessionVars := cfg.sessionVars
  identifiers var hvar := ((valid_of_validate h).sessionVars var hvar).1

/-- The key that signs cursors; an empty one counts as none. -/
def streamKey (stream : StreamConfig) : CursorSigningKey :=
  match stream.signingKey with
  | some value => if value.isEmpty then lib.keyGenerated else lib.keyFrom (utf8 value)
  | none => lib.keyGenerated

/-- In the `stream` row mode `validate` has seen the block. -/
def streamRuntime : Option StreamRuntime :=
  if cfg.query.rowMode = .stream then
    cfg.stream.map fun stream => ⟨stream, streamKey lib stream⟩
  else none

def awaitCfg : AwaitCfg :=
  match cfg.await with
  | none => {}
  | some aw => { predicate := (lib.compileCel aw.predicate).toOption.getD fun _ _ => false
                 pollIntervalMs := aw.pollIntervalMs
                 timeoutMs := aw.timeoutMs }

def compileCost : Except SqlError (Option BackendCost) :=
  match cfg.cost with
  | none => .ok none
  | some spec => do
    let c ← Cost.compile lib.prices spec
    return some ⟨c.compute lib.prices⟩

/-- `register_profile`, of a plugin that is not draining. -/
def register (opening : Opening) (backendName : String) : Except BackendError Runtime :=
  let ofSql {α : Type} (x : Except SqlError α) : Except BackendError α :=
    x.mapError (BackendError.ofSql lib.redact)
  match hvalid : cfg.validate lib with
  | .error e => .error (BackendError.ofSql lib.redact e)
  | .ok _ => do
    let paramExprs ← ofSql (compileAll lib.compileParam cfg.paramExprs)
    opening.requireDriver cfg.driver
    let stmt ← ofSql ((cfg.binding lib).prepareStmt opening.files)
    ofSql (opening.openPool cfg)
    let list ← prepareList (cfg.binding lib)
    let awaitRt ← prepareAwait (fun predicate => (lib.compileCel predicate).map fun _ => ())
      (cfg.binding lib)
    let cost ← ofSql (cfg.compileCost lib)
    return {
      stmt, paramExprs, streamRt := cfg.streamRuntime lib, awaitRt, backendName
      driverKind := cfg.driver, cfg := cfg.credConfig lib hvalid, rowMode := cfg.query.rowMode
      maxRows := cfg.maxRows, timeoutMs := cfg.query.timeoutMs.getD 5000
      awaitCfg := cfg.awaitCfg lib, list, cache := cfg.cache, cost }

/-- What registration leaves in the profile. -/
structure Registered (rt : Runtime) : Prop where
  valid : cfg.Valid lib
  url : rt.cfg.url = cfg.url
  sessionVars : rt.cfg.sessionVars = cfg.sessionVars
  rowMode : rt.rowMode = cfg.query.rowMode
  cache : rt.cache = cfg.cache
  cost : cfg.compileCost lib = .ok rt.cost
  stream : rt.rowMode = .stream → rt.streamRt.isSome

variable {lib cfg}

/-- A profile has a price exactly where its `cost` block compiles. -/
theorem compileCost_eq_ok {c : BackendCost} :
    cfg.compileCost lib = .ok (some c) ↔ ∃ spec compiled, cfg.cost = some spec ∧
      Cost.compile lib.prices spec = .ok compiled ∧ c = ⟨compiled.compute lib.prices⟩ := by
  unfold compileCost
  cases cfg.cost with
  | none => simp
  | some spec =>
    simp only [bind_eq_ok, pure_eq_ok, Option.some.injEq, exists_and_left, exists_eq_left']
    exact exists_congr fun compiled => and_congr_right fun _ => eq_comm

theorem Registered.isSome_cost {rt : Runtime} (h : cfg.Registered lib rt) (hcost : rt.cost.isSome) :
    cfg.cost.isSome := by
  obtain ⟨c, hc⟩ := Option.isSome_iff_exists.mp hcost
  have hcompiled := h.cost
  rw [hc] at hcompiled
  obtain ⟨spec, -, hspec, -⟩ := compileCost_eq_ok.mp hcompiled
  rw [hspec]
  rfl

theorem register_ok {opening : Opening} {backendName : String} {rt : Runtime}
    (h : cfg.register lib opening backendName = .ok rt) : cfg.Registered lib rt := by
  unfold register at h
  dsimp only at h
  split at h
  · cases h
  · rename_i hvalid
    have hv := valid_of_validate hvalid
    simp only [bind_eq_ok, mapError_eq_ok] at h
    obtain ⟨exprs, -, _, -, stmt, -, _, -, list, -, awaitRt, -, cost, hcost, hrt⟩ := h
    cases hrt
    refine ⟨hv, rfl, rfl, rfl, rfl, hcost, fun hmode => ?_⟩
    show (cfg.streamRuntime lib).isSome
    rw [streamRuntime, if_pos hmode, Option.isSome_map]
    exact hv.stream hmode

end ProfileConfig

end

end McpgSql.Execute
