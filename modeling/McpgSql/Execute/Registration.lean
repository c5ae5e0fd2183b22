import McpgSql.Execute.Session

/-!
# SQL texts of bindings and watches

Where the texts of statements come from: the configuration of a binding
(`SqlBackendConfig::validate`, `prepare_stmt` and the statements that
`register_profile` makes), and the `sql_polling` watch.

Of a configuration the model has the parts with SQL texts; the checks of the other
parts are in it by what they answer.
-/

namespace McpgSql.Execute

open Library McpgSql.Cache McpgSql.Listing
open McpgSql.Changes (ensure ensure_eq_ok)

/-! ## Configuration -/

/-- One statement of an `await` block. -/
structure AwaitStep where
  sql : String
  params : List String := []

structure AwaitConfig where
  trigger : Option AwaitStep := none
  check : AwaitStep
  predicate : String
  pollIntervalMs : Nat := 1000
  timeoutMs : Nat := 60000

/-- Both guards of a text. -/
def guardSql (sql : String) : Except SqlError Unit := do
  rejectMultiStatement sql
  rejectPrivilegedDdl sql

/-- A part of the configuration that need not be there. -/
def whenSome {α : Type} (validate : α → Except SqlError Unit) : Option α → Except SqlError Unit
  | none => .ok ()
  | some a => validate a

def validateTrigger (trig : AwaitStep) : Except SqlError Unit := do
  ensure (!(trim trig.sql).isEmpty)
    (.invalidSpec "await.trigger.sql must not be empty when trigger is declared")
  guardSql trig.sql

def AwaitConfig.validate (aw : AwaitConfig) : Except SqlError Unit := do
  ensure (!(trim aw.check.sql).isEmpty) (.invalidSpec "await.check.sql must not be empty")
  guardSql aw.check.sql
  whenSome validateTrigger aw.trigger
  ensure (!(trim aw.predicate).isEmpty)
    (.invalidSpec "await.predicate must be a non-empty CEL expression")
  ensure (100 ≤ aw.pollIntervalMs)
    (.invalidSpec ("await.poll_interval_ms (" ++ toString aw.pollIntervalMs ++ ") must be >= 100"))
  ensure (aw.timeoutMs ≠ 0) (.invalidSpec "await.timeout_ms must be > 0")
  ensure (aw.pollIntervalMs ≤ aw.timeoutMs)
    (.invalidSpec ("await.timeout_ms (" ++ toString aw.timeoutMs ++ ") must be >= poll_interval_ms ("
      ++ toString aw.pollIntervalMs ++ ")"))

/-- The body of the query; the text of a file is not there yet. -/
def validateBody : QueryBody → Except SqlError Unit
  | .procedure procedure => ensure (isSafeSqlIdentifier procedure)
      (.invalidSpec ("query.procedure: '" ++ procedure ++ "' is not a safe SQL identifier " ++
        "(allowed: ASCII letters, digits, `_`, `.`). Embedded as `CALL <procedure>(...)` — " ++
        "binding a non-identifier would corrupt the statement structure."))
  | .sql sql => guardSql sql
  | .sqlFile _ => .ok ()

/-- A binding's configuration: its statements, and what the checks of its other parts
answer. -/
structure BindingConfig extends SqlBackendConfig where
  params : List String := []
  listQuery : Option ListQueryConfig := none
  await : Option AwaitConfig := none
  cache : Option CacheSpec := none
  /-- Of the URL, `auth`, the pool, the row mode, heartbeats and the breaker. -/
  connectionChecks : Except SqlError Unit := .ok ()
  /-- Of the cost and the session variables. -/
  accountChecks : Except SqlError Unit := .ok ()
  isolationCheck : Except SqlError Unit := .ok ()

/-- The guards as `sql_changes` and the cache take them. -/
def sqlGuards (validate : SqlBackendConfig → Except SqlError Unit) : Changes.Guards :=
  ⟨validate, rejectMultiStatement, rejectPrivilegedDdl⟩

namespace BindingConfig

def validate (cfg : BindingConfig) : Except SqlError Unit := do
  cfg.connectionChecks
  whenSome ListQueryConfig.validate cfg.listQuery
  whenSome AwaitConfig.validate cfg.await
  whenSome (CacheSpec.validate (sqlGuards fun _ => .ok ()) cfg.query) cfg.cache
  cfg.accountChecks
  validateBody cfg.query.body
  cfg.isolationCheck

end BindingConfig

/-! ## Statements -/

/-- A driver's placeholder of a procedure's argument, counted from one. -/
def callPlaceholder (driver : DriverKind) (i : Nat) : String :=
  match driver with
  | .postgres => "$" ++ toString i
  | .mysql | .mariadb | .sqlite => "?"

def callStatement (procedure : String) (arity : Nat) (driver : DriverKind) : String :=
  "CALL " ++ procedure ++ "(" ++
    ", ".intercalate ((List.range arity).map fun i => callPlaceholder driver (i + 1)) ++ ")"

/-- `std::fs::read_to_string`. -/
abbrev Files := String → Except String String

def readSqlFile (files : Files) (file : String) : Except SqlError String :=
  (files file).mapError fun e => .invalidSpec ("sql_file '" ++ file ++ "': " ++ e)

/-- The statement of a step of an `await` block. -/
def AwaitStep.prepare (step : AwaitStep) (driver : DriverKind) : PreparedStmt :=
  let (sql, order) := rewritePlaceholders step.sql driver
  { sql, paramOrder := if order.isEmpty then step.params else order, driver }

namespace BindingConfig

variable (cfg : BindingConfig) (files : Files)

/-- The text that `prepare_stmt` rewrites. -/
def raw : Except SqlError String :=
  match cfg.query.body with
  | .sql sql => .ok sql
  | .sqlFile file => do
    let body ← readSqlFile files file
    guardSql body
    .ok body
  | .procedure procedure => .ok (callStatement procedure cfg.params.length cfg.driver)

def prepareStmt : Except SqlError PreparedStmt := do
  let raw ← cfg.raw files
  prepareSql raw cfg.params cfg.driver

/-- The tracking query of the cache. -/
def trackingStmt : Option PreparedStmt :=
  match cfg.cache.filter (·.enabled) with
  | none => none
  | some cache => cache.invalidateOn.map fun inv =>
    { sql := (rewritePlaceholders inv.sql cfg.driver).1, paramOrder := [], driver := cfg.driver }

end BindingConfig

/-- The statements of a registered binding. -/
structure Prepared where
  stmt : PreparedStmt
  list : Option (PreparedStmt × ListQueryConfig)
  awaitRt : Option AwaitRuntime
  tracking : Option PreparedStmt

section

variable (redact : String → String) (compiles : String → Except String Unit) (files : Files)

/-- The statements of an `await` block, where its predicate compiles. -/
def AwaitConfig.prepare (driver : DriverKind) (aw : AwaitConfig) : Except BackendError AwaitRuntime := do
  (compiles aw.predicate).mapError fun e =>
    .invalidSpec ("await.predicate CEL compile failed: " ++ e)
  return { triggerStmt := aw.trigger.map (·.prepare driver), checkStmt := aw.check.prepare driver }

/-- The listing of a registered binding. -/
def prepareList (cfg : BindingConfig) :
    Except BackendError (Option (PreparedStmt × ListQueryConfig)) :=
  match cfg.listQuery with
  | none => .ok none
  | some lq => do
    let stmt ← lq.prepare cfg.driver
    return some (stmt, lq)

def prepareAwait (cfg : BindingConfig) : Except BackendError (Option AwaitRuntime) :=
  match cfg.await with
  | none => .ok none
  | some aw => do
    let rt ← aw.prepare compiles cfg.driver
    return some rt

/-- The statements that `register_profile` makes of a configuration. -/
def BindingConfig.register (cfg : BindingConfig) : Except BackendError Prepared := do
  cfg.validate.mapError (BackendError.ofSql redact)
  let stmt ← (cfg.prepareStmt files).mapError (BackendError.ofSql redact)
  let list ← prepareList cfg
  let awaitRt ← prepareAwait compiles cfg
  return { stmt, list, awaitRt, tracking := cfg.trackingStmt }

end

/-! ## `sql_polling` -/

structure SqlPollingWatchSpec where
  connection : BindingConfig
  intervalMs : Nat := 1000

def SqlPollingWatchSpec.validate (spec : SqlPollingWatchSpec) : Except SqlError Unit := do
  spec.connection.validate
  ensure (100 ≤ spec.intervalMs) (.invalidSpec ("watch.interval_ms (" ++ toString spec.intervalMs ++
    " ms) is below the 100 ms floor"))

/-- The text of a tracking query. -/
def pollingRaw (files : Files) (cfg : BindingConfig) : Except SqlError String :=
  match cfg.query.body with
  | .sql sql => .ok sql
  | .sqlFile file => readSqlFile files file
  | .procedure procedure => .ok (callStatement procedure cfg.params.length cfg.driver)

def buildPreparedStmt (files : Files) (cfg : BindingConfig) : Except SqlError PreparedStmt := do
  let raw ← pollingRaw files cfg
  .ok { sql := (rewritePlaceholders raw cfg.driver).1, paramOrder := cfg.params
        driver := cfg.driver }

/-- The statement that a watch hands to its driver at every poll. -/
def SqlPollingWatchSpec.watchStmt (files : Files) (spec : SqlPollingWatchSpec) :
    Except SqlError PreparedStmt := do
  spec.validate
  buildPreparedStmt files spec.connection

/-! ## What the checks accept -/

theorem guardSql_eq_ok {sql : String} : guardSql sql = .ok () ↔ Accepted sql := by
  rw [guardSql, bind_eq_ok]
  exact ⟨fun ⟨_, h₁, h₂⟩ => ⟨h₁, h₂⟩, fun h => ⟨(), h.1, h.2⟩⟩

/-- What a check asks of the guards that it is given. -/
theorem accepted_of_sqlGuards {validate : SqlBackendConfig → Except SqlError Unit} {sql : String}
    (hmulti : (sqlGuards validate).rejectMultiStatement sql = .ok ())
    (hddl : (sqlGuards validate).rejectPrivilegedDdl sql = .ok ()) : Accepted sql := by
  simp only [sqlGuards] at hmulti hddl
  exact ⟨hmulti, hddl⟩

theorem whenSome_eq_ok {α : Type} {validate : α → Except SqlError Unit} {part : Option α} :
    whenSome validate part = .ok () ↔ ∀ a, part = some a → validate a = .ok () := by
  cases part with
  | none => simp [whenSome]
  | some a => simp [whenSome]

theorem ListQueryConfig.accepted {lq : ListQueryConfig} (h : lq.validate = .ok ()) :
    Accepted lq.sql := by
  simp only [ListQueryConfig.validate, bind_eq_ok] at h
  obtain ⟨_, -, _, hmulti, _, hddl, -⟩ := h
  exact ⟨hmulti, hddl⟩

theorem AwaitConfig.accepted {aw : AwaitConfig} (h : aw.validate = .ok ()) :
    Accepted aw.check.sql ∧ ∀ trig, aw.trigger = some trig → Accepted trig.sql := by
  simp only [AwaitConfig.validate, bind_eq_ok] at h
  obtain ⟨_, -, _, hcheck, _, htrig, -⟩ := h
  refine ⟨guardSql_eq_ok.mp hcheck, fun trig htrigger => ?_⟩
  have := whenSome_eq_ok.mp htrig trig htrigger
  simp only [validateTrigger, bind_eq_ok] at this
  obtain ⟨_, -, hguard⟩ := this
  exact guardSql_eq_ok.mp hguard

/-- An enabled cache has a tracking query that both guards accept. -/
theorem CacheSpec.accepted {cache : CacheSpec} {query : QueryShape}
    {validate : SqlBackendConfig → Except SqlError Unit}
    (h : cache.validate (sqlGuards validate) query = .ok ()) (henabled : cache.enabled)
    {inv : CacheInvalidateOn} (hinv : cache.invalidateOn = some inv) : Accepted inv.sql := by
  rw [CacheSpec.validate, if_pos henabled, hinv] at h
  have hvalid : inv.validate (sqlGuards validate) = .ok () := by
    cases hmode : uncachedRowMode query.rowMode with
    | some message => rw [hmode] at h; cases h
    | none =>
      rw [hmode] at h
      cases hbody : query.body with
      | procedure procedure => rw [hbody] at h; cases h
      | sql sql => rw [hbody] at h; exact h
      | sqlFile file => rw [hbody] at h; exact h
  rw [CacheInvalidateOn.validate] at hvalid
  cases hblank : inv.sql.toList.all isWhiteSpace with
  | true => rw [hblank] at hvalid; cases hvalid
  | false =>
    rw [hblank] at hvalid
    obtain ⟨_, hmulti, hvalid⟩ := bind_eq_ok.mp hvalid
    obtain ⟨_, hddl, -⟩ := bind_eq_ok.mp hvalid
    exact accepted_of_sqlGuards hmulti hddl

/-- The texts of a configuration that `validate` accepts. -/
structure BindingConfig.Guarded (cfg : BindingConfig) : Prop where
  body : ∀ sql, cfg.query.body = .sql sql → Accepted sql
  list : ∀ lq, cfg.listQuery = some lq → Accepted lq.sql
  check : ∀ aw, cfg.await = some aw → Accepted aw.check.sql
  trigger : ∀ aw trig, cfg.await = some aw → aw.trigger = some trig → Accepted trig.sql
  tracking : ∀ cache inv, cfg.cache = some cache → cache.enabled → cache.invalidateOn = some inv →
    Accepted inv.sql

theorem BindingConfig.guarded_of_validate {cfg : BindingConfig} (h : cfg.validate = .ok ()) :
    cfg.Guarded := by
  simp only [BindingConfig.validate, bind_eq_ok] at h
  obtain ⟨_, -, _, hlist, _, hawait, _, hcache, _, -, _, hbody, -⟩ := h
  constructor
  · intro sql hsql
    rw [hsql] at hbody
    exact guardSql_eq_ok.mp hbody
  · exact fun lq hlq => ListQueryConfig.accepted (whenSome_eq_ok.mp hlist lq hlq)
  · exact fun aw haw => (AwaitConfig.accepted (whenSome_eq_ok.mp hawait aw haw)).1
  · exact fun aw trig haw => (AwaitConfig.accepted (whenSome_eq_ok.mp hawait aw haw)).2 trig
  · exact fun cache inv hsome henabled hinv =>
      CacheSpec.accepted (whenSome_eq_ok.mp hcache cache hsome) henabled hinv

/-- What a registration has checked, and the text of its query. -/
theorem BindingConfig.register_ok {redact : String → String}
    {compiles : String → Except String Unit} {files : Files} {cfg : BindingConfig} {p : Prepared}
    (h : cfg.register redact compiles files = .ok p) :
    cfg.Guarded ∧ (∃ raw, cfg.raw files = .ok raw ∧ prepareSql raw cfg.params cfg.driver = .ok p.stmt) ∧
      prepareList cfg = .ok p.list ∧ prepareAwait compiles cfg = .ok p.awaitRt := by
  simp only [BindingConfig.register, bind_eq_ok, mapError_eq_ok, BindingConfig.prepareStmt] at h
  obtain ⟨_, hvalid, stmt, ⟨raw, hraw, hstmt⟩, list, hlist, awaitRt, hawait, hp⟩ := h
  cases hp
  exact ⟨guarded_of_validate hvalid, ⟨raw, hraw, hstmt⟩, hlist, hawait⟩

/-- The text of a file is accepted when the statement is made of it. -/
theorem BindingConfig.accepted_raw {cfg : BindingConfig} {files : Files} {file raw : String}
    (hbody : cfg.query.body = .sqlFile file) (h : cfg.raw files = .ok raw) : Accepted raw := by
  simp only [BindingConfig.raw, hbody, bind_eq_ok] at h
  obtain ⟨body, -, _, hguard, hraw⟩ := h
  cases hraw
  exact guardSql_eq_ok.mp hguard

end McpgSql.Execute
