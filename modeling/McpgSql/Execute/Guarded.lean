import McpgSql.Execute.Registration

/-!
# The guards of the ways to a driver

`Submits path text`: a text that is rewritten and handed to a driver or to a
transaction, by where it comes from. Every statement that a registered binding
hands over is such a text, or the call of a procedure (`handed_submits`).

`guards_cover_iff`: all texts of a path have passed both guards, but for the steps
of transactions, completion queries and the files of `sql_polling`.
-/

namespace McpgSql.Execute

open Library McpgSql.Cache McpgSql.Listing

/-! ## Paths -/

/-- Where a text comes from. -/
inductive SqlPath where
  | query
  | queryFile
  | listQuery
  | awaitTrigger
  | awaitCheck
  | invalidateOn
  | txStep
  | completion
  | polling
  | pollingFile
  | changes
  | latest
deriving DecidableEq, Repr

/-- The paths without the guards. -/
def unguarded : List SqlPath := [.txStep, .completion, .pollingFile]

/-- The runtime of a configuration that `register_profile` accepted. -/
structure Registered (files : Files) (cfg : BindingConfig) (rt : Runtime) : Prop where
  prepared : ∃ redact compiles tracking,
    cfg.register redact compiles files = .ok ⟨rt.stmt, rt.list, rt.awaitRt, tracking⟩
  driverKind : rt.driverKind = cfg.driver

/-- A call on a binding of this configuration hands the statement over. -/
def Hands (files : Files) (cfg : BindingConfig) (entry : Entry) (stmt : PreparedStmt) : Prop :=
  ∃ (δ : Type) (lib : CallLib δ) (rt : Runtime) (env : Nat → (q : Question δ) → Answer q)
    (s : Submission), Registered files cfg rt ∧ s ∈ entry.handed lib rt env ∧ s.stmt = stmt

/-- The text is rewritten and handed over on this path, by a call or by a watch: the
statement of a watch goes to its driver at every poll. -/
inductive Submits : SqlPath → String → Prop where
  | query {files : Files} {cfg : BindingConfig} {entry : Entry} {stmt : PreparedStmt} {sql : String}
      (hands : Hands files cfg entry stmt) (hbody : cfg.query.body = .sql sql)
      (hstmt : prepareSql sql cfg.params cfg.driver = .ok stmt) : Submits .query sql
  | queryFile {files : Files} {cfg : BindingConfig} {entry : Entry} {stmt : PreparedStmt}
      {file sql : String} (hands : Hands files cfg entry stmt)
      (hbody : cfg.query.body = .sqlFile file) (hraw : cfg.raw files = .ok sql)
      (hstmt : prepareSql sql cfg.params cfg.driver = .ok stmt) : Submits .queryFile sql
  | listQuery {files : Files} {cfg : BindingConfig} {entry : Entry} {stmt : PreparedStmt}
      {lq : ListQueryConfig} (hands : Hands files cfg entry stmt) (hlist : cfg.listQuery = some lq)
      (hstmt : lq.prepare cfg.driver = .ok stmt) : Submits .listQuery lq.sql
  | awaitTrigger {files : Files} {cfg : BindingConfig} {entry : Entry} {aw : AwaitConfig}
      {trig : AwaitStep} (hands : Hands files cfg entry (trig.prepare cfg.driver))
      (hawait : cfg.await = some aw) (htrig : aw.trigger = some trig) :
      Submits .awaitTrigger trig.sql
  | awaitCheck {files : Files} {cfg : BindingConfig} {entry : Entry} {aw : AwaitConfig}
      (hands : Hands files cfg entry (aw.check.prepare cfg.driver))
      (hawait : cfg.await = some aw) : Submits .awaitCheck aw.check.sql
  | invalidateOn {files : Files} {cfg : BindingConfig} {rt : Runtime} {cache : CacheSpec}
      {inv : CacheInvalidateOn} (hreg : Registered files cfg rt) (hcache : cfg.cache = some cache)
      (henabled : cache.enabled) (hinv : cache.invalidateOn = some inv) :
      Submits .invalidateOn inv.sql
  | txStep {files : Files} {cfg : BindingConfig} {group : TxGroup} {step : TxNestedStep}
      (hands : Hands files cfg (.executeTransaction (.ok group)) (step.prepare (txDriver cfg.driver)))
      (hstep : step ∈ group.steps) : Submits .txStep step.sql
  | completion {files : Files} {cfg : BindingConfig} {typed : String}
      {config : SqlCompletionConfig} {context : OrdMap String String}
      (hands : Hands files cfg (.completeTemplateVariable typed (.ok config) context)
        (config.prepare cfg.driver)) : Submits .completion config.query
  | polling {files : Files} {spec : SqlPollingWatchSpec} {stmt : PreparedStmt} {sql : String}
      (hstmt : spec.watchStmt files = .ok stmt) (hbody : spec.connection.query.body = .sql sql) :
      Submits .polling sql
  | pollingFile {files : Files} {spec : SqlPollingWatchSpec} {stmt : PreparedStmt}
      {file sql : String} (hstmt : spec.watchStmt files = .ok stmt)
      (hbody : spec.connection.query.body = .sqlFile file) (hfile : files file = .ok sql) :
      Submits .pollingFile sql
  | changes {validate : SqlBackendConfig → Except SqlError Unit} {spec : Changes.SqlChangesWatchSpec}
      {plan : Changes.Plan} {sql : String}
      (hplan : spec.compile (sqlGuards validate) = .ok plan) (hsql : spec.sql = .ok sql) :
      Submits .changes sql
  | latest {validate : SqlBackendConfig → Except SqlError Unit} {spec : Changes.SqlChangesWatchSpec}
      {plan : Changes.Plan} {sql : String}
      (hplan : spec.compile (sqlGuards validate) = .ok plan) (hsql : spec.latestSql = some sql) :
      Submits .latest sql

theorem Registered.guarded {files : Files} {cfg : BindingConfig} {rt : Runtime}
    (h : Registered files cfg rt) : cfg.Guarded := by
  obtain ⟨redact, compiles, tracking, hreg⟩ := h.prepared
  exact (BindingConfig.register_ok hreg).1

theorem Hands.guarded {files : Files} {cfg : BindingConfig} {entry : Entry} {stmt : PreparedStmt}
    (h : Hands files cfg entry stmt) : cfg.Guarded := by
  obtain ⟨δ, lib, rt, env, s, hreg, -, -⟩ := h
  exact hreg.guarded

/-! ## The statements of a binding -/

section

theorem prepareSql_ok {raw : String} {params : List String} {driver : DriverKind}
    {stmt : PreparedStmt} (h : prepareSql raw params driver = .ok stmt) :
    stmt.sql = (rewritePlaceholders raw driver).1 ∧ stmt.driver = driver := by
  simp only [prepareSql] at h
  split at h
  · cases h
    exact ⟨rfl, rfl⟩
  · obtain ⟨_, -, h⟩ := bind_eq_ok.mp h
    cases h
    exact ⟨rfl, rfl⟩

variable {δ : Type} {lib : CallLib δ} {rt : Runtime} {env : Nat → (q : Question δ) → Answer q}
  {files : Files} {cfg : BindingConfig} {entry : Entry} {s : Submission}

/-- Where a statement that is handed over comes from. -/
def Comes (cfg : BindingConfig) (stmt : PreparedStmt) : Prop :=
  ∃ text, stmt.sql = (rewritePlaceholders text stmt.driver).1 ∧
    ((∃ path, Submits path text) ∨
      ∃ procedure, cfg.query.body = .procedure procedure ∧
        text = callStatement procedure cfg.params.length cfg.driver)

/-- The query of a registered binding. -/
theorem comes_query (hreg : Registered files cfg rt) (hands : Hands files cfg entry rt.stmt) :
    Comes cfg rt.stmt := by
  obtain ⟨redact, compiles, tracking, hok⟩ := hreg.prepared
  obtain ⟨-, ⟨raw, hraw, hstmt⟩, -⟩ := BindingConfig.register_ok hok
  obtain ⟨hsql, hdriver⟩ := prepareSql_ok hstmt
  refine ⟨raw, by rw [hsql, hdriver], ?_⟩
  cases hbody : cfg.query.body with
  | sql sql =>
    simp only [BindingConfig.raw, hbody] at hraw
    cases hraw
    exact .inl ⟨_, .query hands hbody hstmt⟩
  | sqlFile file => exact .inl ⟨_, .queryFile hands hbody hraw hstmt⟩
  | procedure procedure =>
    simp only [BindingConfig.raw, hbody] at hraw
    cases hraw
    exact .inr ⟨procedure, rfl, rfl⟩

/-- The statements of the `await` block of a registered binding. -/
theorem comes_await (hreg : Registered files cfg rt) {aw : AwaitRuntime} (haw : rt.awaitRt = some aw)
    {stmt : PreparedStmt} (hstmt : stmt ∈ aw.triggerStmt.toList ++ [aw.checkStmt])
    (hands : Hands files cfg entry stmt) : Comes cfg stmt := by
  obtain ⟨redact, compiles, tracking, hok⟩ := hreg.prepared
  obtain ⟨-, -, -, hawait⟩ := BindingConfig.register_ok hok
  rw [haw, prepareAwait] at hawait
  cases hcfg : cfg.await with
  | none => rw [hcfg] at hawait; cases hawait
  | some conf =>
    simp only [hcfg, AwaitConfig.prepare, bind_eq_ok, pure_eq_ok] at hawait
    obtain ⟨_, ⟨_, -, rfl⟩, haw⟩ := hawait
    cases haw
    simp only [List.mem_append, Option.mem_toList, Option.map_eq_some_iff, List.mem_singleton] at hstmt
    rcases hstmt with ⟨trig, htrig, rfl⟩ | rfl
    · exact ⟨trig.sql, rfl, .inl ⟨_, .awaitTrigger hands hcfg htrig⟩⟩
    · exact ⟨conf.check.sql, rfl, .inl ⟨_, .awaitCheck hands hcfg⟩⟩

/-- Every statement that a binding hands over is rewritten from a text of one of the paths,
or from the call of its procedure. -/
theorem handed_submits (hreg : Registered files cfg rt) (hs : s ∈ entry.handed lib rt env) :
    Comes cfg s.stmt := by
  have hands : Hands files cfg entry s.stmt := ⟨δ, lib, rt, env, s, hreg, hs, rfl⟩
  have hmem := handed_stmt hs
  cases entry with
  | execute polls request =>
    rw [Entry.statements, ProfileRuntime.statements] at hmem
    cases haw : rt.awaitRt with
    | some aw =>
      rw [haw] at hmem
      exact comes_await hreg haw hmem hands
    | none =>
      rw [haw, List.mem_singleton] at hmem
      rw [hmem] at hands ⊢
      exact comes_query hreg hands
  | executeTransaction group =>
    cases group with
    | error e => cases hmem
    | ok group =>
      obtain ⟨step, hstep, hstmt⟩ := List.mem_map.mp hmem
      rw [hreg.driverKind] at hstmt
      rw [← hstmt] at hands ⊢
      exact ⟨step.sql, rfl, .inl ⟨_, .txStep hands (by simpa [Except.toOption] using hstep)⟩⟩
  | listResources cursor =>
    obtain ⟨redact, compiles, tracking, hok⟩ := hreg.prepared
    obtain ⟨-, -, hlist, -⟩ := BindingConfig.register_ok hok
    obtain ⟨⟨stmt, lq⟩, hrt, hstmt⟩ := List.mem_map.mp hmem
    rw [Option.mem_toList.mp hrt, prepareList] at hlist
    cases hcfg : cfg.listQuery with
    | none => rw [hcfg] at hlist; cases hlist
    | some lq' =>
      simp only [hcfg, bind_eq_ok, pure_eq_ok, Option.some.injEq, Prod.mk.injEq] at hlist
      obtain ⟨_, hprep, rfl, rfl⟩ := hlist
      rw [← hstmt] at hands ⊢
      refine ⟨lq'.sql, ?_, .inl ⟨_, .listQuery hands hcfg hprep⟩⟩
      simp only [ListQueryConfig.prepare] at hprep
      split at hprep
      · cases hprep
      · cases hprep
        rfl
  | completeTemplateVariable typed config context =>
    cases config with
    | error e => cases hmem
    | ok config =>
      obtain ⟨config', hconfig, hstmt⟩ := List.mem_map.mp hmem
      obtain rfl : config' = config := by simpa [Except.toOption] using hconfig
      rw [hreg.driverKind] at hstmt
      rw [← hstmt] at hands ⊢
      exact ⟨config'.query, rfl, .inl ⟨_, .completion hands⟩⟩

end

/-! ## The paths with guards -/

section

variable {validate : SqlBackendConfig → Except SqlError Unit} {spec : Changes.SqlChangesWatchSpec}
  {plan : Changes.Plan}

theorem changes_accepted (hplan : spec.compile (sqlGuards validate) = .ok plan) {sql : String}
    (hsql : spec.sql = .ok sql) : Accepted sql := by
  simp only [Changes.SqlChangesWatchSpec.compile, bind_eq_ok] at hplan
  obtain ⟨_, -, _, -, sql, hsql', _, -, _, -, _, -, _, -, _, -, _, -, _, -, _, -, _, -, _, hmulti, _,
    hddl, -⟩ := hplan
  cases hsql.symm.trans hsql'
  exact accepted_of_sqlGuards hmulti hddl

theorem latest_accepted (hplan : spec.compile (sqlGuards validate) = .ok plan) {sql : String}
    (hsql : spec.latestSql = some sql) : Accepted sql := by
  simp only [Changes.SqlChangesWatchSpec.compile, bind_eq_ok] at hplan
  obtain ⟨_, -, _, -, _, -, _, -, _, -, _, -, _, -, _, -, _, -, _, -, _, -, _, -, _, -, _, -, _, -,
    latest, hlatest, -⟩ := hplan
  simp only [Changes.SqlChangesWatchSpec.compileLatest, hsql, bind_eq_ok] at hlatest
  obtain ⟨_, hmulti, _, hddl, -⟩ := hlatest
  exact accepted_of_sqlGuards hmulti hddl

end

theorem accepted_of_submits {path : SqlPath} {text : String} (h : Submits path text)
    (hpath : path ∉ unguarded) : Accepted text := by
  cases h with
  | query hands hbody _ => exact hands.guarded.body _ hbody
  | queryFile _ hbody hraw _ => exact BindingConfig.accepted_raw hbody hraw
  | listQuery hands hlist _ => exact hands.guarded.list _ hlist
  | awaitTrigger hands hawait htrig => exact hands.guarded.trigger _ _ hawait htrig
  | awaitCheck hands hawait => exact hands.guarded.check _ hawait
  | invalidateOn hreg hcache henabled hinv => exact hreg.guarded.tracking _ _ hcache henabled hinv
  | txStep _ _ => exact (hpath (by decide)).elim
  | completion _ => exact (hpath (by decide)).elim
  | pollingFile _ _ _ => exact (hpath (by decide)).elim
  | polling hstmt hbody =>
    simp only [SqlPollingWatchSpec.watchStmt, SqlPollingWatchSpec.validate, bind_eq_ok] at hstmt
    obtain ⟨_, ⟨_, hvalid, -⟩, -⟩ := hstmt
    exact (BindingConfig.guarded_of_validate hvalid).body _ hbody
  | changes hplan hsql => exact changes_accepted hplan hsql
  | latest hplan hsql => exact latest_accepted hplan hsql

/-! ## The paths without -/

/-- A statement that gives privileges away. -/
def grantOrders : String := "GRANT ALL ON orders TO PUBLIC"

theorem not_accepted_grantOrders : ¬Accepted grantOrders := by
  intro h
  exact absurd h.2 (by decide)

def ordersConfig : BindingConfig where
  driver := .postgres
  query := { body := .sql "SELECT * FROM orders", rowMode := .many }

def ordersBinding : Runtime := ordersRuntime ⟨"postgres://app@db/orders", .empty, Pool.CredConfig.identifiers_empty⟩

theorem ordersBinding_registered (files : Files) : Registered files ordersConfig ordersBinding where
  prepared := ⟨id, fun _ => .ok (), none, rfl⟩
  driverKind := rfl

theorem submits_txStep : Submits .txStep grantOrders := by
  let step : TxNestedStep := { id := "grant", sql := grantOrders }
  have hands : Hands (fun _ => .error "no files") ordersConfig
      (.executeTransaction (.ok { steps := [step] })) (step.prepare (txDriver .postgres)) :=
    ⟨String, scanLib, ordersBinding, fun _ => answering fun _ => [],
      ⟨.transaction, .executeAffected, step.prepare .postgres, [], ⟨.empty⟩⟩,
      ordersBinding_registered _, by decide, rfl⟩
  exact .txStep hands List.mem_cons_self

theorem submits_completion : Submits .completion "GRANT ALL ON orders TO :prefix" := by
  let config : SqlCompletionConfig := { query := "GRANT ALL ON orders TO :prefix" }
  have hands : Hands (fun _ => .error "no files") ordersConfig
      (.completeTemplateVariable "public" (.ok config) .empty) (config.prepare .postgres) :=
    ⟨String, scanLib, ordersBinding, fun _ => answering fun _ => [],
      ⟨.pool .registered, .execute, config.prepare .postgres, [⟨"prefix", .str "public"⟩], ⟨.empty⟩⟩,
      ordersBinding_registered _, by decide, rfl⟩
  exact .completion hands

theorem submits_pollingFile : Submits .pollingFile grantOrders := by
  let connection : BindingConfig :=
    { driver := .postgres, query := { body := .sqlFile "track.sql", rowMode := .scalar } }
  have hstmt : SqlPollingWatchSpec.watchStmt (fun _ => .ok grantOrders) ⟨connection, 1000⟩ =
      .ok ⟨grantOrders, [], .postgres⟩ := by decide
  exact .pollingFile hstmt rfl rfl

/-- All texts of a path have passed both guards exactly where the path is none of the three
without them. -/
theorem guards_cover_iff (path : SqlPath) :
    (∀ text, Submits path text → Accepted text) ↔ path ∉ unguarded := by
  constructor
  · intro hall hmem
    simp only [unguarded, List.mem_cons, List.not_mem_nil, or_false] at hmem
    rcases hmem with rfl | rfl | rfl
    · exact not_accepted_grantOrders (hall _ submits_txStep)
    · exact absurd (hall _ submits_completion).2 (by decide)
    · exact not_accepted_grantOrders (hall _ submits_pollingFile)
  · exact fun hpath text h => accepted_of_submits h hpath

/-- A step of a transaction and the file of a watch give privileges away. -/
theorem grants_submitted :
    Submits .txStep grantOrders ∧ Submits .pollingFile grantOrders ∧
      Submits .completion "GRANT ALL ON orders TO :prefix" ∧ ¬Accepted grantOrders ∧
      ¬Accepted "GRANT ALL ON orders TO :prefix" :=
  ⟨submits_txStep, submits_pollingFile, submits_completion, not_accepted_grantOrders,
    fun h => absurd h.2 (by decide)⟩

end McpgSql.Execute
