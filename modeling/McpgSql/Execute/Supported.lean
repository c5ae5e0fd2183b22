import McpgSql.Execute.Profile

/-!
# What a registered profile asks for

`validate` refuses what a driver has no way to do: result sets that are not of a procedure
of MySQL, session variables that the driver cannot set, and cached responses of statements
that change something. `registered_suits`: no call of a registered profile asks for any of
it, whatever its environment answers.

It also refuses two credential surfaces in one URL, but not an `auth` block beside
credential tokens in session variables. `opened_with`: a statement of a profile with an
`auth` block goes to a connection that was opened with a token of the provider exactly
where its call is not the plain `execute` of a binding with such variables; those are
opened with the bare URL.
-/

namespace McpgSql.Execute

open Library Template McpgSql.Auth McpgSql.Cache McpgSql.Listing McpgSql.Pool McpgSql.Stream

variable {δ α : Type}

/-! ## Questions of a profile -/

/-- What a call of the profile may ask by its row mode, its cache and its cost. -/
def Question.Asked (rt : Runtime) : Question δ → Prop
  | .submit s | .submitWithin _ s => s.how = .executeMultiResult → rt.rowMode = .resultSets
  | .cacheVersion | .cacheGet _ | .cachePut .. => (rt.cache.filter (·.enabled)).isSome
  | .charge amount rows bytes => ∃ c args, rt.cost = some c ∧ c.compute args rows bytes = .ok amount
  | .refund _ => rt.cost.isSome
  | _ => True

/-- All that a call asks is `Asked`. -/
abbrev AskedCall (rt : Runtime) (p : Call δ α) : Prop := Prog.Always (Question.Asked rt) p

namespace AskedCall

variable {lib : CallLib δ} {rt : Runtime}

theorem ite {c : Prop} [Decidable c] {p p' : Call δ α} (hp : c → AskedCall rt p)
    (hp' : AskedCall rt p') : AskedCall rt (if c then p else p') := by
  split
  · rename_i hc
    exact hp hc
  · exact hp'

theorem ask {q : Question δ} (h : q.Asked rt) : AskedCall rt (Execute.ask q) := Prog.always_query h

theorem ofBackend (x : Except BackendError α) : AskedCall rt (Execute.ofBackend x : Call δ α) :=
  Prog.always_ofExcept _

theorem ofSql (x : Except SqlError α) : AskedCall rt (Execute.ofSql lib x) := ofBackend _

theorem refundAndFail (reason : String) (e : BackendError) :
    AskedCall rt (Execute.refundAndFail rt reason e : Call δ α) :=
  Prog.Always.bind (ite (fun hcost => ask hcost) trivial) fun _ => trivial

theorem failWith (e : SqlError) : AskedCall rt (Execute.failWith lib rt e : Call δ α) :=
  refundAndFail _ _

theorem tryEmitCharge (args : Value) (rows bytes : Nat) :
    AskedCall rt (Execute.tryEmitCharge lib rt args rows bytes) := by
  unfold Execute.tryEmitCharge
  split
  · trivial
  · rename_i c hcost
    cases hamount : c.compute args rows bytes with
    | error e => trivial
    | ok amount => exact ask ⟨c, args, hcost, hamount⟩

theorem serialize (payload : Value) (message : String) :
    AskedCall rt (Execute.serialize lib rt payload message) := by
  unfold Execute.serialize
  split
  · trivial
  · exact refundAndFail _ _

theorem submitWithin (pool : PoolHandle) {how : Submit} (stmt : PreparedStmt) (args : List BoundParam)
    (session : SessionVars) (h : how = .executeMultiResult → rt.rowMode = .resultSets) :
    AskedCall rt (Execute.submitWithin rt pool how stmt args session : Call δ _) := by
  refine Prog.Always.bind (ask h) fun reply => ?_
  cases reply with
  | none => exact refundAndFail _ _
  | some reply => trivial

/-! ### The query of a binding -/

theorem resolvePoolForCall : AskedCall rt (Execute.resolvePoolForCall lib rt) := by
  unfold Execute.resolvePoolForCall
  split
  · refine Prog.Always.bind (Prog.Always.bind (ask trivial) fun _ => ofBackend _) fun _ => ?_
    exact Prog.Always.bind (ask trivial) fun _ => ofSql _
  · trivial

theorem activeSessionVars : AskedCall rt (Execute.activeSessionVars lib rt) := by
  unfold Execute.activeSessionVars
  split
  · exact Prog.Always.bind (Prog.Always.bind (ask trivial) fun _ => ofBackend _) fun _ => trivial
  · trivial

theorem submitRetrying (pool : PoolHandle) {how : Submit} (bound : List BoundParam)
    (session : SessionVars) (h : how = .executeMultiResult → rt.rowMode = .resultSets) :
    AskedCall rt (Execute.submitRetrying lib rt pool how bound session) := by
  refine Prog.Always.bind (submitWithin _ _ _ _ h) fun reply => ?_
  cases reply with
  | ok reply => trivial
  | error e =>
    dsimp only
    split
    · refine Prog.Always.bind (submitWithin _ _ _ _ h) fun reply => ?_
      cases reply with
      | ok reply => trivial
      | error e => exact failWith _
    · exact failWith _

theorem runResultSets (hmode : rt.rowMode = .resultSets) (args : Value) (pool : PoolHandle)
    (bound : List BoundParam) (session : SessionVars) :
    AskedCall rt (Execute.runResultSets lib rt args pool bound session) := by
  refine Prog.Always.bind (submitWithin _ _ _ _ fun _ => hmode) fun reply => ?_
  cases reply with
  | error e => exact failWith _
  | ok sets =>
    exact Prog.Always.bind (serialize _ _) fun _ =>
      Prog.Always.bind (tryEmitCharge _ _ _) fun _ => trivial

theorem runBatch (pool : PoolHandle) (bound : List BoundParam) (session : SessionVars) :
    AskedCall rt (Execute.runBatch lib rt pool bound session) := by
  refine ite (fun _ => ?_) (submitRetrying _ _ _ (by intro h; cases h))
  exact Prog.Always.bind (submitRetrying _ _ _ (by intro h; cases h)) fun _ => trivial

/-- A response is stored under a key that the lookup gave. -/
theorem finishBatch (args : Value) (batch : RowBatch) {key : Option String}
    (hkey : key.isSome → (rt.cache.filter (·.enabled)).isSome) :
    AskedCall rt (Execute.finishBatch lib rt args batch key) := by
  refine Prog.Always.bind (ofBackend _) fun shaped => ?_
  refine Prog.Always.bind (serialize _ _) fun bytes => ?_
  refine Prog.Always.bind (tryEmitCharge _ _ _) fun _ => ?_
  split
  · exact Prog.Always.bind (ask (hkey rfl)) fun _ => trivial
  · trivial

theorem cacheLookup (hcache : (rt.cache.filter (·.enabled)).isSome) (bound : List BoundParam)
    (session : SessionVars) : AskedCall rt (Execute.cacheLookup lib rt bound session) := by
  unfold Execute.cacheLookup
  split
  · trivial
  · refine Prog.Always.bind ?_ fun version => Prog.Always.bind (ask hcache) fun found => ?_
    · exact ite (fun _ => ask hcache) trivial
    · split <;> trivial

theorem runQuery (pool : PoolHandle) (session : SessionVars) (request : BackendRequest) :
    AskedCall rt (Execute.runQuery lib rt pool session request) := by
  refine Prog.Always.bind (ofBackend _) fun args => Prog.Always.bind (ofSql _) fun bound => ?_
  have hrest : ∀ key : Option String, (key.isSome → (rt.cache.filter (·.enabled)).isSome) →
      AskedCall rt (if rt.rowMode = .resultSets then
          Execute.runResultSets lib rt args pool bound session
        else do
          let batch ← Execute.runBatch lib rt pool bound session
          Execute.finishBatch lib rt args batch key) := by
    intro key hkey
    split
    · rename_i hmode
      exact runResultSets hmode _ _ _ _
    · exact Prog.Always.bind (runBatch _ _ _) fun _ => finishBatch _ _ hkey
  cases hcache : rt.cache.filter (·.enabled) with
  | none =>
    have hlookup : Execute.cacheLookup lib rt bound session = pure (.inr none) := by
      unfold Execute.cacheLookup
      rw [hcache]
    rw [hlookup]
    exact hrest none fun h => by cases h
  | some cache =>
    have hsome : (rt.cache.filter (·.enabled)).isSome := by
      rw [hcache]
      rfl
    refine Prog.Always.bind (cacheLookup hsome _ _) fun looked => ?_
    cases looked with
    | inl response => trivial
    | inr key => exact hrest key fun _ => hsome

/-! ### Calls of an `await` block -/

theorem submitAwait (stmt : PreparedStmt) (args : Value) :
    AskedCall rt (Execute.submitAwait lib rt stmt args) := by
  refine Prog.Always.bind (ofSql _) fun bound => ?_
  refine Prog.Always.bind (submitWithin _ _ _ _ (by intro h; cases h)) fun reply => ?_
  cases reply with
  | error e => exact failWith _
  | ok batch => trivial

theorem pollLoop (checkStmt : PreparedStmt) (args : Value) (deadline polls more : Nat) :
    AskedCall rt (Execute.pollLoop lib rt checkStmt args deadline polls more) := by
  induction more generalizing polls with
  | zero => trivial
  | succ more ih =>
    refine Prog.Always.bind (submitAwait _ _) fun batch => ?_
    dsimp only
    split
    · exact Prog.Always.bind (serialize _ _) fun _ =>
        Prog.Always.bind (tryEmitCharge _ _ _) fun _ => trivial
    · refine Prog.Always.bind (ask trivial) fun now => ?_
      split
      · exact refundAndFail _ _
      · refine Prog.Always.bind (ask trivial) fun drained => ?_
        split
        · exact refundAndFail _ _
        · exact ih _

theorem executeInnerImpl (polls : Nat) (request : BackendRequest) :
    AskedCall rt (Execute.executeInnerImpl lib rt polls request) := by
  unfold Execute.executeInnerImpl
  split
  · rename_i aw _
    refine Prog.Always.bind (ofBackend _) fun args => Prog.Always.bind ?_ fun _ => ?_
    · cases aw.triggerStmt with
      | none => trivial
      | some stmt => exact Prog.Always.bind (submitAwait _ _) fun _ => trivial
    · exact Prog.Always.bind (ask trivial) fun _ => pollLoop _ _ _ _ _
  · refine Prog.Always.bind resolvePoolForCall fun pool => ?_
    exact Prog.Always.bind activeSessionVars fun session => runQuery _ _ _

/-! ### Transactions, listings and completions -/

theorem runTxNestedStep (driver : DriverKind) (step : TxNestedStep) (stepInput : Value)
    (session : SessionVars) :
    AskedCall rt (Execute.runTxNestedStep driver step stepInput session : Call δ _) := by
  have hrows : ∀ shape args, AskedCall rt
      (Execute.runTxNestedStep.rows session shape (step.prepare driver) args : Call δ _) := by
    intro shape args
    refine Prog.Always.bind (ask (by intro h; cases h)) fun reply => ?_
    cases reply <;> trivial
  simp only [Execute.runTxNestedStep]
  split
  · trivial
  · split
    · refine Prog.Always.bind (ask (by intro h; cases h)) fun reply => ?_
      cases reply <;> trivial
    · exact hrows _ _
    · exact hrows _ _
    · exact hrows _ _
    · trivial

theorem txLoop (driver : DriverKind) (stepInput : Value) (session : SessionVars)
    (steps : List TxNestedStep) (results : List (String × Value)) :
    AskedCall rt (Execute.txLoop driver stepInput session steps results : Call δ _) := by
  induction steps generalizing results with
  | nil => trivial
  | cons step steps ih =>
    refine Prog.Always.bind (runTxNestedStep _ _ _ _) fun reply => ?_
    cases reply with
    | ok value => exact ih _
    | error msg => exact Prog.Always.bind (ask trivial) fun _ => trivial

/-- What a transaction asks any profile may ask; the same goes for listings and completions. -/
theorem executeTransaction {rt' : Runtime} (group : Except String TxGroup) :
    AskedCall rt' (Execute.executeTransaction lib rt group) := by
  cases group with
  | error e => trivial
  | ok group =>
    refine Prog.Always.bind (ask trivial) fun begun => Prog.Always.bind (ofSql _) fun _ => ?_
    refine Prog.Always.bind (txLoop _ _ _ _ _) fun results => ?_
    refine Prog.Always.bind (ask trivial) fun committed => ?_
    cases committed <;> trivial

theorem submitRegistered {rt' : Runtime} (stmt : PreparedStmt) (args : List BoundParam) :
    AskedCall rt' (Execute.submitRegistered lib rt stmt args) :=
  Prog.Always.bind (ask (by intro h; cases h)) fun _ => ofSql _

theorem listResources {rt' : Runtime} (cursor : Option String) :
    AskedCall rt' (Execute.listResources lib rt cursor) := by
  unfold Execute.listResources
  split
  · trivial
  · refine Prog.Always.bind (ofSql _) fun _ => ?_
    exact Prog.Always.bind (submitRegistered _ _) fun _ => trivial

theorem completeTemplateVariable {rt' : Runtime} (typed : String)
    (config : Except String SqlCompletionConfig) (context : OrdMap String String) :
    AskedCall rt' (Execute.completeTemplateVariable lib rt typed config context) := by
  unfold Execute.completeTemplateVariable
  cases config with
  | error e => trivial
  | ok cfg =>
    dsimp only
    split
    · trivial
    · refine Prog.Always.bind (ofBackend _) fun _ => ?_
      exact Prog.Always.bind (submitRegistered _ _) fun _ => trivial

theorem entry (entry : Entry) : AskedCall rt (entry.call lib rt) := by
  cases entry with
  | execute polls request => exact Prog.Always.bind (executeInnerImpl _ _) fun _ => trivial
  | executeTransaction group => exact Prog.Always.bind (executeTransaction _) fun _ => trivial
  | listResources cursor => exact Prog.Always.bind (listResources _) fun _ => trivial
  | completeTemplateVariable typed config context =>
    exact Prog.Always.bind (completeTemplateVariable _ _ _) fun _ => trivial

end AskedCall

/-! ## What a registered profile supports -/

/-- The driver has a way to run the statement with its session variables. -/
structure ProfileConfig.Supports (cfg : ProfileConfig) (s : Submission) : Prop where
  vars : ∀ k ∈ s.session.values.entries.map Prod.fst, settable cfg.driver k
  multiResult : s.how = .executeMultiResult →
    (cfg.driver = .mysql ∨ cfg.driver = .mariadb) ∧ ∃ procedure, cfg.query.body = .procedure procedure

/-- The responses of the query may be cached: it is read-shaped and no procedure. -/
structure ProfileConfig.Cacheable (cfg : ProfileConfig) : Prop where
  mode : cfg.query.rowMode ∈ [.single, .many, .scalar, .resourceContents]
  body : ∀ procedure, cfg.query.body ≠ .procedure procedure
  enabled : ∃ cache, cfg.cache = some cache ∧ cache.enabled

def Question.Suits (cfg : ProfileConfig) : Question δ → Prop
  | .submit s | .submitWithin _ s => cfg.Supports s
  | .cacheVersion | .cacheGet _ | .cachePut .. => cfg.Cacheable
  | .charge .. | .refund _ => cfg.cost.isSome
  | _ => True

theorem Question.Suits.of_submission {cfg : ProfileConfig} {q : Question δ} {s : Submission}
    (h : q.Suits cfg) (hs : q.submission? = some s) : cfg.Supports s := by
  cases q with
  | submit s' =>
    cases hs
    exact h
  | submitWithin ms s' =>
    cases hs
    exact h
  | _ => cases hs

section

variable {lib : RegisterLib δ} {cfg : ProfileConfig} {rt : Runtime} {entry : Entry}
  {env : Nat → (q : Question δ) → Answer q} {s : Submission}

theorem ProfileConfig.cacheable (h : cfg.Registered lib rt)
    (hcache : (rt.cache.filter (·.enabled)).isSome) : cfg.Cacheable := by
  rw [h.cache] at hcache
  obtain ⟨cache, hfilter⟩ := Option.isSome_iff_exists.mp hcache
  obtain ⟨hsome, henabled⟩ := Option.filter_eq_some_iff.mp hfilter
  obtain ⟨hmode, hbody⟩ := h.valid.cached cache hsome henabled
  refine ⟨?_, hbody, cache, hsome, henabled⟩
  cases hrow : cfg.query.rowMode with
  | single => simp
  | many => simp
  | scalar => simp
  | resourceContents => simp
  | affectedRows =>
    rw [hrow] at hmode
    cases hmode
  | stream =>
    rw [hrow] at hmode
    cases hmode
  | resultSets =>
    rw [hrow] at hmode
    cases hmode

/-- Credentials change no name of a variable. -/
theorem mem_resolvedSessionVars {syn : CredSyntax} {cred : CredConfig} {blake3 : List UInt8 → δ}
    {r : ResolvedCreds δ} (h : Resolves syn cred blake3 r) {k : String}
    (hk : k ∈ r.sessionVars.entries.map Prod.fst) : k ∈ cred.sessionVars.entries.map Prod.fst := by
  obtain ⟨var, hvar, rfl⟩ := List.mem_map.mp hk
  have hsome : (cred.sessionVars.get? var.1).isSome := by
    by_cases hkey : var.1 ∈ sessionVarsKeys syn cred
    · obtain ⟨own, hown, hname⟩ := List.mem_map.mp hkey
      rw [← hname, OrdMap.mem_entries.mp (List.mem_of_mem_filter hown)]
      rfl
    · rw [← h.vars.2 _ hkey, OrdMap.mem_entries.mp hvar]
      rfl
  obtain ⟨v, hv⟩ := Option.isSome_iff_exists.mp hsome
  exact List.mem_map.mpr ⟨_, OrdMap.mem_entries.mpr hv, rfl⟩

/-- The variables of a statement are those of the configuration by name. -/
theorem mem_session (hs : s ∈ entry.handed lib.toCallLib rt env) {k : String}
    (hk : k ∈ s.session.values.entries.map Prod.fst) :
    k ∈ rt.cfg.sessionVars.entries.map Prod.fst := by
  by_cases htx : entry.IsTransaction
  · rw [((fixed_transaction htx).handed hs).2.1] at hk
    cases hk
  · by_cases hplain : entry.Plain rt ∧ rt.hasCredRefs lib.toCallLib
    · obtain ⟨r₁, pool, r₂, rest, -, h₂, -, -, -, hsession, -⟩ := plain_handed hplain.1 hplain.2 hs
      rw [hsession] at hk
      exact mem_resolvedSessionVars ⟨_, h₂⟩ hk
    · rw [((fixed_call htx hplain).handed hs).2.1] at hk
      exact hk

theorem supports_of_handed (h : cfg.Registered lib rt) (hs : s ∈ entry.handed lib.toCallLib rt env)
    (hasked : s.how = .executeMultiResult → rt.rowMode = .resultSets) : cfg.Supports s := by
  refine ⟨fun k hk => ?_, fun hhow => ?_⟩
  · have hmem := mem_session hs hk
    rw [h.sessionVars] at hmem
    obtain ⟨var, hvar, rfl⟩ := List.mem_map.mp hmem
    exact (h.valid.sessionVars var hvar).2
  · exact h.valid.resultSets (h.rowMode.symm.trans (hasked hhow))

/-- No call of a registered profile asks for what its driver has no way to do, or for a
cached response of a statement that is no read. -/
theorem registered_suits {opening : Opening} {backendName : String}
    (h : cfg.register lib opening backendName = .ok rt) (entry : Entry)
    (env : Nat → (q : Question δ) → Answer q) :
    ∀ ev ∈ entry.events lib.toCallLib rt env, ev.1.Suits cfg := by
  have hreg := ProfileConfig.register_ok h
  intro ev hev
  have hcall : AskedCall rt (entry.call lib.toCallLib rt) := AskedCall.entry entry
  have hasked := hcall.mem_trace hev
  obtain ⟨q, answer⟩ := ev
  cases q with
  | submit s => exact supports_of_handed hreg (mem_handed.mpr ⟨_, hev, rfl⟩) hasked
  | submitWithin ms s => exact supports_of_handed hreg (mem_handed.mpr ⟨_, hev, rfl⟩) hasked
  | cacheVersion => exact ProfileConfig.cacheable hreg hasked
  | cacheGet key => exact ProfileConfig.cacheable hreg hasked
  | cachePut key bytes ttl => exact ProfileConfig.cacheable hreg hasked
  | charge amount rows bytes =>
    obtain ⟨c, -, hcost, -⟩ := hasked
    exact hreg.isSome_cost (Option.isSome_of_eq_some hcost)
  | refund reason => exact hreg.isSome_cost hasked
  | _ => trivial

end

/-- A URL of a scheme, an authority that may have a user and a password, and a path. -/
def splitUrl : ParseUrl := fun url =>
  let scheme := url.toList.takeWhile (· ≠ ':')
  let authority := (url.toList.drop (scheme.length + 3)).takeWhile (· ≠ '/')
  let user := authority.takeWhile (· ≠ '@')
  .ok { scheme := String.ofList scheme
        password := if '@' ∈ authority then some (String.ofList ((user.dropWhile (· ≠ ':')).drop 1))
          else none
        host := none }

def scanRegister : RegisterLib String where
  toCallLib := scanLib
  parseUrl := splitUrl
  prices := Cost.wholePrices reversingLib
  compileParam _ := .error "no expressions"
  compileCel _ := .ok fun _ _ => true
  keyFrom bytes := ⟨bytes⟩
  keyGenerated := ⟨[]⟩

/-- A report of the tenant of the caller, with all its result sets. -/
def reportConfig : ProfileConfig where
  driver := .mysql
  query := { body := .procedure "report", rowMode := .resultSets }
  url := "mysql://app:pw@db/orders"
  sessionVars := OrdMap.empty.insert "app_tenant" "$\x7bcred://idp/tenant\x7d"

theorem report_supported :
    ∃ rt s, reportConfig.register scanRegister { files := fun _ => .error "" } "report" = .ok rt ∧
      s ∈ (Entry.execute 0 { payload := none }).handed scanLib rt (resolving fun _ _ => "acme") ∧
      s.how = .executeMultiResult ∧ reportConfig.Supports s := by
  have hs : ∀ rt, reportConfig.register scanRegister { files := fun _ => .error "" } "report" = .ok rt →
      ⟨.pool (.opened 1), .executeMultiResult, ⟨"CALL report()", [], .mysql⟩, [],
        ⟨OrdMap.empty.insert "app_tenant" "acme"⟩⟩ ∈
      (Entry.execute 0 { payload := none }).handed scanLib rt (resolving fun _ _ => "acme") := by
    intro rt hrt
    cases hrt
    decide
  obtain ⟨rt, hrt⟩ : ∃ rt,
      reportConfig.register scanRegister { files := fun _ => .error "" } "report" = .ok rt := ⟨_, rfl⟩
  refine ⟨rt, _, hrt, hs rt hrt, rfl, ?_⟩
  obtain ⟨ev, hev, hsub⟩ := mem_handed.mp (hs rt hrt)
  exact (registered_suits hrt _ _ ev hev).of_submission hsub

/-! ## Credential surfaces -/

/-- Whether a question is for a pool of the registry. -/
def Question.IsGetOrBuild : Question δ → Prop
  | .getOrBuild .. => True
  | _ => False

/-- What the connection of a statement to this target was opened with. -/
inductive OpenedWith (cfg : ProfileConfig) (events : List (Sigma (Answer (δ := δ)))) :
    Target → ConnectCfg → Prop
  | registered (target : Target) (h : ∀ ev ∈ events, ¬ev.1.IsGetOrBuild) :
    OpenedWith cfg events target cfg.buildPool
  | perCaller (digest : δ) (keys : List (String × String)) (url : String) (pool : PoolHandle)
      (h : ⟨.getOrBuild digest keys url, (.ok pool : Except SqlError PoolHandle)⟩ ∈ events) :
    OpenedWith cfg events (.pool pool) (cfg.buildPoolWithUrl url)

section

variable {lib : RegisterLib δ} {cfg : ProfileConfig} {rt : Runtime} {entry : Entry}
  {env : Nat → (q : Question δ) → Answer q} {s : Submission}

/-- A text without tokens stays as it is. -/
def LeavesPlain (syn : CredSyntax) : Prop :=
  ∀ s creds, syn.credTokens s = [] → syn.substituteCredTokens s creds = s

theorem not_isGetOrBuild_of_fixed {target : Target} {session : SessionVars}
    {stmts : List PreparedStmt} {q : Question δ} (h : q.Fixed target session stmts) :
    ¬q.IsGetOrBuild := by
  cases q with
  | getOrBuild digest keys url => exact h.elim
  | _ => exact id

/-- A call that asks for no pool is on the registered one. -/
theorem openedWith_registered {events : List (Sigma (Answer (δ := δ)))} {target : Target}
    (h : ∀ ev ∈ events, ¬ev.1.IsGetOrBuild) (c : ConnectCfg) :
    OpenedWith cfg events target c ↔ c = cfg.buildPool := by
  constructor
  · intro hopened
    cases hopened with
    | registered => rfl
    | perCaller digest keys url pool hmem => exact (h _ hmem trivial).elim
  · rintro rfl
    exact .registered _ h

/-- A plain call with credentials is on the pool of its URL. -/
theorem openedWith_perCaller (cfg : ProfileConfig) (hplain : entry.Plain rt) (hcred : rt.hasCredRefs lib.toCallLib)
    (hs : s ∈ entry.handed lib.toCallLib rt env) :
    ∃ r, Resolves lib.syn rt.cfg lib.blake3 r ∧ ∀ c,
      OpenedWith cfg (entry.events lib.toCallLib rt env) s.target c ↔ c = cfg.buildPoolWithUrl r.url := by
  obtain ⟨r₁, pool, r₂, rest, h₁, -, hevents, hrest, htarget, -⟩ := plain_handed hplain hcred hs
  refine ⟨r₁, ⟨_, h₁⟩, fun c => ?_⟩
  rw [hevents, htarget]
  constructor
  · intro hopened
    generalize htgt : Target.pool pool = target at hopened
    cases hopened with
    | registered _ h => exact (h _ (List.mem_cons_of_mem _ List.mem_cons_self) trivial).elim
    | perCaller digest keys url pool' hmem =>
      simp only [List.mem_cons] at hmem
      rcases hmem with heq | heq | heq | hmem
      · cases congrArg Sigma.fst heq
      · have hq := Question.getOrBuild.inj (congrArg Sigma.fst heq)
        rw [hq.2.2]
      · cases congrArg Sigma.fst heq
      · exact (not_isGetOrBuild_of_fixed (hrest _ hmem) trivial).elim
  · rintro rfl
    exact .perCaller r₁.digest r₁.credKeys r₁.url pool (by simp [poolQuestion])

/-- A statement of a profile with an `auth` block goes to a connection that was opened by the
bare URL, which has no password: with the provider, except where the call is a plain `execute`
and a session variable has a credential token; then with nothing. -/
theorem opened_with (hsyn : LeavesPlain lib.syn) {opening : Opening} {backendName : String}
    (h : cfg.register lib opening backendName = .ok rt) {auth : AuthConfig}
    (hauth : cfg.auth = some auth) (hs : s ∈ entry.handed lib.toCallLib rt env) :
    (∃ parsed, lib.parseUrl cfg.url = .ok parsed ∧ parsed.password.getD "" = "") ∧
      ∃ provider, (∀ c, OpenedWith cfg (entry.events lib.toCallLib rt env) s.target c ↔
          c = { ConnectCfg.fromConfig cfg with authProvider := provider }) ∧
        (provider = none ∨ provider = some auth) ∧
        (provider = none ↔ entry.Plain rt ∧ sessionVarsKeys lib.syn rt.cfg ≠ []) := by
  have hreg := ProfileConfig.register_ok h
  obtain ⟨htokens, hparsed⟩ := hreg.valid.surface auth hauth
  refine ⟨hparsed, ?_⟩
  have hcred : rt.hasCredRefs lib.toCallLib ↔ sessionVarsKeys lib.syn rt.cfg ≠ [] := by
    constructor
    · intro hrefs hkeys
      have hnone := credTokens_eq_nil hkeys
      rw [Runtime.hasCredRefs, configHasCredRefs, Bool.or_eq_true, List.any_eq_true, hreg.url,
        htokens] at hrefs
      rcases hrefs with hrefs | ⟨var, hvar, hrefs⟩
      · cases hrefs
      · rw [hnone var hvar] at hrefs
        cases hrefs
    · exact hasCredRefs_of_keys
  by_cases hplain : entry.Plain rt ∧ sessionVarsKeys lib.syn rt.cfg ≠ []
  · obtain ⟨r, hr, hopened⟩ := openedWith_perCaller cfg hplain.1 (hcred.mpr hplain.2) hs
    obtain ⟨creds, hurl, -⟩ := hr.exists_creds
    rw [hreg.url, hsyn _ _ htokens] at hurl
    refine ⟨none, fun c => ?_, .inl rfl, iff_of_true rfl hplain⟩
    rw [hopened, hurl]
    rfl
  · refine ⟨some auth, fun c => ?_, .inr rfl, iff_of_false (by intro h; cases h) hplain⟩
    have hbuilt : cfg.buildPool =
        { ConnectCfg.fromConfig cfg with authProvider := some auth } := by
      rw [ProfileConfig.buildPool, hauth]
    rw [openedWith_registered, hbuilt]
    intro ev hev
    by_cases htx : entry.IsTransaction
    · exact not_isGetOrBuild_of_fixed ((fixed_transaction htx).mem_trace hev)
    · refine not_isGetOrBuild_of_fixed ((fixed_call htx fun hboth => hplain ?_).mem_trace hev)
      exact ⟨hboth.1, hcred.mp hboth.2⟩

end

/-! ### Tokens that are scanned -/

/-- What is before a text: nothing, or a token that has begun. -/
def begun : Option (List Char) → List Char
  | none => []
  | some token => '$' :: token.reverse

theorem fill_scan {f : String → String} {token : Option (List Char)} {cs : List Char}
    (h : tokens (scan token cs) = []) : (fill f (scan token cs)).toList = begun token ++ cs := by
  induction cs generalizing token with
  | nil =>
    cases token with
    | none => rfl
    | some token => simp [scan, fill, begun]
  | cons c cs ih =>
    cases token with
    | none =>
      unfold scan at h ⊢
      by_cases hc : "$\x7bcred://".toList.isPrefixOf (c :: cs) = true
      · rw [if_pos hc] at h ⊢
        have hdollar : c = '$' := by
          obtain ⟨rest, hrest⟩ := List.isPrefixOf_iff_prefix.mp hc
          exact ((List.cons.inj hrest).1).symm
        rw [ih h, hdollar]
        rfl
      · rw [if_neg hc] at h ⊢
        rw [fill, String.toList_append, ih h]
        simp [begun]
    | some token =>
      unfold scan at h ⊢
      by_cases hc : c = '\x7d'
      · rw [if_pos hc] at h
        cases h
      · rw [if_neg hc] at h ⊢
        rw [ih h]
        simp [begun]

theorem scanSyntax_leavesPlain : LeavesPlain scanSyntax := by
  intro s creds h
  apply String.toList_injective
  exact (fill_scan h).trans rfl

/-- Orders of the tenant of the caller, on a database with cloud authentication. -/
def cloudConfig : ProfileConfig where
  driver := .postgres
  query := { body := .sql "SELECT * FROM orders", rowMode := .many }
  url := "postgres://app@db/orders"
  auth := some (.rdsIam "eu-west-1" "app")
  sessionVars := OrdMap.empty.insert "app.tenant" "$\x7bcred://idp/tenant\x7d"

/-- The plain `execute` of the orders goes to a connection without the provider. -/
theorem cloud_opened :
    ∃ rt s, cloudConfig.register scanRegister { files := fun _ => .error "" } "orders" = .ok rt ∧
      s ∈ (Entry.execute 0 { payload := none }).handed scanLib rt (resolving fun _ _ => "acme") ∧
      ∀ c, OpenedWith cloudConfig ((Entry.execute 0 { payload := none }).events scanLib rt
        (resolving fun _ _ => "acme")) s.target c → c.authProvider = none := by
  obtain ⟨rt, hrt⟩ : ∃ rt,
      cloudConfig.register scanRegister { files := fun _ => .error "" } "orders" = .ok rt := ⟨_, rfl⟩
  have hs : ∀ rt, cloudConfig.register scanRegister { files := fun _ => .error "" } "orders" = .ok rt →
      ⟨.pool (.opened 1), .execute, ⟨"SELECT * FROM orders", [], .postgres⟩, [], tenantVars "acme"⟩ ∈
        (Entry.execute 0 { payload := none }).handed scanLib rt (resolving fun _ _ => "acme") := by
    intro rt hrt
    cases hrt
    decide
  have hkeys : ∀ rt, cloudConfig.register scanRegister { files := fun _ => .error "" } "orders" = .ok rt →
      (Entry.execute 0 { payload := none }).Plain rt ∧ sessionVarsKeys scanSyntax rt.cfg ≠ [] := by
    intro rt hrt
    cases hrt
    exact ⟨rfl, by decide⟩
  refine ⟨rt, _, hrt, hs rt hrt, fun c hc => ?_⟩
  obtain ⟨-, provider, hopened, -, hnone⟩ :=
    opened_with scanSyntax_leavesPlain hrt rfl (hs rt hrt)
  rw [(hopened c).mp hc]
  exact hnone.mpr (hkeys rt hrt)

end McpgSql.Execute
