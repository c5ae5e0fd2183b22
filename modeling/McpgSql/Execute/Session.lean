import McpgSql.Execute.Entries

/-!
# Session variables and pools of a call

What the statements of a call are handed over with, over every host, driver and
clock. `execute` on a plain binding resolves the credentials for its pool and then
once more for its session variables; an `await` block, listings and completions use
the registered pool and the variables as they stand in the configuration, and
transactions have none.

* `session_applied_iff`: a statement carries the resolved variables of its binding
  exactly where `execute` handed it over on a plain binding, or where no variable has
  a token and it is not of a transaction.
* `one_bundle_iff`: its pool and its variables are of one answer of the host exactly
  where `execute` handed it over on a plain binding and the second answer gives the
  variables, or the URL and the digest, of the first.
-/

namespace McpgSql.Execute

open Library Template McpgSql.Pool McpgSql.Cache McpgSql.Listing McpgSql.Stream

variable {δ α : Type}

/-! ## What a call asks -/

/-- The question hands over nothing but these statements, to this target and with these
session variables, and asks neither for credentials nor for a pool. -/
def Question.Fixed (target : Target) (session : SessionVars) (stmts : List PreparedStmt) :
    Question δ → Prop
  | .resolveCredentials _ | .getOrBuild .. => False
  | .submit s | .submitWithin _ s => s.target = target ∧ s.session = session ∧ s.stmt ∈ stmts
  | _ => True

theorem Question.Fixed.of_submission {target : Target} {session : SessionVars}
    {stmts : List PreparedStmt} {q : Question δ} {s : Submission}
    (h : q.Fixed target session stmts) (hs : q.submission? = some s) :
    s.target = target ∧ s.session = session ∧ s.stmt ∈ stmts := by
  cases q with
  | submit s' => cases hs; exact h
  | submitWithin ms s' => cases hs; exact h
  | _ => cases hs

/-- All that a call asks is `Fixed`. -/
def FixedCall (target : Target) (session : SessionVars) (stmts : List PreparedStmt)
    (p : Call δ α) : Prop :=
  Prog.Always (Question.Fixed target session stmts) p

namespace FixedCall

variable {lib : CallLib δ} {rt : Runtime} {target : Target} {session : SessionVars}
  {stmts : List PreparedStmt}

theorem pure (a : α) : FixedCall target session stmts (Pure.pure a : Call δ α) := trivial

theorem fail (e : Stop) : FixedCall target session stmts (Prog.fail e : Call δ α) := trivial

theorem bind {β : Type} {p : Call δ α} {f : α → Call δ β} (hp : FixedCall target session stmts p)
    (hf : ∀ a, FixedCall target session stmts (f a)) : FixedCall target session stmts (p >>= f) :=
  Prog.Always.bind hp hf

theorem ite {c : Prop} [Decidable c] {p p' : Call δ α} (hp : FixedCall target session stmts p)
    (hp' : FixedCall target session stmts p') :
    FixedCall target session stmts (if c then p else p') := by
  split
  · exact hp
  · exact hp'

theorem ask {q : Question δ} (h : q.Fixed target session stmts) :
    FixedCall target session stmts (Execute.ask q) :=
  Prog.always_query h

theorem ofBackend (x : Except BackendError α) :
    FixedCall target session stmts (Execute.ofBackend x : Call δ α) :=
  Prog.always_ofExcept _

theorem ofSql (x : Except SqlError α) : FixedCall target session stmts (Execute.ofSql lib x) :=
  ofBackend _

theorem refundAndFail (reason : String) (e : BackendError) :
    FixedCall target session stmts (Execute.refundAndFail rt reason e : Call δ α) := by
  refine bind ?_ fun _ => fail _
  exact ite (ask trivial) (pure ())

theorem failWith (e : SqlError) :
    FixedCall target session stmts (Execute.failWith lib rt e : Call δ α) :=
  refundAndFail _ _

theorem tryEmitCharge (args : Value) (rows bytes : Nat) :
    FixedCall target session stmts (Execute.tryEmitCharge lib rt args rows bytes) := by
  rw [Execute.tryEmitCharge]
  split
  · exact pure ()
  · exact bind (ofSql _) fun _ => ask trivial

theorem serialize (payload : Value) (message : String) :
    FixedCall target session stmts (Execute.serialize lib rt payload message) := by
  rw [Execute.serialize]
  split
  · exact pure _
  · exact refundAndFail _ _

theorem submitWithin (pool : PoolHandle) (how : Submit) {stmt : PreparedStmt} (hstmt : stmt ∈ stmts)
    (args : List BoundParam) :
    FixedCall (.pool pool) session stmts
      (Execute.submitWithin rt pool how stmt args session : Call δ _) := by
  refine bind (ask ⟨rfl, rfl, hstmt⟩) fun reply => ?_
  cases reply with
  | none => exact refundAndFail _ _
  | some reply => exact pure reply

theorem cacheLookup (bound : List BoundParam) (vars : SessionVars) :
    FixedCall target session stmts (Execute.cacheLookup lib rt bound vars) := by
  rw [Execute.cacheLookup]
  split
  · exact pure _
  · refine bind (ite (ask trivial) (pure _)) fun version => bind (ask trivial) fun found => ?_
    split
    · exact pure _
    · exact pure _
    · exact pure _
    · exact pure _

/-! ### The query of a binding -/

section

variable (hstmt : rt.stmt ∈ stmts)
include hstmt

theorem submitRetrying (pool : PoolHandle) (how : Submit) (bound : List BoundParam) :
    FixedCall (.pool pool) session stmts (Execute.submitRetrying lib rt pool how bound session) := by
  refine bind (submitWithin _ _ hstmt _) fun reply => ?_
  split
  · exact pure _
  · split
    · refine bind (submitWithin _ _ hstmt _) fun reply => ?_
      split
      · exact pure _
      · exact failWith _
    · exact failWith _

theorem runResultSets (args : Value) (pool : PoolHandle) (bound : List BoundParam) :
    FixedCall (.pool pool) session stmts
      (Execute.runResultSets lib rt args pool bound session) := by
  refine bind (submitWithin _ _ hstmt _) fun reply => ?_
  cases reply with
  | error e => exact failWith e
  | ok sets => exact bind (serialize _ _) fun _ => bind (tryEmitCharge _ _ _) fun _ => pure _

theorem runBatch (pool : PoolHandle) (bound : List BoundParam) :
    FixedCall (.pool pool) session stmts (Execute.runBatch lib rt pool bound session) :=
  ite (bind (submitRetrying hstmt _ _ _) fun _ => pure _) (submitRetrying hstmt _ _ _)

omit hstmt in
theorem finishBatch (args : Value) (batch : RowBatch) (key : Option String) :
    FixedCall target session stmts (Execute.finishBatch lib rt args batch key) := by
  refine bind (ofBackend _) fun shaped => ?_
  refine bind (serialize _ _) fun bytes => bind (tryEmitCharge _ _ _) fun _ => ?_
  split
  · exact bind (ask trivial) fun _ => pure _
  · exact pure _

theorem runQuery (pool : PoolHandle) (request : BackendRequest) :
    FixedCall (.pool pool) session stmts (Execute.runQuery lib rt pool session request) := by
  refine bind (ofBackend _) fun args => bind (ofSql _) fun bound => ?_
  refine bind (cacheLookup _ _) fun looked => ?_
  cases looked with
  | inl response => exact pure response
  | inr key =>
    simp only
    split
    · exact runResultSets hstmt _ _ _
    · exact bind (runBatch hstmt _ _) fun _ => finishBatch _ _ _

end

/-! ### Calls on the registered pool -/

theorem submitAwait {stmt : PreparedStmt} (hstmt : stmt ∈ stmts) (args : Value) :
    FixedCall (.pool .registered) rt.sessionVars stmts (Execute.submitAwait lib rt stmt args) := by
  refine bind (ofSql _) fun bound => bind (submitWithin _ _ hstmt _) fun reply => ?_
  cases reply with
  | error e => exact failWith e
  | ok batch => exact pure batch

theorem pollLoop {checkStmt : PreparedStmt} (hstmt : checkStmt ∈ stmts) (args : Value)
    (deadline polls more : Nat) :
    FixedCall (.pool .registered) rt.sessionVars stmts
      (Execute.pollLoop lib rt checkStmt args deadline polls more) := by
  induction more generalizing polls with
  | zero => exact fail _
  | succ more ih =>
    refine bind (submitAwait hstmt _) fun batch => ?_
    simp only
    split
    · exact bind (serialize _ _) fun _ => bind (tryEmitCharge _ _ _) fun _ => pure _
    · refine bind (ask trivial) fun now => ?_
      split
      · exact refundAndFail _ _
      · refine bind (ask trivial) fun drained => ?_
        split
        · exact refundAndFail _ _
        · exact ih _

theorem executeAwaitLoop (aw : AwaitRuntime) (polls : Nat) (request : BackendRequest) :
    FixedCall (.pool .registered) rt.sessionVars (aw.triggerStmt.toList ++ [aw.checkStmt])
      (Execute.executeAwaitLoop lib rt aw polls request) := by
  refine bind (ofBackend _) fun args => bind ?_ fun _ => bind (ask trivial) fun _ => ?_
  · cases aw.triggerStmt with
    | none => exact pure ()
    | some stmt => exact bind (submitAwait (by simp) _) fun _ => pure ()
  · exact pollLoop (by simp) _ _ _ _

theorem submitRegistered {stmt : PreparedStmt} (hstmt : stmt ∈ stmts) (args : List BoundParam) :
    FixedCall (.pool .registered) rt.sessionVars stmts
      (Execute.submitRegistered lib rt stmt args) :=
  bind (ask ⟨rfl, rfl, hstmt⟩) fun _ => ofSql _

theorem listResources (cursor : Option String) :
    FixedCall (.pool .registered) rt.sessionVars (rt.list.toList.map Prod.fst)
      (Execute.listResources lib rt cursor) := by
  rw [Execute.listResources]
  split
  · exact pure _
  · rename_i stmt cfg hlist
    exact bind (ofSql _) fun _ => bind (submitRegistered (by simp [hlist]) _) fun _ => pure _

theorem completeTemplateVariable (typed : String) (config : Except String SqlCompletionConfig)
    (context : OrdMap String String) :
    FixedCall (.pool .registered) rt.sessionVars
      (config.toOption.toList.map (·.prepare rt.driverKind))
      (Execute.completeTemplateVariable lib rt typed config context) := by
  cases config with
  | error e => exact fail _
  | ok cfg =>
    refine ite (fail _) ?_
    exact bind (ofBackend _) fun _ =>
      bind (submitRegistered (by simp [Except.toOption]) _) fun _ => pure _

/-! ### Transactions -/

theorem runTxNestedStep {driver : DriverKind} {step : TxNestedStep}
    (hstmt : step.prepare driver ∈ stmts) (stepInput : Value) :
    FixedCall .transaction session stmts
      (Execute.runTxNestedStep driver step stepInput session : Call δ _) := by
  have hrows : ∀ shape args, FixedCall .transaction session stmts
      (Execute.runTxNestedStep.rows session shape (step.prepare driver) args : Call δ _) := by
    intro shape args
    refine bind (ask ⟨rfl, rfl, hstmt⟩) fun reply => ?_
    cases reply with
    | error e => exact pure _
    | ok batch => exact pure _
  simp only [Execute.runTxNestedStep]
  split
  · exact pure _
  · split
    · refine bind (ask ⟨rfl, rfl, hstmt⟩) fun reply => ?_
      cases reply with
      | error e => exact pure _
      | ok n => exact pure _
    · exact hrows _ _
    · exact hrows _ _
    · exact hrows _ _
    · exact pure _

theorem txLoop (driver : DriverKind) (stepInput : Value) {steps : List TxNestedStep}
    (hsteps : ∀ step ∈ steps, step.prepare driver ∈ stmts) (results : List (String × Value)) :
    FixedCall .transaction session stmts
      (Execute.txLoop driver stepInput session steps results : Call δ _) := by
  induction steps generalizing results with
  | nil => exact pure _
  | cons step steps ih =>
    obtain ⟨hstep, hsteps⟩ := List.forall_mem_cons.mp hsteps
    refine bind (runTxNestedStep hstep _) fun reply => ?_
    cases reply with
    | ok value => exact ih hsteps _
    | error msg => exact bind (ask trivial) fun _ => fail _

theorem executeTransaction (group : Except String TxGroup) :
    FixedCall .transaction ⟨.empty⟩
      ((group.toOption.toList.flatMap TxGroup.steps).map (·.prepare (txDriver rt.driverKind)))
      (Execute.executeTransaction lib rt group) := by
  cases group with
  | error e => exact fail _
  | ok group =>
    refine bind (ask trivial) fun begun => bind (ofSql _) fun _ => ?_
    have hsteps : ∀ step ∈ group.steps, step.prepare (txDriver rt.driverKind) ∈
        (((Except.ok group : Except String TxGroup).toOption.toList.flatMap TxGroup.steps).map
          (·.prepare (txDriver rt.driverKind))) := fun step hstep =>
      List.mem_map_of_mem (by simpa [Except.toOption] using hstep)
    refine bind (txLoop _ _ hsteps _) fun results => bind (ask trivial) fun committed => ?_
    cases committed with
    | error e => exact fail _
    | ok _ => exact pure _

end FixedCall

/-! ## Runs -/

section

variable (lib : CallLib δ) (rt : Runtime) (env : Nat → (q : Question δ) → Answer q)

/-- The question for the credentials of the binding. -/
def credQuestion : Question δ := .resolveCredentials (credSnapshot lib.syn rt.cfg)

/-- The credentials by the host's answer to question `n`. -/
def bundle (n : Nat) : Except BackendError (ResolvedCreds δ) :=
  resolveCredsFor lib.syn rt.cfg lib.blake3 fun _ => env n (credQuestion lib rt)

/-- The question for the pool of these credentials. -/
def poolQuestion (r : ResolvedCreds δ) : Question δ := .getOrBuild r.digest r.credKeys r.url

/-- What a call asks, and is answered. -/
def Entry.events (entry : Entry) : List (Sigma (Answer (δ := δ))) :=
  Prog.trace env 0 (entry.call lib rt)

end

variable {lib : CallLib δ} {rt : Runtime} {env : Nat → (q : Question δ) → Answer q} {entry : Entry}
  {s : Submission}

theorem mem_handed : s ∈ entry.handed lib rt env ↔
    ∃ ev ∈ entry.events lib rt env, ev.1.submission? = some s :=
  List.mem_filterMap

/-- A plain call with credentials: they are resolved for the pool, and once more for the
session variables. -/
theorem trace_executeInnerImpl (hawait : rt.awaitRt = none) (hcred : rt.hasCredRefs lib)
    (polls : Nat) (request : BackendRequest) :
    Prog.trace env 0 (executeInnerImpl lib rt polls request) =
      ⟨credQuestion lib rt, env 0 _⟩ :: match bundle lib rt env 0 with
        | .error _ => []
        | .ok r₁ => ⟨poolQuestion r₁, env 1 _⟩ ::
          match (env 1 (poolQuestion r₁) : Except SqlError PoolHandle) with
          | .error _ => []
          | .ok pool => ⟨credQuestion lib rt, env 2 _⟩ :: match bundle lib rt env 2 with
            | .error _ => []
            | .ok r₂ => Prog.trace env 3 (runQuery lib rt pool ⟨r₂.sessionVars⟩ request) := by
  simp only [executeInnerImpl, hawait, resolvePoolForCall, activeSessionVars, hcred, ↓reduceIte,
    resolveCreds, Prog.bind_assoc]
  refine congrArg (List.cons _) ?_
  show Prog.trace env 1 (ofBackend (bundle lib rt env 0) >>= _) = _
  cases bundle lib rt env 0 with
  | error e => rfl
  | ok r₁ =>
    refine congrArg (List.cons _) ?_
    show Prog.trace env 2 (ofSql lib (env 1 (poolQuestion r₁)) >>= _) = _
    cases (env 1 (poolQuestion r₁) : Except SqlError PoolHandle) with
    | error e => rfl
    | ok pool =>
      refine congrArg (List.cons _) ?_
      show Prog.trace env 3 (ofBackend (bundle lib rt env 2) >>= _) = _
      cases bundle lib rt env 2 with
      | error e => rfl
      | ok r₂ => rfl

/-- `execute` on a binding with no `await` block. -/
def Entry.Plain (rt : Runtime) : Entry → Prop
  | .execute .. => rt.awaitRt = none
  | _ => False

def Entry.IsTransaction : Entry → Prop
  | .executeTransaction _ => True
  | _ => False

/-- A statement of a plain call with credentials: its pool is of the first answer of the
host, its session variables are of the second one. -/
theorem plain_handed (hplain : entry.Plain rt) (hcred : rt.hasCredRefs lib)
    (hs : s ∈ entry.handed lib rt env) :
    ∃ r₁ pool r₂ rest, bundle lib rt env 0 = .ok r₁ ∧ bundle lib rt env 2 = .ok r₂ ∧
      entry.events lib rt env = ⟨credQuestion lib rt, env 0 _⟩ ::
        ⟨poolQuestion r₁, (.ok pool : Except SqlError PoolHandle)⟩ ::
        ⟨credQuestion lib rt, env 2 _⟩ :: rest ∧
      (∀ ev ∈ rest, ev.1.Fixed (.pool pool) ⟨r₂.sessionVars⟩ [rt.stmt]) ∧
      s.target = .pool pool ∧ s.session = ⟨r₂.sessionVars⟩ ∧ s.stmt ∈ [rt.stmt] := by
  obtain ⟨ev, hev, hsub⟩ := mem_handed.mp hs
  cases entry with
  | executeTransaction group => exact hplain.elim
  | listResources cursor => exact hplain.elim
  | completeTemplateVariable typed config context => exact hplain.elim
  | execute polls request =>
    have hevents : (Entry.execute polls request).events lib rt env =
        Prog.trace env 0 (executeInnerImpl lib rt polls request) :=
      Prog.trace_bind_pure _ _
    rw [hevents, trace_executeInnerImpl hplain hcred] at hev
    rw [hevents, trace_executeInnerImpl hplain hcred]
    -- The first three questions hand over no statement.
    have hask : ∀ n, ev ≠ ⟨credQuestion lib rt, env n _⟩ := by
      rintro n rfl
      cases hsub
    have hev := (List.mem_cons.mp hev).resolve_left (hask 0)
    cases h₁ : bundle lib rt env 0 with
    | error e => simp only [h₁] at hev; cases hev
    | ok r₁ =>
      simp only [h₁] at hev ⊢
      have hev := (List.mem_cons.mp hev).resolve_left fun h => by rw [h] at hsub; cases hsub
      cases hpool : (env 1 (poolQuestion r₁) : Except SqlError PoolHandle) with
      | error e => simp only [hpool] at hev; cases hev
      | ok pool =>
        simp only [hpool] at hev ⊢
        have hev := (List.mem_cons.mp hev).resolve_left (hask 2)
        cases h₂ : bundle lib rt env 2 with
        | error e => simp only [h₂] at hev; cases hev
        | ok r₂ =>
          simp only [h₂] at hev ⊢
          have hrest : ∀ ev ∈ Prog.trace env 3 (runQuery lib rt pool ⟨r₂.sessionVars⟩ request),
              ev.1.Fixed (.pool pool) ⟨r₂.sessionVars⟩ [rt.stmt] :=
            fun ev hev => (FixedCall.runQuery List.mem_cons_self pool request).mem_trace hev
          exact ⟨r₁, pool, r₂, _, rfl, rfl, rfl, hrest, (hrest ev hev).of_submission hsub⟩

/-- The other calls use the registered pool and the variables of the configuration. -/
theorem fixed_call (htx : ¬entry.IsTransaction) (h : ¬(entry.Plain rt ∧ rt.hasCredRefs lib)) :
    FixedCall (.pool .registered) rt.sessionVars (entry.statements rt) (entry.call lib rt) := by
  cases entry with
  | executeTransaction group => exact (htx trivial).elim
  | listResources cursor => exact (FixedCall.listResources cursor).bind fun _ => .pure _
  | completeTemplateVariable typed config context =>
    exact (FixedCall.completeTemplateVariable typed config context).bind fun _ => .pure _
  | execute polls request =>
    refine FixedCall.bind ?_ fun _ => .pure _
    rw [executeInnerImpl, Entry.statements, ProfileRuntime.statements]
    cases hawait : rt.awaitRt with
    | some aw => exact FixedCall.executeAwaitLoop aw polls request
    | none =>
      have hcred : ¬rt.hasCredRefs lib := fun hcred => h ⟨hawait, hcred⟩
      simp only [resolvePoolForCall, activeSessionVars, if_neg hcred]
      exact FixedCall.runQuery List.mem_cons_self .registered request

theorem fixed_transaction (htx : entry.IsTransaction) :
    FixedCall .transaction ⟨.empty⟩ (entry.statements rt) (entry.call lib rt) := by
  cases entry with
  | executeTransaction group => exact (FixedCall.executeTransaction group).bind fun _ => .pure _
  | execute polls request => exact htx.elim
  | listResources cursor => exact htx.elim
  | completeTemplateVariable typed config context => exact htx.elim

theorem FixedCall.handed {target : Target} {session : SessionVars} {stmts : List PreparedStmt}
    (h : FixedCall target session stmts (entry.call lib rt)) (hs : s ∈ entry.handed lib rt env) :
    s.target = target ∧ s.session = session ∧ s.stmt ∈ stmts := by
  obtain ⟨ev, hev, hsub⟩ := mem_handed.mp hs
  exact (h.mem_trace hev).of_submission hsub

/-- A call hands over its statements, and no other. -/
theorem handed_stmt (hs : s ∈ entry.handed lib rt env) : s.stmt ∈ entry.statements rt := by
  by_cases htx : entry.IsTransaction
  · exact ((fixed_transaction htx).handed hs).2.2
  · by_cases hplain : entry.Plain rt ∧ rt.hasCredRefs lib
    · obtain ⟨-, -, -, -, -, -, -, -, -, -, hstmt⟩ := plain_handed hplain.1 hplain.2 hs
      cases entry with
      | execute polls request =>
        rw [Entry.statements, ProfileRuntime.statements, show rt.awaitRt = none from hplain.1]
        exact hstmt
      | _ => exact hplain.1.elim
    · exact ((fixed_call htx hplain).handed hs).2.2

/-! ## Session variables -/

/-- The host resolved the URI to this text for the call. -/
def ResolvedIn (events : List (Sigma (Answer (δ := δ)))) (uri value : String) : Prop :=
  ∃ snapshot answer creds,
    ⟨.resolveCredentials snapshot, (.ok answer : Except BackendHostError Value)⟩ ∈ events ∧
      credMap answer = some creds ∧ Assoc.get? creds uri = some value

/-- The variables of the binding, with every token replaced by what the host resolved it to
for the call. -/
def Applied (lib : CallLib δ) (rt : Runtime) (template : String → List Piece)
    (events : List (Sigma (Answer (δ := δ)))) (session : SessionVars) : Prop :=
  ∃ f, session = ⟨filledVars lib.syn rt.cfg template f⟩ ∧
    ∀ var ∈ rt.cfg.sessionVars.entries, ∀ uri ∈ lib.syn.credTokens var.2,
      ResolvedIn events uri (f uri)

/-- A host that leaves a text under every URI it is asked for. -/
def HostResolves (lib : CallLib δ) (rt : Runtime) (env : Nat → (q : Question δ) → Answer q) : Prop :=
  ∀ n answer creds, env n (credQuestion lib rt) = (.ok answer : Except BackendHostError Value) →
    credMap answer = some creds → ∀ uri ∈ credUris lib.syn rt.cfg, (Assoc.get? creds uri).isSome

section

variable {template : String → List Piece}

theorem credTokens_eq_nil (h : sessionVarsKeys lib.syn rt.cfg = []) :
    ∀ var ∈ rt.cfg.sessionVars.entries, lib.syn.credTokens var.2 = [] := by
  rw [sessionVarsKeys, List.map_eq_nil_iff, List.filter_eq_nil_iff] at h
  intro var hvar
  simpa using h var hvar

theorem hasCredRefs_of_keys (h : sessionVarsKeys lib.syn rt.cfg ≠ []) : rt.hasCredRefs lib := by
  obtain ⟨key, hkey⟩ := List.exists_mem_of_ne_nil _ h
  obtain ⟨var, hvar, -⟩ := List.mem_map.mp hkey
  obtain ⟨hmem, htokens⟩ := List.mem_filter.mp hvar
  rw [Runtime.hasCredRefs, configHasCredRefs, Bool.or_eq_true, List.any_eq_true]
  exact .inr ⟨var, hmem, htokens⟩

/-- Variables without a token are as the configuration has them. -/
theorem applied_of_no_token (hsyn : Follows lib.syn template)
    (h : sessionVarsKeys lib.syn rt.cfg = []) (events : List (Sigma (Answer (δ := δ)))) :
    Applied lib rt template events rt.sessionVars := by
  have hnone := credTokens_eq_nil h
  refine ⟨fun _ => "", ?_, fun var hvar uri huri => ?_⟩
  · have hfilled : resolvedSessionVars lib.syn rt.cfg [] =
        filledVars lib.syn rt.cfg template fun _ => "" := by
      refine resolvedSessionVars_eq_filledVars hsyn fun var hvar uri huri => ?_
      rw [hnone var hvar] at huri
      cases huri
    rw [← hfilled, resolvedSessionVars, h]
    rfl
  · rw [hnone var hvar] at huri
    cases huri

/-- A token has no value in a call that asks the host for none. -/
theorem not_applied_of_token {session : SessionVars} {events : List (Sigma (Answer (δ := δ)))}
    (hkeys : sessionVarsKeys lib.syn rt.cfg ≠ [])
    (hevents : ∀ ev ∈ events, ∀ snapshot, ev.1 ≠ .resolveCredentials snapshot) :
    ¬Applied lib rt template events session := by
  rintro ⟨f, -, hf⟩
  obtain ⟨key, hkey⟩ := List.exists_mem_of_ne_nil _ hkeys
  obtain ⟨var, hvar, rfl⟩ := List.mem_map.mp hkey
  obtain ⟨hmem, htokens⟩ := List.mem_filter.mp hvar
  obtain ⟨uri, huri⟩ := List.exists_mem_of_ne_nil (lib.syn.credTokens var.2) (by simpa using htokens)
  obtain ⟨snapshot, answer, creds, hev, -⟩ := hf var hmem uri huri
  exact hevents _ hev snapshot rfl

theorem not_applied_of_empty {events : List (Sigma (Answer (δ := δ)))}
    (hvars : rt.cfg.sessionVars.entries ≠ []) : ¬Applied lib rt template events ⟨.empty⟩ := by
  rintro ⟨f, hf, -⟩
  have := congrArg (fun vars : SessionVars => vars.values.entries) hf
  exact hvars (List.map_eq_nil_iff.mp this.symm)

/-- The variables of an answer of the host. -/
theorem applied_of_bundle (hsyn : Follows lib.syn template) (hhost : HostResolves lib rt env)
    {n : Nat} {r : ResolvedCreds δ} (hr : bundle lib rt env n = .ok r)
    {events : List (Sigma (Answer (δ := δ)))} (hev : ⟨credQuestion lib rt, env n _⟩ ∈ events) :
    Applied lib rt template events ⟨r.sessionVars⟩ := by
  simp only [bundle, resolveCredsFor] at hr
  split at hr
  · cases hr
  · cases hr
  · rename_i answer hanswer
    split at hr
    · cases hr
    · rename_i creds hcreds
      cases hr
      have hget : ∀ var ∈ rt.cfg.sessionVars.entries, ∀ uri ∈ lib.syn.credTokens var.2,
          Assoc.get? creds uri = some ((Assoc.get? creds uri).getD "") := by
        intro var hvar uri huri
        have huri : uri ∈ credUris lib.syn rt.cfg :=
          List.mem_append_right _ (List.mem_flatMap.mpr ⟨var, hvar, huri⟩)
        obtain ⟨v, hv⟩ := Option.isSome_iff_exists.mp (hhost n answer creds hanswer hcreds uri huri)
        rw [hv, Option.getD_some]
      refine ⟨fun uri => (Assoc.get? creds uri).getD "", ?_, fun var hvar uri huri => ?_⟩
      · rw [resolvedSessionVars_eq_filledVars hsyn hget]
      · rw [hanswer] at hev
        exact ⟨_, answer, creds, hev, hcreds, hget var hvar uri huri⟩

/-- A statement carries the resolved variables of its binding exactly where `execute` handed
it over on a plain binding, or no variable has a token and it is not of a transaction. -/
theorem session_applied_iff (hsyn : Follows lib.syn template) (hhost : HostResolves lib rt env)
    (hvars : rt.cfg.sessionVars.entries ≠ []) (hs : s ∈ entry.handed lib rt env) :
    Applied lib rt template (entry.events lib rt env) s.session ↔
      entry.Plain rt ∨ (¬entry.IsTransaction ∧ sessionVarsKeys lib.syn rt.cfg = []) := by
  by_cases htx : entry.IsTransaction
  · have hplain : ¬entry.Plain rt := by
      cases entry with
      | executeTransaction group => exact id
      | _ => exact htx.elim
    rw [((fixed_transaction htx).handed hs).2.1]
    exact ⟨fun h => (not_applied_of_empty hvars h).elim, fun h =>
      (h.elim hplain fun h => h.1 htx).elim⟩
  · by_cases hplain : entry.Plain rt ∧ rt.hasCredRefs lib
    · obtain ⟨r₁, pool, r₂, rest, -, h₂, hevents, -, -, hsession, -⟩ :=
        plain_handed hplain.1 hplain.2 hs
      rw [hsession, hevents]
      exact ⟨fun _ => .inl hplain.1, fun _ => applied_of_bundle hsyn hhost h₂ (by simp)⟩
    · have hfixed := fixed_call htx hplain
      rw [(hfixed.handed hs).2.1]
      by_cases hkeys : sessionVarsKeys lib.syn rt.cfg = []
      · exact ⟨fun _ => .inr ⟨htx, hkeys⟩, fun _ => applied_of_no_token hsyn hkeys _⟩
      · have hcred := hasCredRefs_of_keys hkeys
        constructor
        · intro happlied
          refine (not_applied_of_token hkeys (fun ev hev snapshot hq => ?_) happlied).elim
          have := hfixed.mem_trace hev
          rw [hq] at this
          exact this
        · rintro (h | h)
          · exact (hplain ⟨h, hcred⟩).elim
          · exact (hkeys h.2).elim

end

/-- A host that resolves every URI `t` to `f n t` when it is asked question `n`, and pools
that open. -/
def resolving (f : Nat → String → String) (n : Nat) : (q : Question δ) → Answer q
  | .resolveCredentials snapshot => answer (f n) snapshot
  | .getOrBuild .. => (.ok (.opened n) : Except SqlError PoolHandle)
  | q => answering (fun _ => []) q

theorem hostResolves_resolving (lib : CallLib δ) (rt : Runtime) (f : Nat → String → String) :
    HostResolves lib rt (resolving f) := by
  intro n value creds hanswer hcreds uri huri
  obtain ⟨value', creds', hvalue, hcreds', hget⟩ := credMap_answer lib.syn rt.cfg (f n)
  obtain rfl : value' = value := Except.ok.inj (hvalue.symm.trans hanswer)
  obtain rfl : creds' = creds := Option.some.inj (hcreds'.symm.trans hcreds)
  rw [hget uri huri]
  rfl

/-- Orders whose rows are chosen by the tenant of the caller. -/
def tenantOrders : Runtime := ordersRuntime tenantProfile.cfg

def tenantVars (tenant : String) : SessionVars := ⟨OrdMap.empty.insert "app.tenant" tenant⟩

/-- `execute` applies the tenant of the caller. -/
theorem tenant_applied :
    Applied scanLib tenantOrders (fun s => scan none s.toList)
      ((Entry.execute 0 { payload := none }).events scanLib tenantOrders (resolving fun _ _ => "acme"))
      (tenantVars "acme") :=
  (session_applied_iff (s := ⟨.pool (.opened 1), .execute, tenantOrders.stmt, [], tenantVars "acme"⟩)
    scanSyntax_follows (hostResolves_resolving _ _ _) (by decide) (by decide)).mpr (.inl rfl)

/-- A transaction of one statement. -/
def deleteOrders : Entry :=
  .executeTransaction (.ok { steps := [{ id := "purge", sql := "DELETE FROM orders" }] })

/-- A completion of the names of customers. -/
def completeCustomer : Entry :=
  .completeTemplateVariable "a"
    (.ok { query := "SELECT customer FROM orders WHERE customer LIKE :prefix" }) .empty

/-- A transaction sets no tenant, and a completion sets the token itself. -/
theorem tenant_not_applied :
    tenantOrders.cfg.sessionVars.entries ≠ [] ∧
      HostResolves scanLib tenantOrders (resolving fun _ _ => "acme") ∧
      (∃ s ∈ deleteOrders.handed scanLib tenantOrders (resolving fun _ _ => "acme"),
        s.session = ⟨.empty⟩ ∧ ¬Applied scanLib tenantOrders (fun s => scan none s.toList)
          (deleteOrders.events scanLib tenantOrders (resolving fun _ _ => "acme")) s.session) ∧
      ∃ s ∈ completeCustomer.handed scanLib tenantOrders (resolving fun _ _ => "acme"),
        s.session = tenantVars "$\x7bcred://idp/tenant\x7d" ∧
          ¬Applied scanLib tenantOrders (fun s => scan none s.toList)
            (completeCustomer.events scanLib tenantOrders (resolving fun _ _ => "acme"))
            s.session := by
  have hvars : tenantOrders.cfg.sessionVars.entries ≠ [] := by decide
  refine ⟨hvars, hostResolves_resolving _ _ _,
    ⟨⟨.transaction, .executeAffected, ⟨"DELETE FROM orders", [], .postgres⟩, [], ⟨.empty⟩⟩,
      by decide, rfl, not_applied_of_empty hvars⟩,
    ⟨⟨.pool .registered, .execute,
      ⟨"SELECT customer FROM orders WHERE customer LIKE $1", ["prefix"], .postgres⟩,
      [⟨"prefix", .str "a"⟩], tenantOrders.sessionVars⟩, by decide, rfl, ?_⟩⟩
  refine not_applied_of_token (by decide) fun ev hev snapshot hq => ?_
  have hfixed : FixedCall (.pool .registered) tenantOrders.sessionVars
      (completeCustomer.statements tenantOrders) (completeCustomer.call scanLib tenantOrders) :=
    fixed_call id And.left
  have := hfixed.mem_trace hev
  rw [hq] at this
  exact this

/-! ## Pool and session variables -/

/-- One answer of the host gives the URL and the digest of the pool that the statement goes
to, and its session variables. -/
def OneBundle (lib : CallLib δ) (rt : Runtime) (events : List (Sigma (Answer (δ := δ))))
    (s : Submission) : Prop :=
  ∃ answer r keys pool, ⟨credQuestion lib rt, answer⟩ ∈ events ∧
    resolveCredsFor lib.syn rt.cfg lib.blake3 (fun _ => answer) = .ok r ∧
    ⟨.getOrBuild r.digest keys r.url, (.ok pool : Except SqlError PoolHandle)⟩ ∈ events ∧
    s.target = .pool pool ∧ s.session = ⟨r.sessionVars⟩

/-- Two answers of the host of which one accounts for the pool of the first and the
variables of the second. -/
def Agree (r₁ r₂ : ResolvedCreds δ) : Prop :=
  r₁.sessionVars = r₂.sessionVars ∨ (r₁.url = r₂.url ∧ r₁.digest = r₂.digest)

theorem one_bundle_plain (hplain : entry.Plain rt) (hcred : rt.hasCredRefs lib)
    (hs : s ∈ entry.handed lib rt env) :
    OneBundle lib rt (entry.events lib rt env) s ↔
      ∃ r₁ r₂, bundle lib rt env 0 = .ok r₁ ∧ bundle lib rt env 2 = .ok r₂ ∧ Agree r₁ r₂ := by
  obtain ⟨r₁, pool, r₂, rest, h₁, h₂, hevents, hrest, htarget, hsession, -⟩ :=
    plain_handed hplain hcred hs
  rw [hevents]
  constructor
  · rintro ⟨answer, r, keys, pool', hanswer, hr, hpool, -, hvars⟩
    refine ⟨r₁, r₂, h₁, h₂, ?_⟩
    have hvars : r₂.sessionVars = r.sessionVars :=
      congrArg SessionVars.values (hsession.symm.trans hvars)
    have hask : Question.getOrBuild r.digest keys r.url ≠ credQuestion lib rt := nofun
    have hbuilt : r₁.digest = r.digest ∧ r₁.url = r.url := by
      simp only [List.mem_cons] at hpool
      rcases hpool with h | h | h | hmem
      · exact (hask (congrArg Sigma.fst h)).elim
      · have hq := Question.getOrBuild.inj (congrArg Sigma.fst h)
        exact ⟨hq.1.symm, hq.2.2.symm⟩
      · exact (hask (congrArg Sigma.fst h)).elim
      · exact (hrest _ hmem).elim
    simp only [List.mem_cons] at hanswer
    rcases hanswer with h | h | h | hmem
    · -- The answer is the first one.
      obtain rfl := eq_of_heq (Sigma.mk.inj h).2
      have hsame : r = r₁ := Except.ok.inj (hr.symm.trans h₁)
      exact .inl (by rw [hvars, hsame])
    · have hq : credQuestion lib rt = poolQuestion r₁ := congrArg Sigma.fst h
      cases hq
    · obtain rfl := eq_of_heq (Sigma.mk.inj h).2
      have hsame : r = r₂ := Except.ok.inj (hr.symm.trans h₂)
      exact .inr ⟨by rw [hbuilt.2, hsame], by rw [hbuilt.1, hsame]⟩
    · exact (hrest _ hmem).elim
  · rintro ⟨r₁', r₂', h₁', h₂', hagree⟩
    obtain rfl : r₁ = r₁' := Except.ok.inj (h₁.symm.trans h₁')
    obtain rfl : r₂ = r₂' := Except.ok.inj (h₂.symm.trans h₂')
    rcases hagree with hvars | ⟨hurl, hdigest⟩
    · refine ⟨_, r₁, r₁.credKeys, pool, List.mem_cons_self, h₁, by simp [poolQuestion], htarget, ?_⟩
      rw [hsession, hvars]
    · refine ⟨_, r₂, r₁.credKeys, pool, by simp, h₂, ?_, htarget, hsession⟩
      rw [← hurl, ← hdigest]
      simp [poolQuestion]

/-- The pool and the variables of a statement are of one answer of the host exactly where
`execute` handed it over on a plain binding, and the second answer gives the variables, or
the URL and the digest, of the first. -/
theorem one_bundle_iff (hcred : rt.hasCredRefs lib) (hs : s ∈ entry.handed lib rt env) :
    OneBundle lib rt (entry.events lib rt env) s ↔ entry.Plain rt ∧
      ∃ r₁ r₂, bundle lib rt env 0 = .ok r₁ ∧ bundle lib rt env 2 = .ok r₂ ∧ Agree r₁ r₂ := by
  by_cases hplain : entry.Plain rt
  · rw [one_bundle_plain hplain hcred hs]
    exact ⟨fun h => ⟨hplain, h⟩, And.right⟩
  · -- The other calls do not ask the host.
    have hnever : ∀ answer, ⟨credQuestion lib rt, answer⟩ ∉ entry.events lib rt env := by
      intro answer hmem
      by_cases htx : entry.IsTransaction
      · exact (fixed_transaction htx).mem_trace hmem
      · exact (fixed_call htx fun h => hplain h.1).mem_trace hmem
    constructor
    · rintro ⟨answer, r, keys, pool, hmem, -⟩
      exact (hnever answer hmem).elim
    · exact fun h => (hplain h.1).elim

/-- The tenant of the caller is resolved to the same value twice. -/
theorem tenant_one_bundle :
    OneBundle scanLib tenantOrders
      ((Entry.execute 0 { payload := none }).events scanLib tenantOrders (resolving fun _ _ => "acme"))
      ⟨.pool (.opened 1), .execute, tenantOrders.stmt, [], tenantVars "acme"⟩ := by
  refine (one_bundle_iff (by decide) (by decide)).mpr ⟨rfl, ?_⟩
  exact ⟨_, _, rfl, rfl, .inl rfl⟩

/-- A rotation between the two answers: the pool of the old credentials, and the variables
of the new ones. -/
theorem rotated_two_bundles :
    tenantOrders.hasCredRefs scanLib ∧
      ∃ s ∈ (Entry.execute 0 { payload := none }).handed scanLib tenantOrders
          (resolving fun n _ => if n = 0 then "acme" else "bravo"),
        s.session = tenantVars "bravo" ∧ ¬OneBundle scanLib tenantOrders
          ((Entry.execute 0 { payload := none }).events scanLib tenantOrders
            (resolving fun n _ => if n = 0 then "acme" else "bravo")) s := by
  have hs : ⟨.pool (.opened 1), .execute, tenantOrders.stmt, [], tenantVars "bravo"⟩ ∈
      (Entry.execute 0 { payload := none }).handed scanLib tenantOrders
        (resolving fun n _ => if n = 0 then "acme" else "bravo") := by decide
  have hplain : (Entry.execute 0 { payload := none }).Plain tenantOrders := rfl
  refine ⟨by decide, _, hs, rfl, ?_⟩
  rw [one_bundle_plain hplain (by decide) hs]
  rintro ⟨r₁, r₂, h₁, h₂, hagree⟩
  cases h₁
  cases h₂
  rcases hagree with hvars | hcreds
  · exact absurd hvars (by decide)
  · exact absurd hcreds.2 (by decide)

end McpgSql.Execute
