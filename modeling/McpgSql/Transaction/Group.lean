import McpgSql.Execute.Entries

/-!
# Transaction groups

`execute_transaction` over every group and everything the handle may answer. A step
hands one statement to the handle, or none where its parameters do not bind or its row
mode is not supported. The handle makes its statements durable where it commits and
the commit succeeds, and undoes them otherwise (`TxStore`).

`executeTransaction_all_or_nothing`: the steps go to one handle in their order up to
the first that fails, which is rolled back and named; the commit is asked for exactly
where all succeed; the call succeeds exactly where the commit does; and what is durable
is then all of the group, else nothing.
-/

namespace McpgSql.Transaction

open Library McpgSql.Cache McpgSql.Execute

variable {δ : Type}

abbrev Event (δ : Type) := Sigma (Answer (δ := δ))

/-! ## Steps -/

/-- The statement that a step hands to the handle. -/
def submission? (driver : DriverKind) (input : Value) (session : SessionVars) (step : TxNestedStep) :
    Option Submission :=
  let stmt := step.prepare driver
  match collectBoundParams input stmt.paramOrder with
  | .error _ => none
  | .ok args => match step.rowMode with
    | "affected_rows" => some ⟨.transaction, .executeAffected, stmt, args, session⟩
    | "many" | "single" | "scalar" => some ⟨.transaction, .execute, stmt, args, session⟩
    | _ => none

/-- The handle ran the statement. -/
def Succeeds (s : Submission) (answer : Except SqlError s.how.Reply) : Prop :=
  ∃ reply, answer = .ok reply

variable (env : Nat → (q : Question δ) → Answer q)

/-- The statements as questions from `n` on, with their answers. -/
def handed : Nat → List Submission → List (Event δ)
  | _, [] => []
  | n, s :: subs => ⟨.submit s, env n (.submit s)⟩ :: handed (n + 1) subs

/-- All the statements from question `n` on succeed. -/
def AllSucceed : Nat → List Submission → Prop
  | _, [] => True
  | n, s :: subs => Succeeds s (env n (.submit s)) ∧ AllSucceed (n + 1) subs

variable {env} {driver : DriverKind} {input : Value} {session : SessionVars} {step : TxNestedStep}
  {n : Nat}

/-- A step that hands over no statement fails. -/
theorem run_step_none (h : submission? driver input session step = none) :
    ∃ msg, Prog.run env n (runTxNestedStep driver step input session) = ([], .ok (.error msg)) := by
  unfold submission? at h
  unfold runTxNestedStep
  dsimp only at h ⊢
  generalize collectBoundParams input (step.prepare driver).paramOrder = bound at h ⊢
  cases bound with
  | error e => exact ⟨_, rfl⟩
  | ok args =>
    generalize step.rowMode = mode at h ⊢
    dsimp only at h ⊢
    have hmode : mode ∉ ["affected_rows", "many", "single", "scalar"] := by
      intro hmem
      simp only [List.mem_cons, List.not_mem_nil, or_false] at hmem
      rcases hmem with rfl | rfl | rfl | rfl
      all_goals cases h
    clear h
    split
    · exact absurd (by decide) hmode
    · exact absurd (by decide) hmode
    · exact absurd (by decide) hmode
    · exact absurd (by decide) hmode
    · exact ⟨_, rfl⟩

/-- One question whose answer is put in a form. -/
theorem run_ask {α : Type} {q : Question δ} {k : Answer q → Call δ α} {a : α}
    (hk : k (env n q) = .pure a) : Prog.run env n (ask q >>= k) = ([⟨q, env n q⟩], .ok a) := by
  show (⟨q, env n q⟩ :: (Prog.run env (n + 1) (k (env n q))).1,
    (Prog.run env (n + 1) (k (env n q))).2) = _
  rw [hk]
  rfl

/-- A statement on the handle, whose reply or error is put in a form. -/
theorem run_submitTx (s : Submission) {k : Except SqlError s.how.Reply → Call δ (Except String Value)}
    (hok : ∀ reply, ∃ value, k (.ok reply) = .pure (.ok value))
    (herr : ∀ e, ∃ msg, k (.error e) = .pure (.error msg)) :
    ∃ outcome, Prog.run env n (ask (.submit s) >>= k) = ([⟨.submit s, env n (.submit s)⟩], .ok outcome) ∧
      ((∃ value, outcome = .ok value) ↔ Succeeds s (env n (.submit s))) := by
  cases h : (env n (.submit s) : Except SqlError s.how.Reply) with
  | ok reply =>
    obtain ⟨value, hvalue⟩ := hok reply
    have hk : k (env n (.submit s)) = .pure (.ok value) := by rw [h]; exact hvalue
    have hrun := run_ask (q := .submit s) hk
    rw [h] at hrun
    exact ⟨.ok value, hrun, fun _ => ⟨reply, rfl⟩, fun _ => ⟨value, rfl⟩⟩
  | error e =>
    obtain ⟨msg, hmsg⟩ := herr e
    have hk : k (env n (.submit s)) = .pure (.error msg) := by rw [h]; exact hmsg
    have hrun := run_ask (q := .submit s) hk
    rw [h] at hrun
    refine ⟨.error msg, hrun, nofun, ?_⟩
    rintro ⟨reply, hreply⟩
    cases hreply

/-- A step that hands over a statement succeeds where the handle runs it. -/
theorem run_step_some {s : Submission} (h : submission? driver input session step = some s) :
    ∃ outcome, Prog.run env n (runTxNestedStep driver step input session) =
        ([⟨.submit s, env n (.submit s)⟩], .ok outcome) ∧
      ((∃ value, outcome = .ok value) ↔ Succeeds s (env n (.submit s))) := by
  unfold submission? at h
  unfold runTxNestedStep
  dsimp only at h ⊢
  generalize collectBoundParams input (step.prepare driver).paramOrder = bound at h ⊢
  cases bound with
  | error e => cases h
  | ok args =>
    generalize step.rowMode = mode at h ⊢
    dsimp only at h ⊢
    split at h
    · cases h
      exact run_submitTx _ (fun _ => ⟨_, rfl⟩) fun _ => ⟨_, rfl⟩
    · cases h
      exact run_submitTx _ (fun _ => ⟨_, rfl⟩) fun _ => ⟨_, rfl⟩
    · cases h
      exact run_submitTx _ (fun _ => ⟨_, rfl⟩) fun _ => ⟨_, rfl⟩
    · cases h
      exact run_submitTx _ (fun _ => ⟨_, rfl⟩) fun _ => ⟨_, rfl⟩
    · cases h

/-! ## Runs of a group -/

/-- The error that names a step. -/
def stepError (step : TxNestedStep) (msg : String) : Stop :=
  .failed (.transport ("sql_tx nested step '" ++ step.id ++ "': " ++ msg))

/-- The step hands over a statement that the handle runs, as question `n`. -/
def StepSucceeds (env : Nat → (q : Question δ) → Answer q) (driver : DriverKind) (input : Value)
    (session : SessionVars) (n : Nat) (step : TxNestedStep) : Prop :=
  ∃ s, submission? driver input session step = some s ∧ Succeeds s (env n (.submit s))

/-- What the loop over the steps asks, and how it ends. -/
inductive LoopRun (env : Nat → (q : Question δ) → Answer q) (driver : DriverKind) (input : Value)
    (session : SessionVars) (n : Nat) (steps : List TxNestedStep) :
    List (Event δ) × Except Stop (List (String × Value)) → Prop
  | done (results : List (String × Value)) (subs : List Submission)
      (hsubs : steps.map (submission? driver input session) = subs.map some)
      (hok : AllSucceed env n subs) :
      LoopRun env driver input session n steps (handed env n subs, .ok results)
  | failed (before after : List TxNestedStep) (step : TxNestedStep) (subs : List Submission)
      (msg : String) (hsteps : steps = before ++ step :: after)
      (hsubs : before.map (submission? driver input session) = subs.map some)
      (hok : AllSucceed env n subs)
      (hstep : ¬StepSucceeds env driver input session (n + subs.length) step) :
      LoopRun env driver input session n steps
        (handed env n (subs ++ (submission? driver input session step).toList) ++
          [⟨.rollback,
            env (n + (subs ++ (submission? driver input session step).toList).length) .rollback⟩],
        .error (stepError step msg))

theorem handed_length (subs : List Submission) : (handed env n subs).length = subs.length := by
  induction subs generalizing n with
  | nil => rfl
  | cons s subs ih => simp [handed, ih]

/-- The loop fails at its first step. -/
theorem LoopRun.first (steps : List TxNestedStep) (msg : String)
    (hstep : ¬StepSucceeds env driver input session n step) :
    LoopRun env driver input session n (step :: steps)
      (handed env n (submission? driver input session step).toList ++
        [⟨.rollback, env (n + (submission? driver input session step).toList.length) .rollback⟩],
      .error (stepError step msg)) :=
  .failed [] steps step [] msg rfl rfl trivial hstep

/-- The loop goes on after a step that succeeded. -/
theorem LoopRun.cons {steps : List TxNestedStep} {s : Submission}
    {run : List (Event δ) × Except Stop (List (String × Value))}
    (hs : submission? driver input session step = some s) (hok : Succeeds s (env n (.submit s)))
    (h : LoopRun env driver input session (n + 1) steps run) :
    LoopRun env driver input session n (step :: steps)
      (⟨.submit s, env n (.submit s)⟩ :: run.1, run.2) := by
  cases h with
  | done results subs hsubs hall =>
    exact .done results (s :: subs) (by simp [hs, hsubs]) ⟨hok, hall⟩
  | failed before after failing subs msg hsteps hsubs hall hstep =>
    have hnext : n + (s :: subs).length = n + 1 + subs.length := by
      rw [List.length_cons]
      omega
    have hfailed : LoopRun env driver input session n (step :: steps) _ :=
      .failed (step :: before) after failing (s :: subs) msg (by rw [hsteps]; rfl)
        (by simp [hs, hsubs]) ⟨hok, hall⟩ (by rw [hnext]; exact hstep)
    rw [List.cons_append, List.length_cons, show ∀ m, n + (m + 1) = n + 1 + m by omega] at hfailed
    exact hfailed

theorem loopRun (steps : List TxNestedStep) (results : List (String × Value)) :
    LoopRun env driver input session n steps
      (Prog.run env n (txLoop driver input session steps results)) := by
  induction steps generalizing n results with
  | nil => exact .done results [] rfl trivial
  | cons step steps ih =>
    rw [txLoop, Prog.run_bind]
    cases hsub : submission? driver input session step with
    | none =>
      obtain ⟨msg, hrun⟩ := run_step_none hsub
      have hfirst : LoopRun env driver input session n (step :: steps) _ :=
        .first steps msg fun ⟨s, hs, _⟩ => by rw [hsub] at hs; cases hs
      rw [hsub] at hfirst
      rw [Prog.result, Prog.trace, hrun]
      exact hfirst
    | some s =>
      obtain ⟨outcome, hrun, hiff⟩ := run_step_some hsub
      rw [Prog.result, Prog.trace, hrun]
      cases outcome with
      | ok value =>
        exact .cons hsub (hiff.mp ⟨value, rfl⟩) (ih (n := n + 1) _)
      | error msg =>
        have hfirst : LoopRun env driver input session n (step :: steps) _ :=
          .first steps msg fun ⟨s', hs', hok⟩ => by
            rw [hsub] at hs'
            cases hs'
            obtain ⟨value, hvalue⟩ := hiff.mpr hok
            cases hvalue
        rw [hsub] at hfirst
        exact hfirst

/-- Transactions have no session variables. -/
def noVars : SessionVars := ⟨.empty⟩

/-- What a call asks, and how it ends. -/
inductive GroupRun (env : Nat → (q : Question δ) → Answer q) (driver : DriverKind) (group : TxGroup) :
    List (Event δ) × Except Stop Value → Prop
  | refused (e : SqlError) (stop : Stop)
      (hbegin : (env 0 .beginTransaction : Except SqlError Unit) = .error e) :
      GroupRun env driver group ([⟨.beginTransaction, env 0 .beginTransaction⟩], .error stop)
  | failed (before after : List TxNestedStep) (step : TxNestedStep) (subs : List Submission)
      (msg : String) (rolledBack : Answer (.rollback : Question δ))
      (hbegin : (env 0 .beginTransaction : Except SqlError Unit) = .ok ())
      (hsteps : group.steps = before ++ step :: after)
      (hsubs : before.map (submission? driver group.stepInput noVars) = subs.map some)
      (hok : AllSucceed env 1 subs)
      (hstep : ¬StepSucceeds env driver group.stepInput noVars (1 + subs.length) step) :
      GroupRun env driver group
        (⟨.beginTransaction, env 0 .beginTransaction⟩ ::
          (handed env 1 (subs ++ (submission? driver group.stepInput noVars step).toList) ++
            [⟨.rollback, rolledBack⟩]), .error (stepError step msg))
  | ended (subs : List Submission) (result : Except Stop Value)
      (committed : Answer (.commit : Question δ))
      (hbegin : (env 0 .beginTransaction : Except SqlError Unit) = .ok ())
      (hsubs : group.steps.map (submission? driver group.stepInput noVars) = subs.map some)
      (hok : AllSucceed env 1 subs)
      (hresult : (∃ value, result = .ok value) ↔ (committed : Except SqlError Unit) = .ok ()) :
      GroupRun env driver group
        (⟨.beginTransaction, env 0 .beginTransaction⟩ ::
          (handed env 1 subs ++ [⟨.commit, committed⟩]), result)

section

variable (lib : CallLib δ) (rt : Runtime) (group : TxGroup)

/-- The end of a call, by what the commit answered. -/
def afterCommit (results : List (String × Value)) : Except SqlError Unit → Call δ Value
  | .ok _ => pure (.object [("steps", .obj results)])
  | .error e => .fail (.failed (.transport ("sql_tx commit: " ++ e.text)))

/-- The steps and the commit. -/
def afterBegin (rt : Runtime) (group : TxGroup) : Call δ Value :=
  txLoop (txDriver rt.driverKind) group.stepInput noVars group.steps [] >>= fun results =>
    ask .commit >>= afterCommit results

theorem run_commit (results : List (String × Value)) :
    ∃ result, Prog.run env n (ask .commit >>= afterCommit results) =
        ([⟨.commit, env n .commit⟩], result) ∧
      ((∃ value, result = .ok value) ↔ (env n .commit : Except SqlError Unit) = .ok ()) := by
  have hrun : Prog.run env n (ask .commit >>= afterCommit results) =
      (⟨.commit, env n .commit⟩ :: (Prog.run env (n + 1) (afterCommit results (env n .commit))).1,
        (Prog.run env (n + 1) (afterCommit results (env n .commit))).2) := rfl
  rw [hrun]
  cases h : (env n .commit : Except SqlError Unit) with
  | ok u => exact ⟨_, rfl, fun _ => rfl, fun _ => ⟨_, rfl⟩⟩
  | error e =>
    refine ⟨_, rfl, ?_, nofun⟩
    rintro ⟨value, hvalue⟩
    cases hvalue

theorem groupRun_of_begin (hbegin : (env 0 .beginTransaction : Except SqlError Unit) = .ok ()) :
    GroupRun env (txDriver rt.driverKind) group
      (⟨.beginTransaction, env 0 .beginTransaction⟩ :: (Prog.run env 1 (afterBegin rt group)).1,
        (Prog.run env 1 (afterBegin rt group)).2) := by
  have hloop : LoopRun env (txDriver rt.driverKind) group.stepInput noVars 1 group.steps _ :=
    loopRun group.steps []
  rw [afterBegin, Prog.run_bind, Prog.result, Prog.trace]
  generalize Prog.run env 1 (txLoop (txDriver rt.driverKind) group.stepInput noVars group.steps []) =
    run at hloop
  cases hloop with
  | done results subs hsubs hok =>
    obtain ⟨result, hrun, hresult⟩ : ∃ result,
        Prog.run env (1 + subs.length) (ask .commit >>= afterCommit results) = _ ∧ _ :=
      run_commit results
    simp only [handed_length, Prog.trace, Prog.result, hrun]
    exact .ended subs result _ hbegin hsubs hok hresult
  | failed before after step subs msg hsteps hsubs hok hstep =>
    exact .failed before after step subs msg _ hbegin hsteps hsubs hok hstep

theorem groupRun : GroupRun env (txDriver rt.driverKind) group
    (Prog.run env 0 (executeTransaction lib rt (.ok group))) := by
  have hrun : Prog.run env 0 (executeTransaction lib rt (.ok group)) =
      (⟨.beginTransaction, env 0 .beginTransaction⟩ ::
        (Prog.run env 1 (ofSql lib (env 0 .beginTransaction) >>= fun _ => afterBegin rt group)).1,
      (Prog.run env 1 (ofSql lib (env 0 .beginTransaction) >>= fun _ => afterBegin rt group)).2) := rfl
  rw [hrun]
  cases hbegin : (env 0 .beginTransaction : Except SqlError Unit) with
  | error e =>
    have : GroupRun env (txDriver rt.driverKind) group _ :=
      .refused e (.failed (BackendError.ofSql lib.redact e)) hbegin
    rw [hbegin] at this
    exact this
  | ok u =>
    have := groupRun_of_begin rt group hbegin
    rw [hbegin] at this
    exact this

end

/-! ## What is durable -/

/-- The statements of the open transaction, and those of committed ones. -/
structure TxStore where
  pending : List Submission := []
  durable : List Submission := []

/-- The handle makes its statements durable where it commits and the commit succeeds. -/
def TxStore.apply (store : TxStore) : Event δ → TxStore
  | ⟨.beginTransaction, _⟩ => { store with pending := [] }
  | ⟨.submit s, _⟩ =>
    if s.target = .transaction then { store with pending := store.pending ++ [s] } else store
  | ⟨.commit, answer⟩ => match (answer : Except SqlError Unit) with
    | .ok _ => { pending := [], durable := store.durable ++ store.pending }
    | .error _ => { store with pending := [] }
  | ⟨.rollback, _⟩ => { store with pending := [] }
  | _ => store

/-- What is durable once the handle is dropped. -/
def durable (events : List (Event δ)) : List Submission := (events.foldl TxStore.apply {}).durable

/-- The statements that are handed over. -/
def submissions (events : List (Event δ)) : List Submission :=
  events.filterMap fun ev => ev.1.submission?

def isBegin : Question δ → Bool
  | .beginTransaction => true
  | _ => false

structure AllOrNothing (env : Nat → (q : Question δ) → Answer q) (driver : DriverKind)
    (group : TxGroup) (events : List (Event δ)) (result : Except Stop Value) : Prop where
  /-- There is one handle, and every statement goes to it. -/
  handle : (events.filter fun ev => isBegin ev.1).length = 1 ∧
    ∀ s ∈ submissions events, s.target = .transaction
  /-- The steps run in their order up to the first that fails, which is rolled back and named. -/
  order : (env 0 .beginTransaction : Except SqlError Unit) = .ok () → ∃ before after : List TxNestedStep,
    group.steps = before ++ after ∧
    submissions events =
      (before ++ after.head?.toList).filterMap (submission? driver group.stepInput noVars) ∧
    (∀ (i : Nat) (step : TxNestedStep), before[i]? = some step →
      StepSucceeds env driver group.stepInput noVars (1 + i) step) ∧
    ∀ step ∈ after.head?, ¬StepSucceeds env driver group.stepInput noVars (1 + before.length) step ∧
      (∃ answer, ⟨.rollback, answer⟩ ∈ events) ∧ ∃ msg, result = .error (stepError step msg)
  /-- The commit is asked for exactly where every step succeeds. -/
  commit : (∃ answer, ⟨.commit, answer⟩ ∈ events) ↔
    (env 0 .beginTransaction : Except SqlError Unit) = .ok () ∧
      ∀ (i : Nat) (step : TxNestedStep), group.steps[i]? = some step →
        StepSucceeds env driver group.stepInput noVars (1 + i) step
  /-- The call succeeds exactly where the commit does. -/
  ok : (∃ value, result = .ok value) ↔ ⟨.commit, (.ok () : Except SqlError Unit)⟩ ∈ events
  /-- All of the group is durable then. -/
  all : (∃ value, result = .ok value) → durable events = submissions events
  /-- Nothing is durable after an error. -/
  nothing : ∀ e, result = .error e → durable events = []

section

variable {subs : List Submission} {events : List (Event δ)}

theorem submissions_handed (subs : List Submission) : submissions (handed env n subs) = subs := by
  induction subs generalizing n with
  | nil => rfl
  | cons s subs ih =>
    show s :: submissions (handed env (n + 1) subs) = _
    rw [ih]

theorem submissions_append (events events' : List (Event δ)) :
    submissions (events ++ events') = submissions events ++ submissions events' :=
  List.filterMap_append

theorem mem_handed {ev : Event δ} (h : ev ∈ handed env n subs) : ∃ s answer, ev = ⟨.submit s, answer⟩ := by
  induction subs generalizing n with
  | nil => cases h
  | cons s subs ih =>
    rcases List.mem_cons.mp h with rfl | h
    · exact ⟨s, _, rfl⟩
    · exact ih h

theorem foldl_handed (htarget : ∀ s ∈ subs, s.target = .transaction) (store : TxStore) :
    (handed env n subs).foldl TxStore.apply store = { store with pending := store.pending ++ subs } := by
  induction subs generalizing n store with
  | nil => simp [handed]
  | cons s subs ih =>
    have hs : store.apply ⟨.submit s, env n (.submit s)⟩ =
        { store with pending := store.pending ++ [s] } :=
      if_pos (htarget s List.mem_cons_self)
    rw [handed, List.foldl_cons, hs, ih fun s' hs' => htarget s' (List.mem_cons_of_mem _ hs')]
    simp

theorem submission?_target {s : Submission} (h : submission? driver input session step = some s) :
    s.target = .transaction := by
  unfold submission? at h
  dsimp only at h
  split at h
  · cases h
  · split at h
    all_goals first
      | cases h; rfl
      | cases h

/-- Statements of steps go to the transaction. -/
theorem target_of_map {steps : List TxNestedStep}
    (hsubs : steps.map (submission? driver input session) = subs.map some) :
    ∀ s ∈ subs, s.target = .transaction := by
  intro s hs
  have hmem : some s ∈ steps.map (submission? driver input session) := by
    rw [hsubs]
    exact List.mem_map_of_mem hs
  obtain ⟨step, -, hstep⟩ := List.mem_map.mp hmem
  exact submission?_target hstep

theorem filterMap_of_map {steps : List TxNestedStep}
    (hsubs : steps.map (submission? driver input session) = subs.map some) :
    steps.filterMap (submission? driver input session) = subs := by
  have : (steps.map (submission? driver input session)).filterMap id = (subs.map some).filterMap id := by
    rw [hsubs]
  simpa [List.filterMap_map] using this

/-- The steps whose statements all succeed. -/
theorem stepSucceeds_of_all {steps : List TxNestedStep}
    (hsubs : steps.map (submission? driver input session) = subs.map some)
    (hok : AllSucceed env n subs) {i : Nat} (hi : steps[i]? = some step) :
    StepSucceeds env driver input session (n + i) step := by
  induction steps generalizing n subs i with
  | nil => cases hi
  | cons head steps ih =>
    cases subs with
    | nil => cases hsubs
    | cons s subs =>
      obtain ⟨hs, hsubs⟩ := List.cons.inj hsubs
      cases i with
      | zero =>
        cases hi
        exact ⟨s, hs, hok.1⟩
      | succ i =>
        rw [show n + (i + 1) = n + 1 + i by omega]
        exact ih hsubs hok.2 hi

theorem length_of_map {steps : List TxNestedStep}
    (hsubs : steps.map (submission? driver input session) = subs.map some) :
    steps.length = subs.length := by
  have := congrArg List.length hsubs
  simpa using this

end

/-! ## All or nothing -/

section

variable {group : TxGroup} {subs : List Submission}

/-- A call that begins, hands over these statements and closes. -/
theorem submissions_call {close : Event δ} (begun : Answer (.beginTransaction : Question δ))
    (hclose : close.1.submission? = none) :
    submissions (⟨.beginTransaction, begun⟩ :: (handed env n subs ++ [close])) = subs := by
  show submissions (handed env n subs ++ [close]) = subs
  rw [submissions_append, submissions_handed]
  simp [submissions, hclose]

theorem one_begin {close : Event δ} (begun : Answer (.beginTransaction : Question δ))
    (hclose : isBegin close.1 = false) :
    ((⟨.beginTransaction, begun⟩ :: (handed env n subs ++ [close])).filter
      fun ev => isBegin ev.1).length = 1 := by
  have hhanded : (handed env n subs).filter (fun ev => isBegin ev.1) = [] := by
    rw [List.filter_eq_nil_iff]
    intro ev hev
    obtain ⟨s, answer, rfl⟩ := mem_handed hev
    exact Bool.false_ne_true
  rw [List.filter_cons_of_pos rfl, List.filter_append, hhanded]
  simp [hclose]

/-- What is durable after it. -/
theorem durable_call {close : Event δ} (begun : Answer (.beginTransaction : Question δ))
    (htarget : ∀ s ∈ subs, s.target = .transaction) :
    durable (⟨.beginTransaction, begun⟩ :: (handed env n subs ++ [close])) =
      (TxStore.apply { pending := subs } close).durable := by
  show ((handed env n subs ++ [close]).foldl TxStore.apply {}).durable = _
  rw [List.foldl_append, foldl_handed htarget]
  rfl

/-- A closing event is the last of its call. -/
theorem mem_call {close ev : Event δ} (begun : Answer (.beginTransaction : Question δ))
    (h : ev ∈ (⟨.beginTransaction, begun⟩ :: (handed env n subs ++ [close]) : List (Event δ)))
    (hbegin : isBegin ev.1 = false) (hsubmit : ev.1.submission? = none) : ev = close := by
  rcases List.mem_cons.mp h with rfl | h
  · cases hbegin
  · rcases List.mem_append.mp h with h | h
    · obtain ⟨s, answer, rfl⟩ := mem_handed h
      cases hsubmit
    · exact List.mem_singleton.mp h

theorem GroupRun.allOrNothing {run : List (Event δ) × Except Stop Value}
    (h : GroupRun env driver group run) : AllOrNothing env driver group run.1 run.2 := by
  cases h with
  | refused e stop hbegin =>
    refine ⟨⟨rfl, nofun⟩, fun hok => ?_, ⟨?_, fun hok => ?_⟩, ⟨nofun, ?_⟩, nofun, fun _ _ => rfl⟩
    · rw [hbegin] at hok
      cases hok
    · rintro ⟨answer, hmem⟩
      cases List.mem_singleton.mp hmem
    · rw [hbegin] at hok
      cases hok.1
    · intro hmem
      cases List.mem_singleton.mp hmem
  | failed before after step subs msg rolledBack hbegin hsteps hsubs hok hstep =>
    have htarget : ∀ s ∈ subs ++ (submission? driver group.stepInput noVars step).toList,
        s.target = .transaction := by
      intro s hs
      rcases List.mem_append.mp hs with hs | hs
      · exact target_of_map hsubs s hs
      · exact submission?_target (Option.mem_toList.mp hs)
    have hlen := length_of_map hsubs
    refine ⟨⟨one_begin _ rfl, ?_⟩, fun _ => ⟨before, step :: after, hsteps, ?_, ?_, ?_⟩,
      ⟨?_, fun hall => ?_⟩, ⟨nofun, fun hmem => ?_⟩, nofun, fun _ _ => durable_call _ htarget⟩
    · rw [submissions_call _ rfl]
      exact htarget
    · rw [submissions_call _ rfl, List.filterMap_append, filterMap_of_map hsubs]
      show _ = subs ++ [step].filterMap (submission? driver group.stepInput noVars)
      cases hsub : submission? driver group.stepInput noVars step with
      | none => rw [List.filterMap_cons_none hsub]; rfl
      | some s => rw [List.filterMap_cons_some hsub]; rfl
    · exact fun i s hi => stepSucceeds_of_all hsubs hok hi
    · rintro s hs
      cases hs
      refine ⟨by rw [hlen]; exact hstep, ⟨rolledBack, ?_⟩, msg, rfl⟩
      exact List.mem_cons_of_mem _ (List.mem_append_right _ List.mem_cons_self)
    · rintro ⟨answer, hmem⟩
      cases mem_call _ hmem rfl rfl
    · refine absurd (hall.2 before.length step ?_) (by rw [hlen]; exact hstep)
      rw [hsteps, List.getElem?_append_right (Nat.le_refl _), Nat.sub_self]
      rfl
    · cases mem_call _ hmem rfl rfl
  | ended subs result committed hbegin hsubs hok hresult =>
    have htarget := target_of_map hsubs
    have hlast : (⟨.commit, committed⟩ : Event δ) ∈ (⟨.beginTransaction, env 0 .beginTransaction⟩ ::
        (handed env 1 subs ++ [⟨.commit, committed⟩]) : List (Event δ)) :=
      List.mem_cons_of_mem _ (List.mem_append_right _ List.mem_cons_self)
    refine ⟨⟨one_begin _ rfl, ?_⟩, fun _ => ⟨group.steps, [], (List.append_nil _).symm, ?_,
      fun i s hi => stepSucceeds_of_all hsubs hok hi, nofun⟩,
      ⟨fun _ => ⟨hbegin, fun i s hi => stepSucceeds_of_all hsubs hok hi⟩, fun _ => ⟨committed, hlast⟩⟩,
      ⟨fun hvalue => ?_, fun hmem => ?_⟩, fun hvalue => ?_, fun e he => ?_⟩
    · rw [submissions_call _ rfl]
      exact htarget
    · rw [submissions_call _ rfl]
      show subs = (group.steps ++ []).filterMap _
      rw [List.append_nil, filterMap_of_map hsubs]
    · have := hresult.mp hvalue
      subst this
      exact hlast
    · have := mem_call _ hmem rfl rfl
      cases this
      exact hresult.mpr rfl
    · rw [durable_call _ htarget, submissions_call _ rfl]
      have := hresult.mp hvalue
      subst this
      rfl
    · rw [durable_call _ htarget]
      have : (committed : Except SqlError Unit) ≠ .ok () := fun hc => by
        obtain ⟨value, hvalue⟩ := hresult.mpr hc
        rw [show result = .error e from he] at hvalue
        cases hvalue
      cases hc : (committed : Except SqlError Unit) with
      | ok u => exact absurd hc this
      | error e => rfl

end

variable (lib : CallLib δ) (rt : Runtime) (env)

/-- `execute_transaction` is all or nothing. -/
theorem executeTransaction_all_or_nothing (group : TxGroup) :
    AllOrNothing env (txDriver rt.driverKind) group
      (Prog.trace env 0 (executeTransaction lib rt (.ok group)))
      (Prog.result env 0 (executeTransaction lib rt (.ok group))) :=
  (groupRun lib rt group).allOrNothing

end McpgSql.Transaction
