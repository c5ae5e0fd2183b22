import McpgSql.Execute.Entries
import McpgSql.Library.Alike
import McpgSql.Library.Leases
import McpgSql.Redact

/-!
# Texts of driver errors

What a driver says of an error goes to the caller through `redact_in_text`, where the error
becomes a `BackendError`. `errors_redacted`: `execute`, `list_resources` and
`complete_template_variable` ask and answer the same in environments whose errors are the
same after that, so they show no more of a text than `redact` leaves. A transaction puts the
text of a failed step or commit into its own message (`transaction_shows_text`).
-/

namespace McpgSql.Execute

open Library McpgSql.Cache McpgSql.Listing
open Library.Prog (Alike Safe)

variable {δ α : Type}

/-! ## Errors that look the same -/

section

variable (lib : CallLib δ)

/-- The errors become the same error of a call, and both are of a stale statement or none is. -/
structure SameError (e e' : SqlError) : Prop where
  shown : BackendError.ofSql lib.redact e = BackendError.ofSql lib.redact e'
  stale : lib.isRetryableStale e = lib.isRetryableStale e'

inductive SameReply : Except SqlError α → Except SqlError α → Prop
  | ok {a : α} : SameReply (.ok a) (.ok a)
  | error {e e' : SqlError} : SameError lib e e' → SameReply (.error e) (.error e')

/-- The answers are the same but for the texts of errors of the database. -/
def Question.SameAnswer : (q : Question δ) → Answer q → Answer q → Prop
  | .submit _, a, b => SameReply lib a b
  | .submitWithin _ _, a, b => Option.Rel (SameReply lib) a b
  | .getOrBuild .., a, b => SameReply lib a b
  | .beginTransaction, a, b => SameReply lib a b
  | .commit, a, b => SameReply lib a b
  | .rollback, a, b => SameReply lib a b
  | .resolveCredentials _, a, b => a = b
  | .cacheVersion, a, b => a = b
  | .cacheGet _, a, b => a = b
  | .cachePut .., a, b => a = b
  | .now, a, b => a = b
  | .sleep _, a, b => a = b
  | .charge .., a, b => a = b
  | .refund _, a, b => a = b

/-- The call goes on the same by answers that look the same. -/
abbrev Blind (p : Call δ α) : Prop := Alike (Question.SameAnswer lib) p p Eq

end

namespace Blind

variable {lib : CallLib δ} {rt : Runtime}

theorem ite {c : Prop} [Decidable c] {p p' : Call δ α} (hp : c → Blind lib p) (hp' : Blind lib p') :
    Blind lib (if c then p else p') := by
  split_ifs with hc
  · exact hp hc
  · exact hp'

theorem answer (q : Question δ) :
    Alike (Question.SameAnswer lib) (Execute.ask q) (Execute.ask q) (q.SameAnswer lib) := .query q

/-- A question that answers no error of the database. -/
theorem ask {q : Question δ} (h : ∀ a b, q.SameAnswer lib a b → a = b := by exact fun _ _ h => h) :
    Blind lib (Execute.ask q) := .query_eq h

theorem ofBackend (x : Except BackendError α) : Blind lib (Execute.ofBackend x : Call δ α) :=
  Alike.ofExcept _

theorem ofSql (x : Except SqlError α) : Blind lib (Execute.ofSql lib x) := ofBackend _

/-- An error is shown by what it becomes. -/
theorem ofReply {x y : Except SqlError α} (h : SameReply lib x y) :
    Alike (Question.SameAnswer lib) (Execute.ofSql lib x) (Execute.ofSql lib y) Eq := by
  cases h with
  | ok => exact ofSql _
  | error h =>
    have hsame : Execute.ofSql lib (.error _ : Except SqlError α) = Execute.ofSql lib (.error _) :=
      congrArg (fun e => (.fail (.failed e) : Call δ α)) h.shown
    rw [hsame]
    exact ofSql _

theorem tryEmitRefund (reason : String) : Blind lib (Execute.tryEmitRefund rt reason : Call δ Unit) :=
  ite (fun _ => ask) (.pure rfl)

theorem refundAndFail (reason : String) (e : BackendError) :
    Blind lib (Execute.refundAndFail rt reason e : Call δ α) :=
  Alike.seq (tryEmitRefund _) fun _ => .fail

theorem failWith {e e' : SqlError} (h : SameError lib e e') :
    Alike (Question.SameAnswer lib) (Execute.failWith lib rt e : Call δ α)
      (Execute.failWith lib rt e') Eq := by
  unfold Execute.failWith
  rw [h.shown]
  exact refundAndFail _ _

theorem tryEmitCharge (args : Value) (rows bytes : Nat) :
    Blind lib (Execute.tryEmitCharge lib rt args rows bytes) := by
  unfold Execute.tryEmitCharge
  split
  · exact .pure rfl
  · exact Alike.seq (ofSql _) fun _ => ask

theorem serialize (payload : Value) (message : String) :
    Blind lib (Execute.serialize lib rt payload message) := by
  unfold Execute.serialize
  split
  · exact .pure rfl
  · exact refundAndFail _ _

/-- A statement under a timeout gives replies that look the same. -/
theorem submitWithin (pool : PoolHandle) (how : Submit) (stmt : PreparedStmt)
    (args : List BoundParam) (session : SessionVars) :
    Alike (Question.SameAnswer lib) (Execute.submitWithin rt pool how stmt args session)
      (Execute.submitWithin rt pool how stmt args session) (SameReply lib) := by
  refine Alike.bind (answer _) fun a b hab => ?_
  cases hab with
  | some h => exact .pure h
  | none => exact Alike.seq (tryEmitRefund _) fun _ => .fail

/-! ### The query of a binding -/

theorem resolveCreds : Blind lib (Execute.resolveCreds lib rt) :=
  Alike.seq ask fun _ => ofBackend _

theorem resolvePoolForCall : Blind lib (Execute.resolvePoolForCall lib rt) := by
  unfold Execute.resolvePoolForCall
  split
  · exact Alike.seq resolveCreds fun _ =>
      Alike.bind (answer _) fun _ _ h => ofReply h
  · exact .pure rfl

theorem activeSessionVars : Blind lib (Execute.activeSessionVars lib rt) := by
  unfold Execute.activeSessionVars
  split
  · exact Alike.seq resolveCreds fun _ => .pure rfl
  · exact .pure rfl

theorem cacheLookup (bound : List BoundParam) (session : SessionVars) :
    Blind lib (Execute.cacheLookup lib rt bound session) := by
  unfold Execute.cacheLookup
  split
  · exact .pure rfl
  · refine Alike.seq ?_ fun version => Alike.seq ask fun found => ?_
    · exact ite (fun _ => ask) (.pure rfl)
    · split <;> exact .pure rfl

theorem submitRetrying (pool : PoolHandle) (how : Submit) (bound : List BoundParam)
    (session : SessionVars) : Blind lib (Execute.submitRetrying lib rt pool how bound session) := by
  refine Alike.bind (submitWithin _ _ _ _ _) fun first first' hfirst => ?_
  cases hfirst with
  | ok => exact .pure rfl
  | error h =>
    dsimp only
    rw [h.stale]
    split
    · refine Alike.bind (submitWithin _ _ _ _ _) fun second second' hsecond => ?_
      cases hsecond with
      | ok => exact .pure rfl
      | error h => exact failWith h
    · exact failWith h

theorem runResultSets (args : Value) (pool : PoolHandle) (bound : List BoundParam)
    (session : SessionVars) : Blind lib (Execute.runResultSets lib rt args pool bound session) := by
  refine Alike.bind (submitWithin _ _ _ _ _) fun reply reply' h => ?_
  cases h with
  | error h => exact failWith h
  | ok => exact Alike.seq (serialize _ _) fun _ => Alike.seq (tryEmitCharge _ _ _) fun _ => .pure rfl

theorem runBatch (pool : PoolHandle) (bound : List BoundParam) (session : SessionVars) :
    Blind lib (Execute.runBatch lib rt pool bound session) := by
  refine ite (fun _ => ?_) (submitRetrying _ _ _ _)
  exact Alike.seq (submitRetrying _ .executeAffected _ _) fun _ => .pure rfl

theorem finishBatch (args : Value) (batch : RowBatch) (key : Option String) :
    Blind lib (Execute.finishBatch lib rt args batch key) := by
  refine Alike.seq (ofBackend _) fun shaped => Alike.seq (serialize _ _) fun bytes => ?_
  refine Alike.seq (tryEmitCharge _ _ _) fun _ => ?_
  split
  · exact Alike.seq ask fun _ => .pure rfl
  · exact .pure rfl

theorem runQuery (pool : PoolHandle) (session : SessionVars) (request : BackendRequest) :
    Blind lib (Execute.runQuery lib rt pool session request) := by
  refine Alike.seq (ofBackend _) fun args => Alike.seq (ofSql _) fun bound => ?_
  refine Alike.seq (cacheLookup _ _) fun looked => ?_
  cases looked with
  | inl response => exact .pure rfl
  | inr key =>
    dsimp only
    split
    · exact runResultSets _ _ _ _
    · exact Alike.seq (runBatch _ _ _) fun _ => finishBatch _ _ _

/-! ### Calls of an `await` block -/

theorem submitAwait (stmt : PreparedStmt) (args : Value) :
    Blind lib (Execute.submitAwait lib rt stmt args) := by
  refine Alike.seq (ofSql _) fun bound => Alike.bind (submitWithin _ _ _ _ _) fun _ _ h => ?_
  cases h with
  | ok => exact .pure rfl
  | error h => exact failWith h

theorem pollLoop (checkStmt : PreparedStmt) (args : Value) (deadline polls more : Nat) :
    Blind lib (Execute.pollLoop lib rt checkStmt args deadline polls more) := by
  induction more generalizing polls with
  | zero => exact .fail
  | succ more ih =>
    refine Alike.seq (submitAwait _ _) fun batch => ?_
    dsimp only
    split
    · exact Alike.seq (serialize _ _) fun _ =>
        Alike.seq (tryEmitCharge _ _ _) fun _ => .pure rfl
    · refine Alike.seq ask fun now => ?_
      split
      · exact refundAndFail _ _
      · refine Alike.seq ask fun drained => ?_
        split
        · exact refundAndFail _ _
        · exact ih _

theorem executeInnerImpl (polls : Nat) (request : BackendRequest) :
    Blind lib (Execute.executeInnerImpl lib rt polls request) := by
  unfold Execute.executeInnerImpl
  split
  · rename_i aw _
    refine Alike.seq (ofBackend _) fun args => Alike.seq ?_ fun _ => ?_
    · cases aw.triggerStmt with
      | none => exact .pure rfl
      | some stmt => exact Alike.seq (submitAwait _ _) fun _ => .pure rfl
    · exact Alike.seq ask fun _ => pollLoop _ _ _ _ _
  · refine Alike.seq resolvePoolForCall fun pool => ?_
    exact Alike.seq activeSessionVars fun session => runQuery _ _ _

/-! ### Listings and completions -/

theorem submitRegistered (stmt : PreparedStmt) (args : List BoundParam) :
    Blind lib (Execute.submitRegistered lib rt stmt args) :=
  Alike.bind (answer _) fun _ _ h => ofReply h

theorem listResources (cursor : Option String) : Blind lib (Execute.listResources lib rt cursor) := by
  unfold Execute.listResources
  split
  · exact .pure rfl
  · exact Alike.seq (ofSql _) fun _ => Alike.seq (submitRegistered _ _) fun _ => .pure rfl

theorem completeTemplateVariable (typed : String) (config : Except String SqlCompletionConfig)
    (context : OrdMap String String) :
    Blind lib (Execute.completeTemplateVariable lib rt typed config context) := by
  unfold Execute.completeTemplateVariable
  cases config with
  | error e => exact .fail
  | ok cfg =>
    dsimp only
    split
    · exact .fail
    · exact Alike.seq (ofBackend _) fun _ => Alike.seq (submitRegistered _ _) fun _ => .pure rfl

end Blind

/-- The call is one of a transaction. -/
theorem Blind.entry {lib : CallLib δ} {rt : Runtime} {entry : Entry}
    (h : ∀ group, entry ≠ .executeTransaction group) : Blind lib (entry.call lib rt) := by
  cases entry with
  | execute polls request => exact Alike.seq (executeInnerImpl _ _) fun _ => .pure rfl
  | executeTransaction group => exact absurd rfl (h group)
  | listResources cursor => exact Alike.seq (listResources _) fun _ => .pure rfl
  | completeTemplateVariable typed config context =>
    exact Alike.seq (completeTemplateVariable _ _ _) fun _ => .pure rfl

/-- A call that is no transaction shows an error of the database by what it becomes: where two
environments differ in nothing else it asks the same and ends the same. -/
theorem errors_redacted (lib : CallLib δ) (rt : Runtime) {entry : Entry}
    (h : ∀ group, entry ≠ .executeTransaction group) {env env' : Nat → (q : Question δ) → Answer q}
    (henv : ∀ n (q : Question δ), q.SameAnswer lib (env n q) (env' n q)) :
    (Prog.trace env 0 (entry.call lib rt)).map Sigma.fst =
        (Prog.trace env' 0 (entry.call lib rt)).map Sigma.fst ∧
      Prog.result env 0 (entry.call lib rt) = Prog.result env' 0 (entry.call lib rt) :=
  (Blind.entry h).run henv 0

/-- Texts are redacted, of URLs without an encoding. -/
def redactingLib : CallLib String := { scanLib with redact := Redact.redactInText Redact.plainUrls }

/-- A database that says of each query which URL it refused. -/
def refusing (url : String) : Nat → (q : Question String) → Answer q
  | _, .submitWithin _ s => (some (.error (.execute url)) : Option (Except SqlError s.how.Reply))
  | _, q => answering (fun _ => []) q

theorem refusing_same {url url' : String}
    (h : redactingLib.redact url = redactingLib.redact url') (n : Nat) (q : Question String) :
    q.SameAnswer redactingLib (refusing url n q) (refusing url' n q) := by
  have hsame {α : Type} (x : Except SqlError α) : SameReply redactingLib x x := by
    cases x with
    | ok a => exact .ok
    | error e => exact .error ⟨rfl, rfl⟩
  cases q with
  | submitWithin ms s =>
    exact .some (.error ⟨congrArg (fun text => BackendError.transport ("execute: " ++ text)) h, rfl⟩)
  | submit s => exact hsame _
  | getOrBuild digest keys url => exact hsame _
  | beginTransaction => exact hsame _
  | commit => exact hsame _
  | rollback => exact hsame _
  | _ => exact rfl

/-- The registered query of all open orders. -/
def openOrders : Runtime :=
  ordersRuntime ⟨"postgres://u:hunter2@h/d", .empty, Pool.CredConfig.identifiers_empty⟩

/-- The caller cannot tell one password from another. -/
theorem passwords_look_same :
    Prog.result (refusing "postgres://u:hunter2@h/d") 0
        ((Entry.execute 0 ⟨none, none, none, none⟩).call redactingLib openOrders) =
      Prog.result (refusing "postgres://u:swordfish@h/d") 0
        ((Entry.execute 0 ⟨none, none, none, none⟩).call redactingLib openOrders) := by
  refine (errors_redacted redactingLib openOrders (fun group h => by cases h) (refusing_same ?_)).2
  decide

/-! ## Transactions -/

/-- The text of a failed statement or commit. -/
def failureText : Sigma (Answer (δ := δ)) → Option String
  | ⟨.submit s, reply⟩ => match (reply : Except SqlError s.how.Reply) with
    | .ok _ => none
    | .error e => some e.text
  | ⟨.commit, reply⟩ => match (reply : Except SqlError Unit) with
    | .ok _ => none
    | .error e => some e.text
  | _ => none

/-- The texts so far, with the one of an event. -/
def failed (texts : List String) (ev : Sigma (Answer (δ := δ))) : List String :=
  texts ++ (failureText ev).toList

/-- The message has all the texts in it, each at its end. -/
def ShowsAll (texts : List String) (message : String) : Prop :=
  ∀ text ∈ texts, ∃ before, message = before ++ text

/-- From these texts on a call ends so that `post` holds of all of them and its end. -/
abbrev Showing (texts : List String) (p : Call δ α) (post : List String → Except Stop α → Prop) : Prop :=
  Safe (fun s q a s' => s' = failed s ⟨q, a⟩) (fun _ _ => True) texts p post

section

variable {driver : DriverKind} {session : SessionVars} {input : Value}

/-- A step gives a value and nothing has failed, or a message with the text of its failure. -/
def StepEnd (texts : List String) (r : Except Stop (Except String Value)) : Prop :=
  ∃ reply, r = .ok reply ∧ match reply with
    | .ok _ => texts = []
    | .error message => ShowsAll texts message

theorem stepEnd_submitTx {how : Submit} {stmt : PreparedStmt} {args : List BoundParam}
    {f : Except SqlError how.Reply → Call δ (Except String Value)}
    (hok : ∀ reply, ∃ value, f (.ok reply) = pure (.ok value))
    (herror : ∀ e, ∃ before, f (.error e) = pure (.error (before ++ e.text))) :
    Showing [] (submitTx how stmt args session >>= f) StepEnd := by
  refine Safe.query_bind trivial fun reply texts htexts => ?_
  subst htexts
  cases hreply : (reply : Except SqlError how.Reply) with
  | ok rows =>
    obtain ⟨value, hvalue⟩ := hok rows
    rw [hvalue]
    exact ⟨_, rfl, rfl⟩
  | error e =>
    obtain ⟨before, hmessage⟩ := herror e
    rw [hmessage]
    refine ⟨_, rfl, fun text htext => ⟨before, ?_⟩⟩
    rw [List.mem_singleton.mp htext]

theorem stepEnd (step : TxNestedStep) :
    Showing [] (runTxNestedStep driver step input session : Call δ _) StepEnd := by
  have hrows : ∀ shape args, Showing [] (runTxNestedStep.rows session shape (step.prepare driver) args :
      Call δ _) StepEnd :=
    fun shape args => stepEnd_submitTx (fun reply => ⟨_, rfl⟩) fun e => ⟨_, rfl⟩
  have hfailed : ∀ message, Showing [] (pure (.error message) : Call δ _) StepEnd :=
    fun message => ⟨_, rfl, fun text htext => by cases htext⟩
  unfold runTxNestedStep
  dsimp only
  split
  · exact hfailed _
  · split
    · exact stepEnd_submitTx (fun reply => ⟨_, rfl⟩) fun e => ⟨_, rfl⟩
    · exact hrows _ _
    · exact hrows _ _
    · exact hrows _ _
    · exact hfailed _

/-- Nothing has failed, or the call has ended with the texts of what has. -/
def CallEnd (texts : List String) (r : Except Stop α) : Prop :=
  texts = [] ∨ ∃ message, r = .error (.failed (.transport message)) ∧ ShowsAll texts message

theorem ShowsAll.append {texts : List String} {message : String} (h : ShowsAll texts message)
    (before : String) : ShowsAll texts (before ++ message) := by
  intro text htext
  obtain ⟨front, rfl⟩ := h text htext
  exact ⟨before ++ front, (String.append_assoc ..).symm⟩

theorem callEnd_txLoop (steps : List TxNestedStep) (results : List (String × Value)) :
    Showing [] (txLoop driver input session steps results : Call δ _) CallEnd := by
  induction steps generalizing results with
  | nil => exact .inl rfl
  | cons step steps ih =>
    refine Safe.bind _ (stepEnd step) (fun texts reply hreply => ?_) fun texts e hend => ?_
    · obtain ⟨_, heq, hend⟩ := hreply
      cases heq
      cases reply with
      | ok value =>
        subst hend
        exact ih _
      | error message =>
        refine Safe.query_bind trivial fun _ texts' htexts => ?_
        have hsame : texts' = texts := by rw [htexts]; exact List.append_nil _
        subst hsame
        exact .inr ⟨_, rfl, hend.append _⟩
    · obtain ⟨_, heq, -⟩ := hend
      cases heq

end

theorem callEnd_executeTransaction (lib : CallLib δ) (rt : Runtime) (group : Except String TxGroup) :
    Showing [] (executeTransaction lib rt group) CallEnd := by
  cases group with
  | error e => exact .inl rfl
  | ok group =>
    refine Safe.query_bind trivial fun begun texts htexts => ?_
    have hnone : texts = [] := htexts
    subst hnone
    refine Safe.bind (fun texts r => texts = []) ?_ (fun texts _ hnone => ?_) fun _ _ h => .inl h
    · exact Safe.ofExcept rfl
    · subst hnone
      refine Safe.bind _ (callEnd_txLoop _ _) (fun texts results hend => ?_) ?_
      · obtain rfl | ⟨_, heq, -⟩ := hend
        · refine Safe.query_bind trivial fun committed texts htexts => ?_
          subst htexts
          cases hcommitted : (committed : Except SqlError Unit) with
          | ok _ => exact .inl rfl
          | error e =>
            refine .inr ⟨_, rfl, fun text htext => ⟨"sql_tx commit: ", ?_⟩⟩
            rw [List.mem_singleton.mp htext]
        · cases heq
      · intro texts e hend
        obtain rfl | ⟨message, heq, hshows⟩ := hend
        · exact .inl rfl
        · cases heq
          exact .inr ⟨message, rfl, hshows⟩

theorem foldl_failed (texts : List String) (events : List (Sigma (Answer (δ := δ)))) :
    events.foldl failed texts = texts ++ events.filterMap failureText := by
  induction events generalizing texts with
  | nil => rw [List.filterMap_nil, List.append_nil, List.foldl_nil]
  | cons ev events ih =>
    rw [List.foldl_cons, ih, failed, List.append_assoc]
    cases h : failureText ev with
    | none => rw [List.filterMap_cons_none h, Option.toList_none, List.nil_append]
    | some text => rw [List.filterMap_cons_some h, Option.toList_some, List.singleton_append]

/-- A transaction in which a statement or the commit fails ends with an error that has the
whole text of the failure, whatever `redact` takes out of others. -/
theorem transaction_shows_text (lib : CallLib δ) (rt : Runtime) (group : Except String TxGroup)
    (env : Nat → (q : Question δ) → Answer q) :
    ∀ text ∈ (Prog.trace env 0 (executeTransaction lib rt group)).filterMap failureText,
      ∃ before, Prog.result env 0 (executeTransaction lib rt group) =
        .error (.failed (.transport (before ++ text))) := by
  intro text htext
  have hend := (callEnd_executeTransaction lib rt group).run env 0
  rw [foldl_failed, List.nil_append] at hend
  obtain hnone | ⟨message, hresult, hshows⟩ := hend
  · rw [hnone] at htext
    cases htext
  · obtain ⟨before, rfl⟩ := hshows text htext
    exact ⟨before, hresult⟩

/-- A database that says of the commit which URL it refused. -/
def refusingCommit (url : String) : Nat → (q : Question String) → Answer q
  | _, .commit => (.error (.execute url) : Except SqlError Unit)
  | _, q => answering (fun _ => []) q

/-- The caller is shown the password. -/
theorem commit_shows_password :
    ∃ before, Prog.result (refusingCommit "postgres://u:hunter2@h/d") 0
        (executeTransaction redactingLib openOrders (.ok { steps := [] })) =
      .error (.failed (.transport (before ++ "execute failed: postgres://u:hunter2@h/d"))) :=
  transaction_shows_text _ _ _ _ _ (List.mem_singleton.mpr rfl)

end McpgSql.Execute
