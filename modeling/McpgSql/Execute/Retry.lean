import McpgSql.Execute.Entries
import McpgSql.Library.Logged
import Mathlib.Algebra.BigOperators.Group.List.Basic

/-!
# How often a statement is handed over

The query of a plain binding is tried once more where its first error is of a stale
statement. `Tries` are the logs that this allows: no statement, one, or the same one
twice, the first refused as stale.

* `plain_tries`: every call of `execute` on a plain binding leaves such a log, whatever
  the host, the registry and the driver answer, or it is answered from the cache.
* `applied_at_most_once`: where a statement that is refused as stale changes nothing, the
  statement of a call takes effect once at most, and exactly once where the call returns
  a response that is not from the cache.
-/

namespace McpgSql.Execute

open Library McpgSql.Pool McpgSql.Cache McpgSql.Stream

variable {δ α β : Type}

/-! ## Logs of statements -/

/-- How a statement came out: it was answered, refused with an error, or there was no
answer in time. -/
inductive Outcome where
  | answered
  | refused (e : SqlError)
  | late
deriving DecidableEq, Repr

def Outcome.ofReply {ρ : Type} : Except SqlError ρ → Outcome
  | .ok _ => .answered
  | .error e => .refused e

/-- What counts of a call: a response in the cache, the statements with their outcomes,
and the clock. -/
inductive LogItem where
  | cached
  | statement (s : Submission) (o : Outcome)
  | read (now : Nat)
  | slept (ns : Nat) (drained : Bool)
deriving DecidableEq

/-- The item of a question and its answer. -/
def logItem : Sigma (Answer (δ := δ)) → Option LogItem
  | ⟨.submit s, answer⟩ => some (.statement s (.ofReply (answer : Except SqlError s.how.Reply)))
  | ⟨.submitWithin _ s, answer⟩ =>
    some (.statement s (((answer : Option (Except SqlError s.how.Reply)).map .ofReply).getD .late))
  | ⟨.cacheGet _, answer⟩ => match (answer : Except String (Option (List UInt8))) with
    | .ok (some (_ :: _)) => some .cached
    | _ => none
  | ⟨.now, now⟩ => some (.read (now : Nat))
  | ⟨.sleep ns, drained⟩ => some (.slept ns (drained : Bool))
  | _ => none

/-- What the runs of a call log, and how they end. -/
abbrev Logs (p : Call δ α) (post : List LogItem → Except Stop α → Prop) : Prop :=
  Prog.Leaves logItem p post

/-- The logs of one statement that may be tried again. -/
inductive Tries (stale : SqlError → Bool) (s : Submission) : List LogItem → Prop
  | none : Tries stale s []
  | once (o : Outcome) : Tries stale s [.statement s o]
  | again (e : SqlError) (o : Outcome) (h : stale e) :
    Tries stale s [.statement s (.refused e), .statement s o]

/-- The last item of the log is a statement that was answered. -/
def EndsAnswered (log : List LogItem) : Prop := ∃ s, log.getLast? = some (.statement s .answered)

/-! ## Parts that log nothing -/

section

variable {lib : CallLib δ} {rt : Runtime} {p : Call δ α}

/-- A part whose questions log nothing. -/
def Silent (p : Call δ α) : Prop := Prog.Always (fun q => ∀ a, logItem ⟨q, a⟩ = none) p

namespace Silent

theorem logs (h : Silent p) {post : List LogItem → Except Stop α → Prop} (hpost : ∀ r, post [] r) :
    Logs p post :=
  .of_unobserved h hpost

/-- What follows a silent part leaves the log of the whole. -/
theorem bind_logs {f : α → Call δ β} (h : Silent p) {post : List LogItem → Except Stop β → Prop}
    (hf : ∀ a, Logs (f a) post) (herror : ∀ e, post [] (.error e)) : Logs (p >>= f) post := by
  refine Prog.Leaves.bind (fun log _ => log = []) (h.logs fun _ => rfl) ?_ ?_
  · rintro a log rfl
    exact hf a
  · rintro e log rfl
    exact herror e

theorem bind {f : α → Call δ β} (h : Silent p) (hf : ∀ a, Silent (f a)) : Silent (p >>= f) :=
  Prog.Always.bind h hf

theorem ask {q : Question δ} (h : ∀ a, logItem ⟨q, a⟩ = none) : Silent (Execute.ask q) :=
  Prog.always_query h

theorem ofBackend (x : Except BackendError α) : Silent (Execute.ofBackend x : Call δ α) :=
  Prog.always_ofExcept _

theorem ofSql (x : Except SqlError α) : Silent (Execute.ofSql lib x) := ofBackend _

theorem resolveCreds : Silent (Execute.resolveCreds lib rt) :=
  bind (ask fun _ => rfl) fun _ => ofBackend _

theorem resolvePoolForCall : Silent (Execute.resolvePoolForCall lib rt) := by
  rw [Execute.resolvePoolForCall]
  split
  · exact bind resolveCreds fun _ => bind (ask fun _ => rfl) fun _ => ofSql _
  · trivial

theorem activeSessionVars : Silent (Execute.activeSessionVars lib rt) := by
  rw [Execute.activeSessionVars]
  split
  · exact bind resolveCreds fun _ => trivial
  · trivial

theorem lookupVersion (cache : CacheSpec) : Silent (Execute.lookupVersion cache : Call δ UInt64) := by
  rw [Execute.lookupVersion]
  cases cache.invalidateOn.isSome with
  | false => trivial
  | true => exact ask fun _ => rfl

theorem tryEmitRefund (reason : String) : Silent (Execute.tryEmitRefund rt reason : Call δ Unit) := by
  rw [Execute.tryEmitRefund]
  cases rt.cost.isSome with
  | false => trivial
  | true => exact ask fun _ => rfl

theorem refundAndFail (reason : String) (e : BackendError) :
    Silent (Execute.refundAndFail rt reason e : Call δ α) :=
  bind (tryEmitRefund _) fun _ => trivial

theorem tryEmitCharge (args : Value) (rows bytes : Nat) :
    Silent (Execute.tryEmitCharge lib rt args rows bytes) := by
  rw [Execute.tryEmitCharge]
  split
  · trivial
  · exact bind (ofSql _) fun _ => ask fun _ => rfl

theorem serialize (payload : Value) (message : String) :
    Silent (Execute.serialize lib rt payload message) := by
  rw [Execute.serialize]
  split
  · trivial
  · exact refundAndFail _ _

theorem finishBatch (args : Value) (batch : RowBatch) (key : Option String) :
    Silent (Execute.finishBatch lib rt args batch key) := by
  refine bind (ofBackend _) fun shaped => ?_
  refine bind (serialize _ _) fun bytes => bind (tryEmitCharge _ _ _) fun _ => ?_
  split
  · exact bind (ask fun _ => rfl) fun _ => trivial
  · trivial

end Silent

/-! ## The statement of a call -/

theorem refundAndFail_logs (reason : String) (e : BackendError) :
    Logs (refundAndFail rt reason e : Call δ α) fun log r => log = [] ∧ r = .error (.failed e) := by
  refine Prog.Leaves.bind (fun log r => log = [] ∧ r = .ok ()) ?_ ?_ ?_
  · refine Prog.Leaves.ite (fun _ => ?_) fun _ => ?_
    · exact Prog.Leaves.query fun _ => ⟨rfl, rfl⟩
    · exact Prog.Leaves.pure ⟨rfl, rfl⟩
  · rintro a log ⟨rfl, -⟩
    exact Prog.Leaves.fail ⟨rfl, rfl⟩
  · rintro e log ⟨-, h⟩
    cases h

theorem ofBackend_bind_logs {O : Type} {obs : Sigma (Answer (δ := δ)) → Option O}
    {x : Except BackendError α} {f : α → Call δ β} {post : List O → Except Stop β → Prop}
    (hf : ∀ a, x = .ok a → Prog.Leaves obs (f a) post) (herror : ∀ e, post [] (.error (.failed e))) :
    Prog.Leaves obs (ofBackend x >>= f) post := by
  cases x with
  | ok a => exact hf a rfl
  | error e => exact Prog.Leaves.fail (herror e)

theorem ofSql_bind_logs {O : Type} {obs : Sigma (Answer (δ := δ)) → Option O}
    {x : Except SqlError α} {f : α → Call δ β} {post : List O → Except Stop β → Prop}
    (hf : ∀ a, Prog.Leaves obs (f a) post) (herror : ∀ e, post [] (.error (.failed e))) :
    Prog.Leaves obs (ofSql lib x >>= f) post :=
  ofBackend_bind_logs (fun a _ => hf a) herror

/-- A statement under the timeout of the query: one item, by its outcome. -/
theorem submitWithin_logs (pool : PoolHandle) (how : Submit) (stmt : PreparedStmt)
    (args : List BoundParam) (session : SessionVars) :
    Logs (submitWithin rt pool how stmt args session : Call δ _) fun log r =>
      match r with
      | .ok reply => log = [.statement ⟨.pool pool, how, stmt, args, session⟩ (.ofReply reply)]
      | .error e => log = [.statement ⟨.pool pool, how, stmt, args, session⟩ .late] ∧
        e ≠ .running := by
  refine Prog.Leaves.bind (fun log r => ∃ reply, r = .ok reply ∧
    log = [.statement ⟨.pool pool, how, stmt, args, session⟩ ((reply.map .ofReply).getD .late)])
    ?_ ?_ ?_
  · exact Prog.Leaves.query fun reply => ⟨reply, rfl, rfl⟩
  · rintro reply log ⟨_, ⟨⟩, rfl⟩
    cases reply with
    | some reply => exact Prog.Leaves.pure rfl
    | none =>
      refine (refundAndFail_logs _ _).mono ?_
      rintro log r ⟨rfl, rfl⟩
      exact ⟨rfl, by simp⟩
  · rintro e log ⟨_, ⟨⟩, -⟩

/-- The statement of a call has been tried, and where the call goes on it was answered. -/
structure Tried (stale : SqlError → Bool) (s : Submission) (log : List LogItem) (goesOn : Bool) :
    Prop where
  tries : Tries stale s log
  answered : goesOn → EndsAnswered log
  once : s.how = .executeMultiResult → log.length ≤ 1

theorem Tried.of_late {stale : SqlError → Bool} {s : Submission} (o : Outcome) :
    Tried stale s [.statement s o] false :=
  ⟨.once o, fun h => absurd h Bool.false_ne_true, fun _ => Nat.le_refl 1⟩

/-- The query of a binding, by its last try. -/
theorem submitRetrying_logs (pool : PoolHandle) {how : Submit} (hhow : how ≠ .executeMultiResult)
    (bound : List BoundParam) (session : SessionVars) :
    Logs (submitRetrying lib rt pool how bound session) fun log r =>
      Tried lib.isRetryableStale ⟨.pool pool, how, rt.stmt, bound, session⟩ log r.isOk := by
  have hsub : Logs (submitWithin rt pool how rt.stmt bound session : Call δ _) _ :=
    submitWithin_logs pool how rt.stmt bound session
  refine Prog.Leaves.bind _ hsub ?_ ?_
  · rintro (e | reply) log rfl
    · refine Prog.Leaves.ite (fun hstale => ?_) fun _ => ?_
      · -- The second try ends the call, however it comes out.
        refine Prog.Leaves.bind _ hsub ?_ ?_
        · rintro (e' | reply) log rfl
          · refine (refundAndFail_logs _ _).mono ?_
            rintro log r ⟨rfl, rfl⟩
            exact ⟨.again _ _ hstale, fun h => absurd h Bool.false_ne_true, fun h => absurd h hhow⟩
          · exact Prog.Leaves.pure ⟨.again _ _ hstale, fun _ => ⟨_, rfl⟩, fun h => absurd h hhow⟩
        · rintro e' log ⟨rfl, -⟩
          exact ⟨.again _ _ hstale, fun h => absurd h Bool.false_ne_true, fun h => absurd h hhow⟩
      · refine (refundAndFail_logs _ _).mono ?_
        rintro log r ⟨rfl, rfl⟩
        exact .of_late _
    · exact Prog.Leaves.pure ⟨.once _, fun _ => ⟨_, rfl⟩, fun _ => Nat.le_refl 1⟩
  · rintro e log ⟨rfl, -⟩
    exact .of_late _

theorem runBatch_logs (pool : PoolHandle) (bound : List BoundParam) (session : SessionVars) :
    Logs (runBatch lib rt pool bound session) fun log r => ∃ how,
      Tried lib.isRetryableStale ⟨.pool pool, how, rt.stmt, bound, session⟩ log r.isOk := by
  refine Prog.Leaves.ite (fun _ => ?_) fun _ => ?_
  · refine Prog.Leaves.bind _ (submitRetrying_logs pool (by decide) bound session) ?_ ?_
    · rintro n log h
      refine Prog.Leaves.pure ⟨.executeAffected, ?_⟩
      rw [List.append_nil]
      exact h
    · rintro e log h
      exact ⟨_, h⟩
  · exact (submitRetrying_logs pool (by decide) bound session).mono fun log r h => ⟨_, h⟩

/-- What comes behind the tried statement logs nothing. -/
theorem Tried.bind_silent {stale : SqlError → Bool} {s : Submission} {log : List LogItem}
    {f : Call δ β} (h : Tried stale s log true) (hf : Silent f) :
    Logs f fun log' r => Tried stale s (log ++ log') r.isOk := by
  refine hf.logs fun r => ?_
  rw [List.append_nil]
  exact ⟨h.tries, fun _ => h.answered rfl, h.once⟩

theorem runResultSets_logs (args : Value) (pool : PoolHandle) (bound : List BoundParam)
    (session : SessionVars) :
    Logs (runResultSets lib rt args pool bound session) fun log r =>
      Tried lib.isRetryableStale ⟨.pool pool, .executeMultiResult, rt.stmt, bound, session⟩ log
        r.isOk := by
  refine Prog.Leaves.bind _ (submitWithin_logs pool .executeMultiResult rt.stmt bound session) ?_ ?_
  · rintro (e | sets) log rfl
    · refine (refundAndFail_logs _ _).mono ?_
      rintro log r ⟨rfl, rfl⟩
      exact .of_late _
    · refine Tried.bind_silent ⟨.once _, fun _ => ⟨_, rfl⟩, fun _ => Nat.le_refl 1⟩ ?_
      exact .bind (.serialize _ _) fun _ => .bind (.tryEmitCharge _ _ _) fun _ => trivial
  · rintro e log ⟨rfl, -⟩
    exact .of_late _

/-- A response in the cache is the only item of its call. -/
theorem cacheLookup_logs (bound : List BoundParam) (session : SessionVars) :
    Logs (cacheLookup lib rt bound session) fun log r =>
      match r with
      | .ok (.inl _) => log = [.cached]
      | _ => log = [] := by
  rw [cacheLookup]
  split
  · exact Prog.Leaves.pure rfl
  · refine (Silent.lookupVersion _).bind_logs (fun version => ?_) fun e => rfl
    let key := buildCacheKey lib.cache rt.backendName rt.stmt.sql bound session version
    refine Prog.Leaves.bind (fun log r => ∃ found : Except String (Option (List UInt8)),
      r = .ok found ∧ log = (logItem (⟨.cacheGet key, found⟩ : Sigma (Answer (δ := δ)))).toList) ?_ ?_ ?_
    · exact Prog.Leaves.query fun found => ⟨found, rfl, rfl⟩
    · rintro found log ⟨_, ⟨⟩, rfl⟩
      split
      · exact Prog.Leaves.pure rfl
      · exact Prog.Leaves.pure rfl
      · exact Prog.Leaves.pure rfl
      · exact Prog.Leaves.pure rfl
    · rintro e log ⟨_, ⟨⟩, -⟩

/-! ## Calls of a plain binding -/

/-- What a call of a plain binding logs: one response of the cache, or the tries of its
statement. A response comes from the cache or from the last try. -/
inductive CallLog (stale : SqlError → Bool) (stmt : PreparedStmt) (returns : Bool) :
    List LogItem → Prop
  | cached : CallLog stale stmt returns [.cached]
  | tried {log : List LogItem} (s : Submission) (hstmt : s.stmt = stmt) (h : Tried stale s log returns) :
    CallLog stale stmt returns log

theorem CallLog.of_nothing {stale : SqlError → Bool} {stmt : PreparedStmt} :
    CallLog stale stmt false [] :=
  .tried ⟨.pool .registered, .execute, stmt, [], ⟨.empty⟩⟩ rfl
    ⟨.none, fun h => absurd h Bool.false_ne_true, fun _ => Nat.zero_le 1⟩

theorem runQuery_logs (pool : PoolHandle) (session : SessionVars) (request : BackendRequest) :
    Logs (runQuery lib rt pool session request) fun log r =>
      CallLog lib.isRetryableStale rt.stmt r.isOk log := by
  refine ofBackend_bind_logs (fun args _ => ?_) fun e => .of_nothing
  refine ofSql_bind_logs (fun bound => ?_) fun e => .of_nothing
  refine Prog.Leaves.bind _ (cacheLookup_logs bound session) ?_ ?_
  · rintro (response | key) log rfl
    · exact Prog.Leaves.pure .cached
    · refine Prog.Leaves.ite (fun _ => ?_) fun _ => ?_
      · exact (runResultSets_logs args pool bound session).mono fun log r h => .tried _ rfl h
      · refine Prog.Leaves.bind _ (runBatch_logs pool bound session) ?_ ?_
        · rintro batch log ⟨how, h⟩
          exact (h.bind_silent (.finishBatch _ _ _)).mono fun log' r h => .tried _ rfl h
        · rintro e log ⟨how, h⟩
          exact .tried _ rfl h
  · rintro e log rfl
    exact .of_nothing

/-- Every call of `execute` on a plain binding: its statement is handed over once at most, or
twice where the first time it was refused as stale, and a response that is not from the
cache is the answer of the last time. -/
theorem plain_tries (lib : CallLib δ) {rt : Runtime} (hplain : rt.awaitRt = none) (polls : Nat)
    (request : BackendRequest) :
    Logs (executeInnerImpl lib rt polls request) fun log r =>
      CallLog lib.isRetryableStale rt.stmt r.isOk log := by
  rw [executeInnerImpl, hplain]
  refine Silent.resolvePoolForCall.bind_logs (fun pool => ?_) fun e => .of_nothing
  refine Silent.activeSessionVars.bind_logs (fun session => ?_) fun e => .of_nothing
  exact runQuery_logs pool session request

end

/-! ## Effects -/

/-- How often an item takes effect in the database. A statement without an answer may have
taken effect or not, and so may one that was refused, but not as stale. -/
inductive Takes (stale : SqlError → Bool) : LogItem → Nat → Prop
  | cached : Takes stale .cached 0
  | answered (s : Submission) : Takes stale (.statement s .answered) 1
  | late (s : Submission) {n : Nat} (h : n ≤ 1) : Takes stale (.statement s .late) n
  | stale (s : Submission) (e : SqlError) (h : stale e) : Takes stale (.statement s (.refused e)) 0
  | refused (s : Submission) (e : SqlError) (h : ¬stale e) {n : Nat} (hn : n ≤ 1) :
    Takes stale (.statement s (.refused e)) n

theorem Takes.le_one {stale : SqlError → Bool} {item : LogItem} {n : Nat} (h : Takes stale item n) :
    n ≤ 1 := by
  cases h <;> omega

theorem applied_stale {stale : SqlError → Bool} {s : Submission} {e : SqlError} {n : Nat}
    (he : stale e) (h : Takes stale (.statement s (.refused e)) n) : n = 0 := by
  cases h with
  | stale => rfl
  | refused _ _ hnot => exact absurd he hnot

theorem applied_answered {stale : SqlError → Bool} {s : Submission} {n : Nat}
    (h : Takes stale (.statement s .answered) n) : n = 1 := by
  cases h
  rfl

/-- A statement that was tried took effect once at most, and once where it was answered. -/
theorem Tried.applied {stale : SqlError → Bool} {s : Submission} {log : List LogItem}
    {goesOn : Bool} {effects : List Nat} (h : Tried stale s log goesOn)
    (heffects : List.Forall₂ (Takes stale) log effects) :
    effects.sum ≤ 1 ∧ (goesOn → effects.sum = 1) := by
  obtain ⟨htries, hanswered, -⟩ := h
  cases htries with
  | none =>
    cases heffects
    refine ⟨Nat.zero_le 1, fun hgo => ?_⟩
    obtain ⟨s', hlast⟩ := hanswered hgo
    cases hlast
  | once o =>
    cases heffects with
    | cons hn hrest =>
      cases hrest
      refine ⟨hn.le_one, fun hgo => ?_⟩
      obtain ⟨s', hlast⟩ := hanswered hgo
      cases hlast
      exact applied_answered hn
  | again e o he =>
    cases heffects with
    | cons hn hrest =>
      cases hrest with
      | @cons _ m _ _ hm hrest =>
        cases hrest
        obtain rfl := applied_stale he hn
        show 0 + (m + 0) ≤ 1 ∧ (goesOn → 0 + (m + 0) = 1)
        have hone := hm.le_one
        refine ⟨by omega, fun hgo => ?_⟩
        obtain ⟨s', hlast⟩ := hanswered hgo
        cases hlast
        have := applied_answered hm
        omega

/-- The log of a run of `execute` on a plain binding. -/
def callLog (lib : CallLib δ) (rt : Runtime) (env : Nat → (q : Question δ) → Answer q) (polls : Nat)
    (request : BackendRequest) : List LogItem :=
  Prog.logged logItem env 0 (executeInnerImpl lib rt polls request)

/-- The statement of a call takes effect once at most. It does exactly once where the call
returns a response that is not from the cache. -/
theorem applied_at_most_once (lib : CallLib δ) {rt : Runtime} (hplain : rt.awaitRt = none)
    (env : Nat → (q : Question δ) → Answer q) (polls : Nat) (request : BackendRequest)
    {effects : List Nat}
    (heffects : List.Forall₂ (Takes lib.isRetryableStale) (callLog lib rt env polls request) effects) :
    effects.sum ≤ 1 ∧
      ((Prog.result env 0 (executeInnerImpl lib rt polls request)).isOk →
        .cached ∉ callLog lib rt env polls request → effects.sum = 1) := by
  have hlog : CallLog lib.isRetryableStale rt.stmt _ (callLog lib rt env polls request) :=
    plain_tries lib hplain polls request env 0
  generalize callLog lib rt env polls request = log at hlog heffects
  cases hlog with
  | cached =>
    cases heffects with
    | cons hn hrest =>
      cases hrest
      exact ⟨hn.le_one, fun _ h => absurd List.mem_cons_self h⟩
  | tried s hstmt h => exact ⟨(h.applied heffects).1, fun hok _ => (h.applied heffects).2 hok⟩

/-- A server whose plans went stale before the first statement. -/
def stalePlan : SqlError := .execute "cached plan must not change result type"

def staleLib : CallLib String := { scanLib with isRetryableStale := fun e => e = stalePlan }

def staleOnce : Nat → (q : Question String) → Answer q
  | 0, .submitWithin _ s => (some (.error stalePlan) : Option (Except SqlError s.how.Reply))
  | _, q => answering (fun _ => [.obj [("id", .ofNat 7)]]) q

/-- The registered query of all orders. -/
def allOrders : Runtime := ordersRuntime ⟨"postgres://app@db/orders", .empty, Pool.CredConfig.identifiers_empty⟩

def allOrdersQuery : Submission :=
  ⟨.pool .registered, .execute, allOrders.stmt, [], allOrders.sessionVars⟩

theorem stale_query_applied_once :
    callLog staleLib allOrders staleOnce 0 { payload := none } =
        [.statement allOrdersQuery (.refused stalePlan), .statement allOrdersQuery .answered] ∧
      [0, 1].sum = 1 := by
  have hlog : callLog staleLib allOrders staleOnce 0 { payload := none } =
      [.statement allOrdersQuery (.refused stalePlan), .statement allOrdersQuery .answered] := by
    decide
  have heffects : List.Forall₂ (Takes staleLib.isRetryableStale)
      (callLog staleLib allOrders staleOnce 0 { payload := none }) [0, 1] := by
    rw [hlog]
    exact .cons (.stale _ _ (by decide)) (.cons (.answered _) .nil)
  refine ⟨hlog, (applied_at_most_once staleLib rfl staleOnce 0 _ heffects).2 (by decide) ?_⟩
  rw [hlog]
  decide

end McpgSql.Execute
