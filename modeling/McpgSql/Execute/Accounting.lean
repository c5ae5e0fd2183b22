import McpgSql.Breaker.Circuit
import McpgSql.Execute.Entries

/-!
# The accounting of calls

A call of a binding with a `cost` block is to emit one signal: a charge where it
returns a response, and a refund where it fails. A part of a call is `Quiet` if it
emits nothing, and it `Settles` if it emits nothing where it goes on, and one refund
where it fails. What follows a quiet part has to account for the call, and the quiet
part must not fail (`accountedOnce_bind_quiet`); after a part that settles only what
is reached has to (`accountedOnce_bind_settles`).

* `execute_accounted_iff`: a call is accounted for exactly where it stops at no quiet
  part: it is neither refused nor answered from the cache, its credentials and
  arguments are in order, and the price of what it returns can be computed.
-/

namespace McpgSql.Execute

open Library McpgSql.Pool McpgSql.Cache McpgSql.Stream McpgSql.Breaker

/-! ## `execute` -/

section

variable {δ : Type} (lib : CallLib δ) (rt : Runtime)

/-- The answer of the breaker of the binding, where it has one. -/
def breakerAnswer (breaker : Option CircuitBreaker) (now : Nat) : Except SqlError Unit :=
  match breaker with
  | none => .ok ()
  | some b => (b.tryAdmit now).2.map fun _ => ()

/-- `execute` on a registered binding: refused while the plugin drains, or by the breaker.
What the breaker records at the end is not part of the call. -/
def execute (draining : Bool) (breaker : Option CircuitBreaker) (now polls : Nat)
    (request : BackendRequest) : Call δ BackendResponse :=
  if draining then
    ofBackend (.error (.transport "sql binding plugin is draining; refusing new requests"))
  else do
    ofSql lib (breakerAnswer breaker now)
    executeInnerImpl lib rt polls request

end

/-! ## Signals -/

/-- What is emitted for a call: the amount of a charge with the rows and bytes it is for,
or the reason of a refund. -/
inductive Signal where
  | charge (amount : BitVec 64) (rows bytes : Nat)
  | refund (reason : String)
deriving DecidableEq, Repr

def Question.signal? {δ : Type} : Question δ → Option Signal
  | .charge amount rows bytes => some (.charge amount rows bytes)
  | .refund reason => some (.refund reason)
  | _ => none

section

variable {δ α β : Type} (env : Nat → (q : Question δ) → Answer q) (n : Nat)

/-- The signals of a run from question `n` on. -/
def signals (p : Call δ α) : List Signal := (Prog.trace env n p).filterMap fun ev => ev.1.signal?

/-- A call that returns a response has been charged once, and one that fails has been
refunded once. Nothing is emitted for a call that has not ended. -/
def AccountedOnce (p : Call δ α) : Prop :=
  match Prog.result env n p with
  | .ok _ => ∃ amount rows bytes, signals env n p = [.charge amount rows bytes]
  | .error (.failed _) => ∃ reason, signals env n p = [.refund reason]
  | .error .running => signals env n p = []

/-- The part emits nothing, and ends. -/
def Quiet (p : Call δ α) : Prop :=
  ∀ env n, signals env n p = [] ∧ Prog.result env n p ≠ .error .running

/-- The part emits nothing where it gives a result, and one refund where it fails. -/
def Settles (p : Call δ α) : Prop :=
  ∀ env n, match Prog.result env n p with
    | .ok _ => signals env n p = []
    | .error (.failed _) => ∃ reason, signals env n p = [.refund reason]
    | .error .running => signals env n p = []

variable {env n} {p : Call δ α} {f : α → Call δ β}

theorem signals_bind_of_ok {a : α} (h : Prog.result env n p = .ok a) :
    signals env n (p >>= f) =
      signals env n p ++ signals env (n + (Prog.trace env n p).length) (f a) := by
  rw [signals, Prog.trace_bind_of_ok h, List.filterMap_append]
  rfl

theorem signals_bind_of_error {e : Stop} (h : Prog.result env n p = .error e) :
    signals env n (p >>= f) = signals env n p := by
  rw [signals, Prog.trace_bind_of_error h]
  rfl

/-- A part that emits nothing leaves the accounting to what follows it. -/
theorem accountedOnce_bind_of_ok {a : α} (h : Prog.result env n p = .ok a)
    (hs : signals env n p = []) :
    AccountedOnce env n (p >>= f) ↔
      AccountedOnce env (n + (Prog.trace env n p).length) (f a) := by
  rw [AccountedOnce, AccountedOnce, Prog.result_bind_of_ok h, signals_bind_of_ok h, hs,
    List.nil_append]

theorem accountedOnce_bind_quiet (hp : Quiet p) :
    AccountedOnce env n (p >>= f) ↔ Prog.Gives env n p fun a n => AccountedOnce env n (f a) := by
  obtain ⟨hs, hrun⟩ := hp env n
  cases h : Prog.result env n p with
  | ok a =>
    rw [accountedOnce_bind_of_ok h hs]
    constructor
    · intro hf
      exact ⟨a, h, hf⟩
    · intro ⟨a', h', hf⟩
      rw [h] at h'
      cases h'
      exact hf
  | error e =>
    constructor
    · intro hacc
      rw [AccountedOnce, Prog.result_bind_of_error h, signals_bind_of_error h, hs] at hacc
      cases e with
      | failed e => simp at hacc
      | running => exact absurd h hrun
    · intro ⟨a, h', _⟩
      rw [h] at h'
      cases h'

theorem accountedOnce_bind_settles (hp : Settles p) :
    AccountedOnce env n (p >>= f) ↔ Prog.IfGiven env n p fun a n => AccountedOnce env n (f a) := by
  have hs := hp env n
  cases h : Prog.result env n p with
  | ok a =>
    rw [h] at hs
    rw [accountedOnce_bind_of_ok h hs]
    constructor
    · intro hf a' h'
      rw [h] at h'
      cases h'
      exact hf
    · intro hf
      exact hf a h
  | error e =>
    constructor
    · intro _ a h'
      rw [h] at h'
      cases h'
    · intro _
      rw [h] at hs
      rw [AccountedOnce, Prog.result_bind_of_error h, signals_bind_of_error h]
      cases e with
      | failed e => exact hs
      | running => exact hs

theorem accountedOnce_ofBackend_bind {x : Except BackendError α} :
    AccountedOnce env n (ofBackend x >>= f) ↔ ∃ a, x = .ok a ∧ AccountedOnce env n (f a) := by
  cases x with
  | ok a =>
    constructor
    · intro h
      exact ⟨a, rfl, h⟩
    · intro ⟨a', ha, h⟩
      cases ha
      exact h
  | error e =>
    constructor
    · intro ⟨reason, h⟩
      cases h
    · intro ⟨a, h, _⟩
      cases h

theorem accountedOnce_ofSql_bind {lib : CallLib δ} {x : Except SqlError α} :
    AccountedOnce env n (ofSql lib x >>= f) ↔ ∃ a, x = .ok a ∧ AccountedOnce env n (f a) := by
  rw [ofSql, accountedOnce_ofBackend_bind]
  simp only [mapError_eq_ok]

/-- A response that nothing was charged for. -/
theorem not_accountedOnce_pure (a : α) : ¬AccountedOnce env n (pure a : Call δ α) := by
  intro ⟨amount, rows, bytes, h⟩
  cases h

end

/-! ## Quiet parts -/

namespace Quiet

variable {δ α β : Type} {lib : CallLib δ} {rt : Runtime} {p : Call δ α}

theorem pure (a : α) : Quiet (Pure.pure a : Call δ α) := fun _ _ => ⟨rfl, nofun⟩

theorem bind {f : α → Call δ β} (hp : Quiet p) (hf : ∀ a, Quiet (f a)) : Quiet (p >>= f) := by
  intro env n
  obtain ⟨hs, hrun⟩ := hp env n
  cases h : Prog.result env n p with
  | ok a =>
    obtain ⟨hs', hrun'⟩ := hf a env (n + (Prog.trace env n p).length)
    rw [signals_bind_of_ok h, Prog.result_bind_of_ok h, hs, hs']
    exact ⟨rfl, hrun'⟩
  | error e =>
    rw [signals_bind_of_error h, Prog.result_bind_of_error h, hs]
    rw [h] at hrun
    exact ⟨rfl, fun he => hrun (by simpa using he)⟩

theorem ask {q : Question δ} (h : q.signal? = none) : Quiet (Execute.ask q) := by
  intro env n
  refine ⟨?_, nofun⟩
  show List.filterMap _ [_] = []
  simp [h]

theorem ite {b : Prop} [Decidable b] {p' : Call δ α} (hp : Quiet p) (hp' : Quiet p') :
    Quiet (if b then p else p') := by
  split
  · exact hp
  · exact hp'

theorem ofBackend (x : Except BackendError α) : Quiet (Execute.ofBackend x : Call δ α) := by
  intro env n
  cases x with
  | ok a => exact ⟨rfl, nofun⟩
  | error e => exact ⟨rfl, nofun⟩

theorem ofSql (x : Except SqlError α) : Quiet (Execute.ofSql lib x) := ofBackend _

theorem resolveCreds : Quiet (Execute.resolveCreds lib rt) :=
  bind (ask rfl) fun _ => ofBackend _

theorem resolvePoolForCall : Quiet (Execute.resolvePoolForCall lib rt) := by
  rw [Execute.resolvePoolForCall]
  split
  · exact bind resolveCreds fun _ => bind (ask rfl) fun _ => ofSql _
  · exact pure _

theorem activeSessionVars : Quiet (Execute.activeSessionVars lib rt) := by
  rw [Execute.activeSessionVars]
  split
  · exact bind resolveCreds fun _ => pure _
  · exact pure _

theorem cacheLookup (bound : List BoundParam) (session : SessionVars) :
    Quiet (Execute.cacheLookup lib rt bound session) := by
  rw [Execute.cacheLookup]
  split
  · exact pure _
  · refine bind (ite (ask rfl) (pure _)) fun version => bind (ask rfl) fun found => ?_
    split
    · exact pure _
    · exact pure _
    · exact pure _
    · exact pure _

end Quiet

/-! ## Parts that settle -/

namespace Settles

variable {δ α β : Type} {lib : CallLib δ} {rt : Runtime} {c : BackendCost} {p : Call δ α}

theorem pure (a : α) : Settles (Pure.pure a : Call δ α) := fun _ _ => rfl

theorem ask {q : Question δ} (h : q.signal? = none) : Settles (Execute.ask q) := by
  intro env n
  show List.filterMap _ [_] = []
  simp [h]

theorem bind {f : α → Call δ β} (hp : Settles p) (hf : ∀ a, Settles (f a)) :
    Settles (p >>= f) := by
  intro env n
  have hs := hp env n
  cases h : Prog.result env n p with
  | ok a =>
    have hs' := hf a env (n + (Prog.trace env n p).length)
    rw [h] at hs
    rw [signals_bind_of_ok h, Prog.result_bind_of_ok h, hs]
    exact hs'
  | error e =>
    rw [h] at hs
    rw [signals_bind_of_error h, Prog.result_bind_of_error h]
    cases e with
    | failed e => exact hs
    | running => exact hs

theorem ite {b : Prop} [Decidable b] {p' : Call δ α} (hp : Settles p) (hp' : Settles p') :
    Settles (if b then p else p') := by
  split
  · exact hp
  · exact hp'

variable (hcost : rt.cost = some c)
include hcost

theorem refundAndFail (reason : String) (e : BackendError) :
    Settles (Execute.refundAndFail rt reason e : Call δ α) := by
  intro env n
  rw [Execute.refundAndFail, tryEmitRefund, hcost]
  exact ⟨reason, rfl⟩

theorem failWith (e : SqlError) : Settles (Execute.failWith lib rt e : Call δ α) :=
  refundAndFail hcost _ _

theorem submitWithin (pool : PoolHandle) (how : Submit) (stmt : PreparedStmt)
    (args : List BoundParam) (session : SessionVars) :
    Settles (Execute.submitWithin rt pool how stmt args session : Call δ _) := by
  refine bind (ask rfl) fun reply => ?_
  cases reply with
  | some reply => exact pure _
  | none => exact refundAndFail hcost _ _

theorem serialize (payload : Value) (message : String) :
    Settles (Execute.serialize lib rt payload message) := by
  rw [Execute.serialize]
  split
  · exact pure _
  · exact refundAndFail hcost _ _

theorem submitRetrying (pool : PoolHandle) (how : Submit) (bound : List BoundParam)
    (session : SessionVars) : Settles (Execute.submitRetrying lib rt pool how bound session) := by
  refine bind (submitWithin hcost _ _ _ _ _) fun reply => ?_
  cases reply with
  | ok reply => exact pure _
  | error e =>
    refine ite (bind (submitWithin hcost _ _ _ _ _) fun reply => ?_) (failWith hcost e)
    cases reply with
    | ok reply => exact pure _
    | error e => exact failWith hcost e

theorem runBatch (pool : PoolHandle) (bound : List BoundParam) (session : SessionVars) :
    Settles (Execute.runBatch lib rt pool bound session) :=
  ite (bind (submitRetrying hcost _ _ _ _) fun _ => pure _) (submitRetrying hcost _ _ _ _)

end Settles

/-! ## Charges -/

section

variable {δ α : Type} (lib : CallLib δ) (rt : Runtime)

/-- The price of a payload can be computed, where the payload can be serialized. -/
def Priced (c : BackendCost) (args : Value) (rows : Nat) (payload : Value) : Prop :=
  ∀ bytes, lib.toVec payload = .ok bytes → ∃ amount, c.compute args rows bytes.length = .ok amount

/-- The last part of a call, which returns. -/
def Returns (q : Call δ α) : Prop :=
  ∀ env n, signals env n q = [] ∧ ∃ a, Prog.result env n q = .ok a

theorem Returns.pure (a : α) : Returns (Pure.pure a : Call δ α) := fun _ _ => ⟨rfl, a, rfl⟩

variable {lib rt} {c : BackendCost} {env : Nat → (q : Question δ) → Answer q} {n : Nat} {args : Value}

theorem result_refundAndFail (reason : String) (e : BackendError) :
    Prog.result env n (refundAndFail rt reason e : Call δ α) = .error (.failed e) := by
  rw [refundAndFail, tryEmitRefund]
  cases rt.cost with
  | none => rfl
  | some c => rfl

variable (hcost : rt.cost = some c)
include hcost

theorem accountedOnce_charge_bind {rows bytes : Nat} {q : Call δ α} (hq : Returns q) :
    AccountedOnce env n (tryEmitCharge lib rt args rows bytes >>= fun _ => q) ↔
      ∃ amount, c.compute args rows bytes = .ok amount := by
  have hcharge : ∀ amount n,
      AccountedOnce env n (ask (.charge amount rows bytes) >>= fun _ => q) := by
    intro amount n
    obtain ⟨hs, a, h⟩ := hq env (n + 1)
    have hsignals : signals env n (ask (.charge amount rows bytes) >>= fun _ => q) =
        .charge amount rows bytes :: signals env (n + 1) q := rfl
    have hresult : Prog.result env n (ask (.charge amount rows bytes) >>= fun _ => q) =
        Prog.result env (n + 1) q := rfl
    rw [AccountedOnce, hsignals, hresult, h, hs]
    exact ⟨amount, rows, bytes, rfl⟩
  have hassoc : (tryEmitCharge lib rt args rows bytes >>= fun _ => q) =
      ofSql lib (c.compute args rows bytes) >>= fun amount =>
        ask (.charge amount rows bytes) >>= fun _ => q := by
    rw [tryEmitCharge, hcost]
    exact Prog.bind_assoc _ _ _
  rw [hassoc, accountedOnce_ofSql_bind]
  constructor
  · intro ⟨amount, h, _⟩
    exact ⟨amount, h⟩
  · intro ⟨amount, h⟩
    exact ⟨amount, h, hcharge amount n⟩

/-- A payload is serialized, charged for and returned. -/
theorem accountedOnce_payload {payload : Value} {message : String} {rows : Nat}
    {q : List UInt8 → Call δ α} (hq : ∀ bytes, Returns (q bytes)) :
    AccountedOnce env n (serialize lib rt payload message >>= fun bytes =>
      tryEmitCharge lib rt args rows bytes.length >>= fun _ => q bytes) ↔
        Priced lib c args rows payload := by
  rw [accountedOnce_bind_settles (Settles.serialize hcost _ _), Priced, Prog.IfGiven, serialize]
  cases h : lib.toVec payload with
  | ok bytes =>
    constructor
    · intro hacc bytes' hbytes
      cases hbytes
      exact (accountedOnce_charge_bind hcost (hq bytes)).mp (hacc bytes rfl)
    · intro hpriced bytes' hbytes
      cases hbytes
      exact (accountedOnce_charge_bind hcost (hq bytes)).mpr (hpriced bytes rfl)
  | error e =>
    constructor
    · intro _ bytes hbytes
      cases hbytes
    · intro _ bytes hbytes
      rw [result_refundAndFail] at hbytes
      cases hbytes

end

/-! ## Plain calls -/

section

variable {δ : Type} (lib : CallLib δ) (rt : Runtime)

/-- The rows that a batch is charged for. -/
def chargedRows (batch : RowBatch) : Nat :=
  if rt.rowMode = .affectedRows then batch.rowsAffected.getD 0 else batch.rows.length

/-- The payload of a stream with the token of its next page. -/
def withToken (payload : Value) : Value :=
  match rt.streamRt with
  | some streamRt =>
    if rt.rowMode = .stream then addCursor lib.cursor streamRt rt.backendName payload else payload
  | none => payload

/-- The response is stored where the call has a key. -/
def storeResponse (key : Option String) (truncated : Bool) (bytes : List UInt8) :
    Call δ BackendResponse :=
  match key, rt.cache with
  | some key, some cache => do
    let entry := (if truncated then 1 else 0) :: bytes
    let _stored : Except String Unit ← ask (.cachePut key entry cache.ttlSeconds)
    pure { payload := bytes, truncated }
  | _, _ => pure { payload := bytes, truncated }

theorem finishBatch_eq (args : Value) (batch : RowBatch) (key : Option String) :
    finishBatch lib rt args batch key =
      ofBackend (shapeResponse batch rt.rowMode rt.maxRows) >>= fun shaped =>
      serialize lib rt (withToken lib rt shaped.1) "serialize response: " >>= fun bytes =>
      tryEmitCharge lib rt args (chargedRows rt batch) bytes.length >>= fun _ =>
      storeResponse rt key shaped.2 bytes := rfl

theorem Returns.storeResponse (key : Option String) (truncated : Bool) (bytes : List UInt8) :
    Returns (Execute.storeResponse rt key truncated bytes : Call δ BackendResponse) := by
  intro env n
  unfold Execute.storeResponse
  split
  · exact ⟨rfl, _, rfl⟩
  · exact ⟨rfl, _, rfl⟩

/-- What the caller gets of the result sets, and whether rows were cut off. -/
def setsPayload (sets : List (List Value)) : Value × Bool :=
  let total := (sets.map List.length).sum
  let truncated : Bool := total > rt.maxRows
  let sets := if truncated then cutSets rt.maxRows sets else sets
  (.object [("result_sets", .arr (sets.map .arr)), ("truncated", .bool truncated)], truncated)

theorem runResultSets_eq (args : Value) (pool : PoolHandle) (bound : List BoundParam)
    (session : SessionVars) :
    runResultSets lib rt args pool bound session =
      submitWithin rt pool .executeMultiResult rt.stmt bound session >>= fun reply =>
        match (reply : Except SqlError (List (List Value))) with
        | .error e => failWith lib rt e
        | .ok sets =>
          serialize lib rt (setsPayload rt sets).1 "serialize response: " >>= fun bytes =>
          tryEmitCharge lib rt args (sets.map List.length).sum bytes.length >>= fun _ =>
          pure { payload := bytes, truncated := (setsPayload rt sets).2 } := rfl

variable (c : BackendCost) (env : Nat → (q : Question δ) → Answer q)

/-- A batch has the shape of the row mode, and its price can be computed. -/
def BatchPriced (args : Value) (batch : RowBatch) : Prop :=
  ∃ shaped, shapeResponse batch rt.rowMode rt.maxRows = .ok shaped ∧
    Priced lib c args (chargedRows rt batch) (withToken lib rt shaped.1)

/-- The price of what the driver answers from question `n` on can be computed. -/
def AnswerPriced (args : Value) (pool : PoolHandle) (bound : List BoundParam)
    (session : SessionVars) (n : Nat) : Prop :=
  if rt.rowMode = .resultSets then
    Prog.IfGiven env n (submitWithin rt pool .executeMultiResult rt.stmt bound session) fun reply _ =>
      ∀ sets, reply = .ok sets →
        Priced lib c args (sets.map List.length).sum (setsPayload rt sets).1
  else Prog.IfGiven env n (runBatch lib rt pool bound session) fun batch _ =>
    BatchPriced lib rt c args batch

/-- A plain call from question `n` on stops at no quiet part: its credentials give a pool
and session variables, its arguments bind, nothing is cached for it, and the price of what
the driver answers can be computed. -/
def PlainAccounted (request : BackendRequest) (n : Nat) : Prop :=
  Prog.Gives env n (resolvePoolForCall lib rt) fun pool n =>
  Prog.Gives env n (activeSessionVars lib rt) fun session n =>
  ∃ args, callArgs lib.redact lib.cursor rt.toProfileRuntime rt.backendName request = .ok args ∧
  ∃ bound, collectBoundParams args rt.stmt.paramOrder = .ok bound ∧
  Prog.Gives env n (cacheLookup lib rt bound session) fun found n =>
  ∃ key, found = .inr key ∧ AnswerPriced lib rt c env args pool bound session n

variable {lib rt c env} {n : Nat} {args : Value} {pool : PoolHandle} {bound : List BoundParam}
  {session : SessionVars} (hcost : rt.cost = some c)
include hcost

/-- A statement that failed is refunded. -/
theorem accountedOnce_failWith {α : Type} (e : SqlError) :
    AccountedOnce env n (failWith lib rt e : Call δ α) := by
  rw [failWith, refundAndFail, tryEmitRefund, hcost]
  exact ⟨_, rfl⟩

theorem runResultSets_accounted_iff :
    AccountedOnce env n (runResultSets lib rt args pool bound session) ↔
      Prog.IfGiven env n (submitWithin rt pool .executeMultiResult rt.stmt bound session)
        fun reply _ => ∀ sets, reply = .ok sets →
          Priced lib c args (sets.map List.length).sum (setsPayload rt sets).1 := by
  rw [runResultSets_eq, accountedOnce_bind_settles (Settles.submitWithin hcost _ _ _ _ _)]
  refine Prog.ifGiven_congr fun reply n => ?_
  cases reply with
  | error e => exact iff_of_true (accountedOnce_failWith hcost e) nofun
  | ok sets =>
    refine (accountedOnce_payload hcost fun _ => Returns.pure _).trans ?_
    constructor
    · intro hpriced sets' hsets
      cases hsets
      exact hpriced
    · intro hpriced
      exact hpriced sets rfl

theorem finishBatch_accounted_iff {batch : RowBatch} {key : Option String} :
    AccountedOnce env n (finishBatch lib rt args batch key) ↔ BatchPriced lib rt c args batch := by
  rw [finishBatch_eq, accountedOnce_ofBackend_bind]
  refine exists_congr fun shaped => and_congr_right fun _ => ?_
  exact accountedOnce_payload hcost fun _ => Returns.storeResponse rt _ _ _

theorem runQuery_accounted_iff {request : BackendRequest} :
    AccountedOnce env n (runQuery lib rt pool session request) ↔
      ∃ args, callArgs lib.redact lib.cursor rt.toProfileRuntime rt.backendName request = .ok args ∧
      ∃ bound, collectBoundParams args rt.stmt.paramOrder = .ok bound ∧
      Prog.Gives env n (cacheLookup lib rt bound session) fun found n =>
      ∃ key, found = .inr key ∧ AnswerPriced lib rt c env args pool bound session n := by
  rw [runQuery, accountedOnce_ofBackend_bind]
  refine exists_congr fun args => and_congr_right fun _ => ?_
  rw [accountedOnce_ofSql_bind]
  refine exists_congr fun bound => and_congr_right fun _ => ?_
  rw [accountedOnce_bind_quiet (Quiet.cacheLookup bound session)]
  refine Prog.gives_congr fun found n => ?_
  cases found with
  | inl response => exact iff_of_false (not_accountedOnce_pure response) nofun
  | inr key =>
    show AccountedOnce env _ (if rt.rowMode = .resultSets then _ else _) ↔ _
    simp only [Sum.inr.injEq, exists_eq_left', AnswerPriced]
    split
    · exact runResultSets_accounted_iff hcost
    · rw [accountedOnce_bind_settles (Settles.runBatch hcost _ _ _)]
      exact Prog.ifGiven_congr fun batch n => finishBatch_accounted_iff hcost

/-- A plain call is accounted for exactly where it stops at no quiet part. -/
theorem plain_accounted_iff {request : BackendRequest} (hplain : rt.awaitRt = none) {polls : Nat} :
    AccountedOnce env n (executeInnerImpl lib rt polls request) ↔
      PlainAccounted lib rt c env request n := by
  rw [executeInnerImpl, hplain]
  show AccountedOnce env n (resolvePoolForCall lib rt >>= _) ↔ _
  rw [accountedOnce_bind_quiet Quiet.resolvePoolForCall]
  refine Prog.gives_congr fun pool n => ?_
  rw [accountedOnce_bind_quiet Quiet.activeSessionVars]
  exact Prog.gives_congr fun session n => runQuery_accounted_iff hcost

end

/-! ## Calls of an `await` block -/

section

variable {δ : Type} (lib : CallLib δ) (rt : Runtime)

/-- A statement of the block over what is bound to it. -/
def submitBound (stmt : PreparedStmt) (bound : List BoundParam) : Call δ RowBatch := do
  let reply : Except SqlError RowBatch ←
    submitWithin rt .registered .execute stmt bound rt.sessionVars
  match reply with
  | .ok batch => pure batch
  | .error e => failWith lib rt e

/-- The row that the check query is left with, and the polls by then. -/
def awaitRow (checkStmt : PreparedStmt) (bound : List BoundParam) (args : Value) (deadline : Nat) :
    Nat → Nat → Call δ (Value × Nat)
  | _, 0 => .fail .running
  | polls, more + 1 => do
    let batch ← submitBound lib rt checkStmt bound
    let row := batch.rows.head?.getD .null
    if rt.awaitCfg.predicate row args then pure (row, polls + 1)
    else do
      let now : Nat ← ask .now
      if now ≥ deadline then refundAndFail rt "timeout" (.timeout rt.awaitCfg.timeoutMs)
      else do
        let drained : Bool ← ask (.sleep (min (rt.awaitCfg.pollIntervalMs * 1000000) (deadline - now)))
        if drained then refundAndFail rt "timeout" (.timeout rt.awaitCfg.timeoutMs)
        else awaitRow checkStmt bound args deadline (polls + 1) more

/-- The rows that a matched row is charged for. -/
def chargedRow (row : Value) : Nat := if row.isNull then 0 else 1

/-- The response of a matched row. -/
def answerRow (args row : Value) (polls : Nat) : Call δ BackendResponse := do
  let payload ← serialize lib rt row ("await check row serialization (binding=" ++
    rt.backendName ++ ", driver=" ++ rt.driverKind.asStr ++ ", polls=" ++ toString polls ++ "): ")
  tryEmitCharge lib rt args (chargedRow row) payload.length
  pure { payload, truncated := false }

/-- The wait for a row, from its start on. -/
def awaitMatch (checkStmt : PreparedStmt) (bound : List BoundParam) (args : Value) (polls : Nat) :
    Call δ (Value × Nat) := do
  let start : Nat ← ask .now
  awaitRow lib rt checkStmt bound args (start + rt.awaitCfg.timeoutMs * 1000000) 0 polls

/-- The loop of the check query, from its start on. -/
def awaitFrom (checkStmt : PreparedStmt) (args : Value) (polls : Nat) : Call δ BackendResponse := do
  let start : Nat ← ask .now
  pollLoop lib rt checkStmt args (start + rt.awaitCfg.timeoutMs * 1000000) 0 polls

variable {lib rt} {args : Value} {bound : List BoundParam}

theorem submitAwait_eq {stmt : PreparedStmt}
    (hbind : collectBoundParams args stmt.paramOrder = .ok bound) :
    submitAwait lib rt stmt args = submitBound lib rt stmt bound := by
  rw [submitAwait, hbind]
  rfl

theorem refundAndFail_bind {α β : Type} (reason : String) (e : BackendError) (f : α → Call δ β) :
    (refundAndFail rt reason e >>= f) = refundAndFail rt reason e := by
  rw [refundAndFail, refundAndFail, Prog.bind_assoc]
  rfl

/-- The loop is a wait for a row, and its response. -/
theorem pollLoop_eq {checkStmt : PreparedStmt}
    (hbind : collectBoundParams args checkStmt.paramOrder = .ok bound) (deadline polls more : Nat) :
    pollLoop lib rt checkStmt args deadline polls more =
      awaitRow lib rt checkStmt bound args deadline polls more >>= fun found =>
        answerRow lib rt args found.1 found.2 := by
  induction more generalizing polls with
  | zero => rfl
  | succ more ih =>
    rw [pollLoop, awaitRow, submitAwait_eq hbind, Prog.bind_assoc]
    refine congrArg _ (funext fun batch => ?_)
    by_cases hmatch : rt.awaitCfg.predicate (batch.rows.head?.getD .null) args
    · simp only [hmatch, if_true]
      rfl
    · simp only [hmatch, Bool.false_eq_true, if_false]
      refine Eq.trans (congrArg _ (funext fun now => ?_)) (Prog.bind_assoc _ _ _).symm
      by_cases hlate : now ≥ deadline
      · simp only [hlate, if_true]
        exact (refundAndFail_bind _ _ _).symm
      · simp only [hlate, if_false]
        refine Eq.trans (congrArg _ (funext fun drained => ?_)) (Prog.bind_assoc _ _ _).symm
        cases drained with
        | true => exact (refundAndFail_bind _ _ _).symm
        | false => exact ih (polls + 1)

theorem awaitFrom_eq {checkStmt : PreparedStmt}
    (hbind : collectBoundParams args checkStmt.paramOrder = .ok bound) (polls : Nat) :
    awaitFrom lib rt checkStmt args polls =
      awaitMatch lib rt checkStmt bound args polls >>= fun found =>
        answerRow lib rt args found.1 found.2 := by
  refine Eq.trans (congrArg (bind (ask .now : Call δ Nat)) (funext fun start => ?_))
    (Prog.bind_assoc _ _ _).symm
  exact pollLoop_eq hbind _ 0 polls

theorem executeAwaitLoop_eq (aw : AwaitRuntime) (polls : Nat) (request : BackendRequest) :
    executeAwaitLoop lib rt aw polls request =
      ofBackend (callArgs lib.redact lib.cursor rt.toProfileRuntime rt.backendName request) >>=
        fun args => fireTrigger lib rt args aw.triggerStmt >>= fun _ =>
          awaitFrom lib rt aw.checkStmt args polls := rfl

variable {c : BackendCost} {env : Nat → (q : Question δ) → Answer q} {n : Nat}
  (hcost : rt.cost = some c)
include hcost

theorem Settles.submitBound (stmt : PreparedStmt) :
    Settles (Execute.submitBound lib rt stmt bound) := by
  refine bind (submitWithin hcost _ _ _ _ _) fun reply => ?_
  cases reply with
  | ok batch => exact pure _
  | error e => exact failWith hcost e

theorem Settles.awaitRow (checkStmt : PreparedStmt) (deadline polls more : Nat) :
    Settles (Execute.awaitRow lib rt checkStmt bound args deadline polls more) := by
  induction more generalizing polls with
  | zero => exact fun _ _ => rfl
  | succ more ih =>
    refine bind (submitBound hcost checkStmt) fun batch => ?_
    refine ite (pure _) (bind (ask rfl) fun now => ?_)
    refine ite (refundAndFail hcost _ _) (bind (ask rfl) fun drained => ?_)
    exact ite (refundAndFail hcost _ _) (ih (polls + 1))

theorem Settles.awaitMatch (checkStmt : PreparedStmt) (polls : Nat) :
    Settles (Execute.awaitMatch lib rt checkStmt bound args polls) :=
  bind (ask rfl) fun _ => awaitRow hcost _ _ _ _

theorem answerRow_accounted_iff {row : Value} {polls : Nat} :
    AccountedOnce env n (answerRow lib rt args row polls) ↔
      Priced lib c args (chargedRow row) row :=
  accountedOnce_payload hcost fun _ => Returns.pure _

end

section

variable {δ : Type} (lib : CallLib δ) (rt : Runtime) (c : BackendCost)
  (env : Nat → (q : Question δ) → Answer q)

/-- The arguments bind to the trigger, where there is one. -/
def TriggerBinds (aw : AwaitRuntime) (args : Value) : Prop :=
  ∀ stmt, aw.triggerStmt = some stmt → ∃ bound, collectBoundParams args stmt.paramOrder = .ok bound

/-- A call of an `await` block stops at no quiet part: its arguments bind to the trigger
and, where that succeeds, to the check query, and the price of the row that is matched can
be computed. -/
def AwaitAccounted (aw : AwaitRuntime) (polls : Nat) (request : BackendRequest) (n : Nat) : Prop :=
  ∃ args, callArgs lib.redact lib.cursor rt.toProfileRuntime rt.backendName request = .ok args ∧
  TriggerBinds aw args ∧
  Prog.IfGiven env n (fireTrigger lib rt args aw.triggerStmt) fun _ n =>
  ∃ bound, collectBoundParams args aw.checkStmt.paramOrder = .ok bound ∧
  Prog.IfGiven env n (awaitMatch lib rt aw.checkStmt bound args polls) fun found _ =>
    Priced lib c args (chargedRow found.1) found.1

variable {lib rt c env} {aw : AwaitRuntime} {n : Nat} {args : Value} (hcost : rt.cost = some c)
include hcost

theorem trigger_accounted_iff {α : Type} {f : Unit → Call δ α} :
    AccountedOnce env n (fireTrigger lib rt args aw.triggerStmt >>= f) ↔
      TriggerBinds aw args ∧ Prog.IfGiven env n (fireTrigger lib rt args aw.triggerStmt)
        fun a n => AccountedOnce env n (f a) := by
  cases htrigger : aw.triggerStmt with
  | none =>
    rw [fireTrigger, accountedOnce_bind_settles (Settles.pure ())]
    refine ⟨fun h => ⟨?_, h⟩, fun h => h.2⟩
    intro stmt hstmt
    rw [htrigger] at hstmt
    cases hstmt
  | some stmt =>
    cases hbind : collectBoundParams args stmt.paramOrder with
    | error e =>
      refine iff_of_false ?_ ?_
      · rw [fireTrigger, submitAwait, hbind]
        intro ⟨reason, h⟩
        cases h
      · intro ⟨h, _⟩
        obtain ⟨bound, hbound⟩ := h stmt htrigger
        rw [hbind] at hbound
        cases hbound
    | ok bound =>
      have hsettles : Settles (fireTrigger lib rt args (some stmt)) := by
        rw [fireTrigger, submitAwait_eq hbind]
        exact Settles.bind (Settles.submitBound hcost stmt) fun _ => Settles.pure ()
      rw [accountedOnce_bind_settles hsettles]
      refine ⟨fun h => ⟨?_, h⟩, fun h => h.2⟩
      intro stmt' hstmt
      rw [htrigger] at hstmt
      cases hstmt
      exact ⟨bound, hbind⟩

theorem poll_accounted_iff {polls : Nat} :
    AccountedOnce env n (awaitFrom lib rt aw.checkStmt args (polls + 1)) ↔
      ∃ bound, collectBoundParams args aw.checkStmt.paramOrder = .ok bound ∧
        Prog.IfGiven env n (awaitMatch lib rt aw.checkStmt bound args (polls + 1)) fun found _ =>
          Priced lib c args (chargedRow found.1) found.1 := by
  cases hbind : collectBoundParams args aw.checkStmt.paramOrder with
  | error e =>
    refine iff_of_false ?_ nofun
    intro h
    have hclock : Quiet (ask .now : Call δ Nat) := Quiet.ask rfl
    obtain ⟨start, _, h⟩ := (accountedOnce_bind_quiet hclock).mp h
    rw [pollLoop, submitAwait, hbind] at h
    obtain ⟨reason, h⟩ := h
    cases h
  | ok bound =>
    rw [awaitFrom_eq hbind, accountedOnce_bind_settles (Settles.awaitMatch hcost _ _)]
    simp only [Except.ok.injEq, exists_eq_left', answerRow_accounted_iff hcost]

/-- A call of an `await` block is accounted for exactly where it stops at no quiet part. -/
theorem await_accounted_iff {request : BackendRequest} (hawait : rt.awaitRt = some aw)
    {polls : Nat} :
    AccountedOnce env n (executeInnerImpl lib rt (polls + 1) request) ↔
      AwaitAccounted lib rt c env aw (polls + 1) request n := by
  rw [executeInnerImpl, hawait]
  show AccountedOnce env n (executeAwaitLoop lib rt aw (polls + 1) request) ↔ _
  rw [executeAwaitLoop_eq, accountedOnce_ofBackend_bind]
  refine exists_congr fun args => and_congr_right fun _ => ?_
  rw [trigger_accounted_iff hcost]
  exact and_congr_right fun _ => Prog.ifGiven_congr fun _ n => poll_accounted_iff hcost

end

/-! ## `execute` -/

section

variable {δ : Type} (lib : CallLib δ) (rt : Runtime) (c : BackendCost)
  (env : Nat → (q : Question δ) → Answer q)

/-- What is left of a call that is neither refused by the drain nor by the breaker stops at
no quiet part. -/
def InnerAccounted (polls : Nat) (request : BackendRequest) : Prop :=
  match rt.awaitRt with
  | none => PlainAccounted lib rt c env request 0
  | some aw => AwaitAccounted lib rt c env aw polls request 0

/-- A call of a binding with a `cost` block is charged once or refunded once exactly where
it is admitted and stops at no part that emits nothing. -/
theorem execute_accounted_iff (hcost : rt.cost = some c) (draining : Bool)
    (breaker : Option CircuitBreaker) (now polls : Nat) (request : BackendRequest) :
    AccountedOnce env 0 (execute lib rt draining breaker now (polls + 1) request) ↔
      draining = false ∧ breakerAnswer breaker now = .ok () ∧
        InnerAccounted lib rt c env (polls + 1) request := by
  cases draining with
  | true =>
    refine iff_of_false ?_ nofun
    intro ⟨reason, h⟩
    cases h
  | false =>
    show AccountedOnce env 0 (ofSql lib (breakerAnswer breaker now) >>= fun _ => _) ↔ _
    rw [accountedOnce_ofSql_bind]
    have hinner : AccountedOnce env 0 (executeInnerImpl lib rt (polls + 1) request) ↔
        InnerAccounted lib rt c env (polls + 1) request := by
      rw [InnerAccounted]
      split
      · rename_i hplain
        exact plain_accounted_iff hcost hplain
      · rename_i hawait
        exact await_accounted_iff hcost hawait
    constructor
    · intro ⟨_, hadmit, h⟩
      exact ⟨rfl, hadmit, hinner.mp h⟩
    · intro ⟨_, hadmit, h⟩
      exact ⟨(), hadmit, hinner.mpr h⟩

end

/-- A binding that is paid for by the call, whose query has a parameter. -/
def pricedOrders : Runtime :=
  { ordersRuntime ⟨"postgres://app@db/orders", .empty, Pool.CredConfig.identifiers_empty⟩ with
    stmt := ⟨"SELECT * FROM orders WHERE id = $1", ["id"], .postgres⟩
    cost := some ⟨fun _ _ _ => .ok 0⟩ }

/-- A call for one order. -/
def oneOrder : BackendRequest := { payload := some (.ok (.obj [("id", .str "7")])) }

theorem oneOrder_accounted :
    AccountedOnce (fun _ => answering fun _ => []) 0
      (execute scanLib pricedOrders false none 0 1 oneOrder) := by
  refine (execute_accounted_iff scanLib pricedOrders ⟨fun _ _ _ => .ok 0⟩ _ rfl false none 0 0
    oneOrder).mpr ⟨rfl, rfl, ?_⟩
  refine ⟨.registered, by decide, pricedOrders.sessionVars, by decide, ?_⟩
  refine ⟨_, rfl, _, rfl, .inr none, rfl, none, rfl, ?_⟩
  intro batch h
  exact ⟨_, rfl, fun bytes _ => ⟨_, rfl⟩⟩

/-- A call without the parameter fails, and nothing is given back for it. -/
theorem missingParam_not_accounted :
    ¬AccountedOnce (fun _ => answering fun _ => []) 0
      (execute scanLib pricedOrders false none 0 1 { payload := none }) := by
  intro ⟨reason, h⟩
  cases h

end McpgSql.Execute
