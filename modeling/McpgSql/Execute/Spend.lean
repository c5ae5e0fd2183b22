import McpgSql.Execute.Accounting
import McpgSql.Execute.Supported
import Mathlib.Algebra.Order.BigOperators.Group.List

/-!
# The spend of a binding

`cost.max_per_call` is the most that one call may cost. `Once` is said of the parts of a
call that emit one signal at most, and `spend_bounded` of any calls of a registered profile:
each amount that they are charged is a finite one, none is negative, and together they are
no more than the cap for each call. Only `execute` charges.
-/

namespace McpgSql.Execute

open Library Template McpgSql.Cache McpgSql.Listing McpgSql.Pool McpgSql.Stream

variable {δ α β : Type}

/-! ## One signal at most -/

/-- The part emits one signal at most. -/
def Once (p : Call δ α) : Prop := ∀ env n, (signals env n p).length ≤ 1

/-- The part emits one signal at most, and none where it gives a result. -/
def Spares (p : Call δ α) : Prop :=
  Once p ∧ ∀ env n a, Prog.result env n p = .ok a → signals env n p = []

section

variable {lib : CallLib δ} {rt : Runtime} {c : BackendCost} {p : Call δ α} {f : α → Call δ β}

theorem Quiet.spares (hp : Quiet p) : Spares p :=
  ⟨fun env n => by rw [(hp env n).1]; exact Nat.zero_le 1, fun env n _ _ => (hp env n).1⟩

theorem Settles.spares (hp : Settles p) : Spares p := by
  refine ⟨fun env n => ?_, fun env n a h => ?_⟩
  · have hs := hp env n
    cases h : Prog.result env n p with
    | ok a =>
      rw [h] at hs
      exact hs ▸ Nat.zero_le 1
    | error e =>
      rw [h] at hs
      cases e with
      | failed e =>
        obtain ⟨reason, hs⟩ := hs
        exact hs ▸ le_refl 1
      | running => exact hs ▸ Nat.zero_le 1
  · have hs := hp env n
    rwa [h] at hs

theorem Returns.once {q : Call δ α} (hq : Returns q) : Once q := by
  intro env n
  rw [(hq env n).1]
  exact Nat.zero_le 1

theorem Spares.once_bind (hp : Spares p) (hf : ∀ a, Once (f a)) : Once (p >>= f) := by
  intro env n
  cases h : Prog.result env n p with
  | ok a =>
    rw [signals_bind_of_ok h, hp.2 env n a h, List.nil_append]
    exact hf a env _
  | error e =>
    rw [signals_bind_of_error h]
    exact hp.1 env n

theorem Spares.bind (hp : Spares p) (hf : ∀ a, Spares (f a)) : Spares (p >>= f) := by
  refine ⟨hp.once_bind fun a => (hf a).1, fun env n b h => ?_⟩
  cases hres : Prog.result env n p with
  | ok a =>
    rw [Prog.result_bind_of_ok hres] at h
    rw [signals_bind_of_ok hres, hp.2 env n a hres, List.nil_append]
    exact (hf a).2 env _ b h
  | error e =>
    rw [Prog.result_bind_of_error hres] at h
    cases h

theorem Once.ite {b : Prop} [Decidable b] {p' : Call δ α} (hp : Once p) (hp' : Once p') :
    Once (if b then p else p') := by
  split
  · exact hp
  · exact hp'

variable (hcost : rt.cost = some c)
include hcost

/-- A payload is serialized, charged for and returned. -/
theorem Once.payload {args payload : Value} {message : String} {rows : Nat}
    {q : List UInt8 → Call δ α} (hq : ∀ bytes, Returns (q bytes)) :
    Once (serialize lib rt payload message >>= fun bytes =>
      tryEmitCharge lib rt args rows bytes.length >>= fun _ => q bytes) := by
  refine (Settles.serialize hcost _ _).spares.once_bind fun bytes => ?_
  have hassoc : (tryEmitCharge lib rt args rows bytes.length >>= fun _ => q bytes) =
      ofSql lib (c.compute args rows bytes.length) >>= fun amount =>
        ask (.charge amount rows bytes.length) >>= fun _ => q bytes := by
    rw [tryEmitCharge, hcost]
    exact Prog.bind_assoc _ _ _
  rw [hassoc]
  refine (Quiet.ofSql _).spares.once_bind fun amount env n => ?_
  show (Signal.charge amount rows bytes.length :: signals env (n + 1) (q bytes)).length ≤ 1
  rw [(hq bytes env (n + 1)).1]
  rfl

theorem runResultSets_once (args : Value) (pool : PoolHandle) (bound : List BoundParam)
    (session : SessionVars) : Once (runResultSets lib rt args pool bound session) := by
  rw [runResultSets_eq]
  refine (Settles.submitWithin hcost _ _ _ _ _).spares.once_bind fun reply => ?_
  cases reply with
  | error e => exact (Settles.failWith hcost e).spares.1
  | ok sets => exact Once.payload hcost fun _ => Returns.pure _

theorem finishBatch_once (args : Value) (batch : RowBatch) (key : Option String) :
    Once (finishBatch lib rt args batch key) := by
  rw [finishBatch_eq]
  refine (Quiet.ofBackend _).spares.once_bind fun shaped => ?_
  exact Once.payload hcost fun _ => Returns.storeResponse rt _ _ _

theorem runQuery_once (pool : PoolHandle) (session : SessionVars) (request : BackendRequest) :
    Once (runQuery lib rt pool session request) := by
  refine (Quiet.ofBackend _).spares.once_bind fun args => ?_
  refine (Quiet.ofSql _).spares.once_bind fun bound => ?_
  refine (Quiet.cacheLookup _ _).spares.once_bind fun found => ?_
  cases found with
  | inl response => exact (Returns.pure response).once
  | inr key =>
    refine Once.ite (runResultSets_once hcost _ _ _ _) ?_
    exact (Settles.runBatch hcost _ _ _).spares.once_bind fun batch => finishBatch_once hcost _ _ _

theorem submitAwait_spares (stmt : PreparedStmt) (args : Value) :
    Spares (submitAwait lib rt stmt args) := by
  refine (Quiet.ofSql _).spares.bind fun bound => ?_
  exact (Settles.submitBound hcost stmt).spares

theorem pollLoop_once (checkStmt : PreparedStmt) (args : Value) (deadline polls more : Nat) :
    Once (pollLoop lib rt checkStmt args deadline polls more) := by
  induction more generalizing polls with
  | zero => exact fun _ _ => Nat.zero_le 1
  | succ more ih =>
    refine (submitAwait_spares hcost _ _).once_bind fun batch => ?_
    refine Once.ite (Once.payload hcost fun _ => Returns.pure _) ?_
    refine (Settles.ask rfl).spares.once_bind fun (now : Nat) => ?_
    refine Once.ite (Settles.refundAndFail hcost _ _).spares.1 ?_
    refine (Settles.ask rfl).spares.once_bind fun (drained : Bool) => ?_
    exact Once.ite (Settles.refundAndFail hcost _ _).spares.1 (ih (polls + 1))

theorem fireTrigger_spares (args : Value) (trigger : Option PreparedStmt) :
    Spares (fireTrigger lib rt args trigger) := by
  cases trigger with
  | none => exact (Settles.pure ()).spares
  | some stmt => exact (submitAwait_spares hcost _ _).bind fun _ => (Settles.pure ()).spares

/-- A call of a binding with a price emits one signal at most. -/
theorem executeInnerImpl_once (polls : Nat) (request : BackendRequest) :
    Once (executeInnerImpl lib rt polls request) := by
  rw [executeInnerImpl]
  cases rt.awaitRt with
  | some aw =>
    refine (Quiet.ofBackend _).spares.once_bind fun args => ?_
    refine (fireTrigger_spares hcost _ _).once_bind fun _ => ?_
    exact (Settles.ask rfl).spares.once_bind fun start => pollLoop_once hcost _ _ _ _ _
  | none =>
    refine Quiet.resolvePoolForCall.spares.once_bind fun pool => ?_
    exact Quiet.activeSessionVars.spares.once_bind fun session => runQuery_once hcost _ _ _

end

/-- What asks only what a profile without a price may ask emits nothing. -/
theorem once_of_free {p : Call δ α} {rt : Runtime} (hcost : rt.cost = none) (h : AskedCall rt p) :
    Once p := by
  intro env n
  have hnone : signals env n p = [] := by
    refine List.filterMap_eq_nil_iff.mpr fun ev hev => ?_
    have hasked := h.mem_trace hev
    obtain ⟨q, answer⟩ := ev
    cases q with
    | charge amount rows bytes =>
      obtain ⟨c, -, hsome, -⟩ := hasked
      rw [hcost] at hsome
      cases hsome
    | refund reason =>
      rw [Question.Asked, hcost] at hasked
      cases hasked
    | _ => rfl
  rw [hnone]
  exact Nat.zero_le 1

theorem Once.bind_pure {p : Call δ α} (hp : Once p) (g : α → β) :
    Once (p >>= fun a => pure (g a)) := by
  intro env n
  have htrace : Prog.trace env n (p >>= fun a => pure (g a)) = Prog.trace env n p :=
    Prog.trace_bind_pure p g
  rw [signals, htrace]
  exact hp env n

theorem Entry.call_once {lib : CallLib δ} {rt : Runtime} {c : BackendCost} (hcost : rt.cost = some c)
    (entry : Entry) : Once (entry.call lib rt) := by
  -- the other entry points ask for no charge and no refund, whatever the profile
  have hfree : ∀ {α : Type} {p : Call δ α}, AskedCall { rt with cost := none } p → Once p :=
    fun h => once_of_free rfl h
  cases entry with
  | execute polls request => exact (executeInnerImpl_once hcost polls request).bind_pure _
  | executeTransaction group => exact (hfree (AskedCall.executeTransaction _)).bind_pure _
  | listResources cursor => exact (hfree (AskedCall.listResources _)).bind_pure _
  | completeTemplateVariable typed config context =>
    exact (hfree (AskedCall.completeTemplateVariable _ _ _)).bind_pure _

/-! ## Amounts -/

def Signal.amount? : Signal → Option (BitVec 64)
  | .charge amount .. => some amount
  | .refund _ => none

/-- The amounts that a call is charged in its environment. -/
def Entry.charged (lib : CallLib δ) (rt : Runtime) (entry : Entry)
    (env : Nat → (q : Question δ) → Answer q) : List (BitVec 64) :=
  (signals env 0 (entry.call lib rt)).filterMap Signal.amount?

/-- The amounts of some calls, each in its environment. -/
def amounts (lib : CallLib δ) (rt : Runtime)
    (calls : List (Entry × (Nat → (q : Question δ) → Answer q))) : List (BitVec 64) :=
  calls.flatMap fun call => call.1.charged lib rt call.2

section

variable {lib : CallLib δ} {rt : Runtime} {env : Nat → (q : Question δ) → Answer q}
  {calls : List (Entry × (Nat → (q : Question δ) → Answer q))} {amount : BitVec 64}

/-- A charge is of an amount that the price gave. -/
theorem mem_charged {entry : Entry} (h : amount ∈ entry.charged lib rt env) :
    ∃ c args rows bytes, rt.cost = some c ∧ c.compute args rows bytes = .ok amount := by
  obtain ⟨signal, hsignal, hamount⟩ := List.mem_filterMap.mp h
  obtain ⟨⟨q, answer⟩, hev, hq⟩ := List.mem_filterMap.mp hsignal
  have hcall : AskedCall rt (entry.call lib rt) := AskedCall.entry entry
  have hasked := hcall.mem_trace hev
  cases q with
  | charge amount' rows bytes =>
    cases hq
    cases hamount
    obtain ⟨c, args, hcost, hcompute⟩ := hasked
    exact ⟨c, args, rows, bytes, hcost, hcompute⟩
  | refund reason =>
    cases hq
    cases hamount
  | _ => cases hq

theorem mem_amounts (h : amount ∈ amounts lib rt calls) :
    ∃ c args rows bytes, rt.cost = some c ∧ c.compute args rows bytes = .ok amount := by
  obtain ⟨call, -, hmem⟩ := List.mem_flatMap.mp h
  exact mem_charged hmem

theorem length_amounts {c : BackendCost} (hcost : rt.cost = some c) :
    (amounts lib rt calls).length ≤ calls.length := by
  have hcall : ∀ call : Entry × (Nat → (q : Question δ) → Answer q),
      (call.1.charged lib rt call.2).length ≤ 1 := fun call =>
    (List.length_filterMap_le _ _).trans (call.1.call_once hcost call.2 0)
  induction calls with
  | nil => exact le_refl 0
  | cons call calls ih =>
    rw [amounts, List.flatMap_cons, List.length_append, List.length_cons, Nat.add_comm]
    exact Nat.add_le_add ih (hcall call)

end

/-- What any calls of a registered profile are charged are finite amounts, none of them
negative, of which no call has two and none is above the cap: together they are no more than
the cap for each call. -/
theorem spend_bounded {lib : RegisterLib δ} {cfg : ProfileConfig} {rt : Runtime} {opening : Opening}
    {backendName : String} (h : cfg.register lib opening backendName = .ok rt) {spec : Cost.CostSpec}
    (hspec : cfg.cost = some spec) {text : String} (htext : spec.maxPerCall = some text)
    (calls : List (Entry × (Nat → (q : Question δ) → Answer q))) :
    ∃ cap, Cost.parseDecimalAmount lib.prices text "cost.max_per_call" = .ok cap ∧
      (∀ amount ∈ amounts lib.toCallLib rt calls, Cost.isFinite amount ∧
        0 ≤ Binary64.value amount ∧ Binary64.value amount ≤ Binary64.value cap) ∧
      (amounts lib.toCallLib rt calls).length ≤ calls.length ∧
      ((amounts lib.toCallLib rt calls).map Binary64.value).sum ≤
        calls.length * Binary64.value cap := by
  have hprice := (ProfileConfig.register_ok h).cost
  rw [ProfileConfig.compileCost, hspec] at hprice
  obtain ⟨c, hcompile, hcost⟩ := bind_eq_ok.mp hprice
  cases hcost' : rt.cost with
  | none =>
    rw [hcost'] at hcost
    cases hcost
  | some price =>
    rw [hcost'] at hcost
    cases hcost
    obtain ⟨cap, hcap, hmax⟩ := Cost.maxPerCall_of_compile _ hcompile htext
    have hbounds : ∀ amount ∈ amounts lib.toCallLib rt calls, Cost.isFinite amount ∧
        0 ≤ Binary64.value amount ∧ Binary64.value amount ≤ Binary64.value cap := by
      intro amount hmem
      obtain ⟨price, args, rows, bytes, hsome, hcompute⟩ := mem_amounts hmem
      rw [hcost'] at hsome
      cases hsome
      obtain ⟨hfinite, hpos, hbelow⟩ := Cost.BackendCost.compute_bounds _ _ hcompute
      exact ⟨hfinite, hpos, hbelow cap hmax⟩
    have hlength : (amounts lib.toCallLib rt calls).length ≤ calls.length := length_amounts hcost'
    refine ⟨cap, hcap, hbounds, hlength, ?_⟩
    have hcapped : 0 ≤ Binary64.value cap :=
      Cost.value_nonneg (Cost.isNegative_of_parseDecimalAmount _ hcap)
    calc ((amounts lib.toCallLib rt calls).map Binary64.value).sum
        ≤ ((amounts lib.toCallLib rt calls).map Binary64.value).length • Binary64.value cap := by
          refine List.sum_le_card_nsmul _ _ fun value hvalue => ?_
          obtain ⟨amount, hmem, rfl⟩ := List.mem_map.mp hvalue
          exact (hbounds amount hmem).2.2
      _ = (amounts lib.toCallLib rt calls).length * Binary64.value cap := by
          rw [List.length_map, nsmul_eq_mul]
      _ ≤ calls.length * Binary64.value cap :=
          mul_le_mul_of_nonneg_right (Nat.cast_le.mpr hlength) hcapped

/-- Orders at three for each row, and five for a call at most. -/
def pricedConfig : ProfileConfig where
  driver := .postgres
  query := { body := .sql "SELECT * FROM orders", rowMode := .many }
  url := "postgres://app:pw@db/orders"
  cost := some { unit := .perRow, amount := some "3", maxPerCall := some "5" }

/-- A call that is answered with this many orders. -/
def ordersCall (rows : Nat) : Entry × (Nat → (q : Question String) → Answer q) :=
  (.execute 0 { payload := none }, fun _ => answering fun _ => List.replicate rows .null)

/-- One order is charged for, and a call of two orders is refused. -/
theorem priced_spend :
    ∃ rt, pricedConfig.register scanRegister { files := fun _ => .error "" } "orders" = .ok rt ∧
      amounts scanLib rt [ordersCall 1, ordersCall 2] = [Binary64.ofNat 3] ∧
      ∃ cap, Cost.parseDecimalAmount scanRegister.prices "5" "cost.max_per_call" = .ok cap ∧
        ((amounts scanLib rt [ordersCall 1, ordersCall 2]).map Binary64.value).sum ≤
          2 * Binary64.value cap := by
  have hrun : (pricedConfig.register scanRegister { files := fun _ => .error "" } "orders").toOption.map
      (fun rt => amounts scanLib rt [ordersCall 1, ordersCall 2]) = some [Binary64.ofNat 3] := by
    decide +kernel
  cases hrt : pricedConfig.register scanRegister { files := fun _ => .error "" } "orders" with
  | error e =>
    rw [hrt] at hrun
    cases hrun
  | ok rt =>
    rw [hrt] at hrun
    obtain ⟨cap, hcap, -, -, hsum⟩ := spend_bounded hrt rfl rfl [ordersCall 1, ordersCall 2]
    exact ⟨rt, rfl, Option.some.inj hrun, cap, hcap, hsum⟩

end McpgSql.Execute
