import McpgSql.Execute.Accounting

/-!
# The rows that calls are charged for

A plain call counts the rows of the driver's answer before they are cut at `max_rows`
and put in the shape of the row mode (`chargedRows`), and the rows of all result sets
before the sets are cut. What the caller gets is counted by `rowsIn`.

* `payload_rows_iff`: the two numbers are the same exactly where the row mode keeps
  all rows of the answer (`KeptInFull`).
* `charge_rows_iff`: the same of every plain call that is charged; a call of an `await`
  block is charged for the row that it returns (`await_charge_rows`).
-/

namespace McpgSql.Execute

open Library McpgSql.Pool McpgSql.Cache McpgSql.Stream

/-! ## Rows of a response -/

/-- The number of items of an array. -/
def itemCount : Value → Nat
  | .arr items => items.length
  | _ => 0

/-- The number of rows in a response: what `CostUnit::PerRow` is documented to multiply
with. -/
def rowsIn (mode : RowMode) (payload : Value) : Nat :=
  match mode with
  | .single => if payload.isNull then 0 else 1
  | .scalar => 1
  | .many => itemCount payload
  | .resourceContents => itemCount ((payload.get "contents").getD .null)
  | .stream => itemCount ((payload.get "rows").getD .null)
  | .affectedRows => ((payload.get "rows_affected").bind Value.asU64).getD 0
  | .resultSets => match payload.get "result_sets" with
    | some (.arr sets) => (sets.map itemCount).sum
    | _ => 0

/-- What the driver answered a plain call. -/
inductive DriverAnswer where
  | batch (b : RowBatch)
  | sets (s : List (List Value))

namespace DriverAnswer

section

variable {δ : Type} (lib : CallLib δ) (rt : Runtime)

/-- The payload that is made of an answer. -/
def payload : DriverAnswer → Except BackendError Value
  | .batch b => (shapeResponse b rt.rowMode rt.maxRows).map fun shaped => withToken lib rt shaped.1
  | .sets s => .ok (setsPayload rt s).1

/-- The rows that an answer is charged for. -/
def charged : DriverAnswer → Nat
  | .batch b => chargedRows rt b
  | .sets s => (s.map List.length).sum

end

/-- Result sets are of their own row mode. -/
def Fits (mode : RowMode) : DriverAnswer → Prop
  | .batch _ => True
  | .sets _ => mode = .resultSets

/-- The response holds as many rows as the answer does. -/
def KeptInFull (mode : RowMode) (maxRows : Nat) : DriverAnswer → Prop
  | .sets s => (s.map List.length).sum ≤ maxRows
  | .batch b => match mode with
    | .single => b.rows.length ≤ 1 ∧ b.rows.length ≤ maxRows ∧ ∀ row ∈ b.rows, row.isNull = false
    | .scalar => b.rows.length = 1
    | .affectedRows => True
    | _ => b.rows.length ≤ maxRows

end DriverAnswer

/-! ## Cut sets -/

theorem cutSets_zero_sum (sets : List (List Value)) : ((cutSets 0 sets).map List.length).sum = 0 := by
  induction sets with
  | nil => rfl
  | cons set sets ih =>
    unfold cutSets
    split
    · rename_i h
      simp only [List.map_cons, List.sum_cons, Nat.zero_sub, ih]
      omega
    · simp [ih]

/-- The cut sets hold as many rows as there is room for. -/
theorem cutSets_sum (remaining : Nat) (sets : List (List Value)) :
    ((cutSets remaining sets).map List.length).sum = min remaining (sets.map List.length).sum := by
  induction sets generalizing remaining with
  | nil => simp [cutSets]
  | cons set sets ih =>
    unfold cutSets
    split
    · rename_i h
      simp only [List.map_cons, List.sum_cons, ih]
      omega
    · rename_i h
      simp only [List.map_cons, List.sum_cons, cutSets_zero_sum, List.length_take]
      omega

/-! ## Shapes -/

section

variable {δ : Type} {lib : CallLib δ} {rt : Runtime}

theorem withToken_of_ne (h : rt.rowMode ≠ .stream) (payload : Value) :
    withToken lib rt payload = payload := by
  unfold withToken
  split
  · exact if_neg h
  · rfl

theorem withToken_rows (members : List (String × Value)) :
    (withToken lib rt (.object members)).get "rows" = (Value.object members).get "rows" := by
  unfold withToken
  split
  · split
    · exact (addCursor_get members).1
    · rfl
  · rfl

/-- The first row of those that are kept, and none where there is no room. -/
theorem single_rows_iff (rows : List Value) (maxRows : Nat) :
    rows.length = rowsIn .single ((rows.take maxRows).head?.getD .null) ↔
      rows.length ≤ 1 ∧ rows.length ≤ maxRows ∧ ∀ row ∈ rows, row.isNull = false := by
  match rows, maxRows with
  | [], maxRows => simp [rowsIn, Value.isNull]
  | row :: rows, 0 => simp [rowsIn, Value.isNull]
  | row :: rows, maxRows + 1 =>
    cases hnull : row.isNull with
    | true => simp [rowsIn, hnull]
    | false => cases rows <;> simp [rowsIn, hnull]

theorem take_rows_iff (rows : List Value) (maxRows : Nat) :
    rows.length = (rows.take maxRows).length ↔ rows.length ≤ maxRows := by
  rw [List.length_take]
  omega

theorem contents_length {rows contents : List Value}
    (h : (rows.zipIdx.mapM fun (row, idx) => resourceEntry idx row) = .ok contents) :
    contents.length = rows.length := by
  rw [← (forall₂_of_mapM_eq_ok h).length_eq, List.length_zipIdx]

/-- Charged rows and rows of the response, for a batch. -/
theorem batch_rows_iff {b : RowBatch} {shaped : Value × Bool}
    (h : shapeResponse b rt.rowMode rt.maxRows = .ok shaped) :
    chargedRows rt b = rowsIn rt.rowMode (withToken lib rt shaped.1) ↔
      (DriverAnswer.batch b).KeptInFull rt.rowMode rt.maxRows := by
  unfold chargedRows
  cases hmode : rt.rowMode with
  | single =>
    rw [hmode] at h
    obtain rfl := Except.ok.inj h
    rw [withToken_of_ne (by simp [hmode]), if_neg nofun]
    exact single_rows_iff b.rows rt.maxRows
  | many =>
    rw [hmode] at h
    obtain rfl := Except.ok.inj h
    rw [withToken_of_ne (by simp [hmode]), if_neg nofun]
    exact take_rows_iff b.rows rt.maxRows
  | scalar =>
    rw [if_neg nofun]
    exact Iff.rfl
  | affectedRows =>
    rw [hmode] at h
    obtain rfl := Except.ok.inj h
    rw [withToken_of_ne (by simp [hmode]), if_pos rfl]
    exact iff_of_true rfl trivial
  | resourceContents =>
    rw [hmode] at h
    obtain ⟨contents, hcontents, hshaped⟩ := bind_eq_ok.mp h
    obtain rfl := Except.ok.inj hshaped
    rw [withToken_of_ne (by simp [hmode]), if_neg nofun]
    show b.rows.length = contents.length ↔ _
    rw [contents_length hcontents]
    exact take_rows_iff b.rows rt.maxRows
  | stream =>
    rw [hmode] at h
    obtain rfl := Except.ok.inj h
    rw [if_neg nofun, rowsIn, withToken_rows, get_rows]
    exact take_rows_iff b.rows rt.maxRows
  | resultSets =>
    rw [hmode] at h
    cases h

theorem rowsIn_sets (sets : List (List Value)) (truncated : Value) :
    rowsIn .resultSets (.object [("result_sets", .arr (sets.map .arr)), ("truncated", truncated)]) =
      (sets.map List.length).sum := by
  have hget : (Value.object [("result_sets", .arr (sets.map .arr)), ("truncated", truncated)]).get
      "result_sets" = some (.arr (sets.map .arr)) := by
    simp [Value.object, Value.get, Assoc.ofList, Assoc.get?_insert]
  rw [rowsIn, hget]
  show ((sets.map Value.arr).map itemCount).sum = _
  rw [List.map_map]
  rfl

/-- Charged rows and rows of the response, for result sets. -/
theorem sets_rows_iff (s : List (List Value)) :
    (s.map List.length).sum = rowsIn .resultSets (setsPayload rt s).1 ↔
      (s.map List.length).sum ≤ rt.maxRows := by
  have hrows : rowsIn .resultSets (setsPayload rt s).1 =
      min rt.maxRows (s.map List.length).sum := by
    unfold setsPayload
    by_cases hcut : (s.map List.length).sum > rt.maxRows
    · simp only [hcut, decide_true, if_true]
      rw [rowsIn_sets, cutSets_sum]
    · simp only [hcut, decide_false, Bool.false_eq_true, if_false]
      rw [rowsIn_sets]
      omega
  rw [hrows]
  omega

/-- Charged rows and rows of the response. -/
theorem payload_rows_iff {answer : DriverAnswer} {payload : Value} (hfits : answer.Fits rt.rowMode)
    (h : answer.payload lib rt = .ok payload) :
    answer.charged rt = rowsIn rt.rowMode payload ↔ answer.KeptInFull rt.rowMode rt.maxRows := by
  cases answer with
  | batch b =>
    cases hshape : shapeResponse b rt.rowMode rt.maxRows with
    | error e =>
      rw [DriverAnswer.payload, hshape] at h
      cases h
    | ok shaped =>
      rw [DriverAnswer.payload, hshape] at h
      obtain rfl := Except.ok.inj h
      exact batch_rows_iff hshape
  | sets s =>
    obtain rfl := Except.ok.inj h
    have hmode : rt.rowMode = .resultSets := hfits
    rw [hmode]
    exact sets_rows_iff s

end

/-! ## Calls -/

section

variable {δ : Type} (lib : CallLib δ) (rt : Runtime)

/-- The answer of the driver to a plain call. -/
def driverAnswer (pool : PoolHandle) (bound : List BoundParam) (session : SessionVars) :
    Call δ DriverAnswer :=
  if rt.rowMode = .resultSets then do
    let reply : Except SqlError (List (List Value)) ←
      submitWithin rt pool .executeMultiResult rt.stmt bound session
    match reply with
    | .error e => failWith lib rt e
    | .ok s => pure (.sets s)
  else do
    let b ← runBatch lib rt pool bound session
    pure (.batch b)

/-- What a plain call makes of the answer of the driver. -/
def finishAnswer (args : Value) (key : Option String) : DriverAnswer → Call δ BackendResponse
  | .batch b => finishBatch lib rt args b key
  | .sets s => do
    let bytes ← serialize lib rt (setsPayload rt s).1 "serialize response: "
    tryEmitCharge lib rt args (s.map List.length).sum bytes.length
    pure { payload := bytes, truncated := (setsPayload rt s).2 }

/-- A plain call up to the answer of the driver: the response of the cache, or that answer
with the arguments and the cache key. -/
def untilAnswer (request : BackendRequest) :
    Call δ (BackendResponse ⊕ Value × Option String × DriverAnswer) := do
  let pool ← resolvePoolForCall lib rt
  let session ← activeSessionVars lib rt
  let args ← ofBackend (callArgs lib.redact lib.cursor rt.toProfileRuntime rt.backendName request)
  let bound ← ofSql lib (collectBoundParams args rt.stmt.paramOrder)
  match ← cacheLookup lib rt bound session with
  | .inl response => pure (.inl response)
  | .inr key => do
    let answer ← driverAnswer lib rt pool bound session
    pure (.inr (args, key, answer))

/-- The rest of the call. -/
def afterAnswer : BackendResponse ⊕ Value × Option String × DriverAnswer → Call δ BackendResponse
  | .inl response => pure response
  | .inr (args, key, answer) => finishAnswer lib rt args key answer

/-- The answer that the driver gives this call, whose first question is the `n`-th. -/
def Answered (env : Nat → (q : Question δ) → Answer q) (n : Nat) (request : BackendRequest)
    (answer : DriverAnswer) : Prop :=
  ∃ args key, Prog.result env n (untilAnswer lib rt request) = .ok (.inr (args, key, answer))

variable {lib rt}

theorem failWith_bind {α β : Type} (e : SqlError) (f : α → Call δ β) :
    (failWith lib rt e >>= f) = failWith lib rt e :=
  refundAndFail_bind _ _ f

/-- A plain call, where nothing is cached for it: the answer of the driver, and the rest. -/
theorem runQuery_miss (args : Value) (key : Option String) (pool : PoolHandle)
    (bound : List BoundParam) (session : SessionVars) :
    (if rt.rowMode = .resultSets then runResultSets lib rt args pool bound session
      else runBatch lib rt pool bound session >>= fun batch => finishBatch lib rt args batch key) =
    driverAnswer lib rt pool bound session >>= finishAnswer lib rt args key := by
  unfold driverAnswer
  split
  · rw [runResultSets_eq]
    refine Eq.trans (congrArg _ (funext fun reply => ?_)) (Prog.bind_assoc _ _ _).symm
    cases reply with
    | error e => exact (failWith_bind e _).symm
    | ok s => rfl
  · rw [Prog.bind_assoc]
    rfl

/-- A plain call is what leads to the answer of the driver, and the rest. -/
theorem executeInnerImpl_plain (hplain : rt.awaitRt = none) (polls : Nat) (request : BackendRequest) :
    executeInnerImpl lib rt polls request = untilAnswer lib rt request >>= afterAnswer lib rt := by
  rw [executeInnerImpl, hplain, untilAnswer]
  simp only [runQuery, Prog.bind_assoc]
  refine congrArg _ (funext fun pool => congrArg _ (funext fun session => congrArg _ (funext fun args =>
    congrArg _ (funext fun bound => congrArg _ (funext fun found => ?_)))))
  cases found with
  | inl response => rfl
  | inr key =>
    simp only [Prog.bind_assoc]
    exact runQuery_miss args key pool bound session

variable {α β : Type} {env : Nat → (q : Question δ) → Answer q} {n : Nat} {p : Call δ α}
  {f : α → Call δ β} {amount : BitVec 64} {rows bytes : Nat}

/-- A charge of a sequence whose first part emits none is one of its second part. -/
theorem charge_mem_bind (hp : .charge amount rows bytes ∉ signals env n p)
    (h : .charge amount rows bytes ∈ signals env n (p >>= f)) :
    ∃ a m, Prog.result env n p = .ok a ∧ Prog.result env n (p >>= f) = Prog.result env m (f a) ∧
      .charge amount rows bytes ∈ signals env m (f a) := by
  cases hresult : Prog.result env n p with
  | error e =>
    rw [signals_bind_of_error hresult] at h
    exact absurd h hp
  | ok a =>
    rw [signals_bind_of_ok hresult, List.mem_append] at h
    exact ⟨a, _, rfl, Prog.result_bind_of_ok hresult, h.resolve_left hp⟩

theorem Quiet.not_charged (hp : Quiet p) : .charge amount rows bytes ∉ signals env n p := by
  rw [(hp env n).1]
  exact List.not_mem_nil

theorem Settles.not_charged (hp : Settles p) : .charge amount rows bytes ∉ signals env n p := by
  have hs := hp env n
  split at hs
  · simp [hs]
  · obtain ⟨reason, hs⟩ := hs
    simp [hs]
  · simp [hs]

theorem Settles.driverAnswer {c : BackendCost} (hcost : rt.cost = some c) (pool : PoolHandle)
    (bound : List BoundParam) (session : SessionVars) :
    Settles (Execute.driverAnswer lib rt pool bound session) := by
  refine ite (bind (submitWithin hcost _ _ _ _ _) fun reply => ?_)
    (bind (runBatch hcost _ _ _) fun _ => pure _)
  cases reply with
  | error e => exact failWith hcost e
  | ok s => exact pure _

/-- A charge is for the rows it is made for, and for the bytes that are returned. -/
theorem charge_of_payload {c : BackendCost} (hcost : rt.cost = some c) {args payload : Value}
    {message : String} {count : Nat} {q : List UInt8 → Call δ α} (hq : ∀ out, Returns (q out))
    (h : .charge amount rows bytes ∈ signals env n (serialize lib rt payload message >>= fun out =>
      tryEmitCharge lib rt args count out.length >>= fun _ => q out)) :
    rows = count ∧ ∃ out m, lib.toVec payload = .ok out ∧
      Prog.result env n (serialize lib rt payload message >>= fun out =>
        tryEmitCharge lib rt args count out.length >>= fun _ => q out) =
      Prog.result env m (q out) := by
  obtain ⟨out, m, hout, hresult, h⟩ := charge_mem_bind (Settles.serialize hcost _ _).not_charged h
  have hvec : lib.toVec payload = .ok out := by
    rw [serialize] at hout
    cases hvec : lib.toVec payload with
    | ok bytes =>
      rw [hvec] at hout
      obtain rfl := Except.ok.inj hout
      rfl
    | error e =>
      rw [hvec, result_refundAndFail] at hout
      cases hout
  rw [hresult]
  cases hcompute : c.compute args count out.length with
  | error e =>
    rw [tryEmitCharge, hcost] at h
    simp only [hcompute] at h
    cases h
  | ok price =>
    have hsignals : signals env m (tryEmitCharge lib rt args count out.length >>= fun _ => q out) =
        .charge price count out.length :: signals env (m + 1) (q out) := by
      rw [tryEmitCharge, hcost]
      simp only [hcompute]
      rfl
    have hend : Prog.result env m (tryEmitCharge lib rt args count out.length >>= fun _ => q out) =
        Prog.result env (m + 1) (q out) := by
      rw [tryEmitCharge, hcost]
      simp only [hcompute]
      rfl
    rw [hsignals, (hq out env (m + 1)).1, List.mem_singleton] at h
    cases h
    exact ⟨rfl, out, m + 1, hvec, hend⟩

theorem result_ofBackend {x : Except BackendError α} {a : α}
    (h : Prog.result env n (ofBackend x : Call δ α) = .ok a) : x = .ok a := by
  cases x with
  | ok a' =>
    obtain rfl := Except.ok.inj h
    rfl
  | error e => cases h

theorem result_storeResponse (key : Option String) (truncated : Bool) (out : List UInt8) :
    Prog.result env n (storeResponse rt key truncated out : Call δ BackendResponse) =
      .ok ⟨out, truncated⟩ := by
  unfold storeResponse
  split
  · rfl
  · rfl

/-- The rows that an answer is charged for, and the response that is made of it. -/
theorem charge_of_finishAnswer {c : BackendCost} (hcost : rt.cost = some c) {args : Value}
    {key : Option String} {answer : DriverAnswer}
    (h : .charge amount rows bytes ∈ signals env n (finishAnswer lib rt args key answer)) :
    rows = answer.charged rt ∧ ∃ payload response, answer.payload lib rt = .ok payload ∧
      Prog.result env n (finishAnswer lib rt args key answer) = .ok response ∧
      lib.toVec payload = .ok response.payload := by
  cases answer with
  | batch b =>
    rw [finishAnswer, finishBatch_eq] at h ⊢
    obtain ⟨shaped, m, hshaped, hresult, h⟩ := charge_mem_bind (Quiet.ofBackend _).not_charged h
    obtain ⟨hrows, out, m', hvec, hout⟩ := charge_of_payload hcost
      (fun out => Returns.storeResponse rt key shaped.2 out) h
    refine ⟨hrows, withToken lib rt shaped.1, ⟨out, shaped.2⟩, ?_, ?_, hvec⟩
    · rw [DriverAnswer.payload, result_ofBackend hshaped]
      rfl
    · rw [hresult, hout, result_storeResponse]
  | sets s =>
    obtain ⟨hrows, out, m, hvec, hout⟩ := charge_of_payload hcost (fun _ => Returns.pure _) h
    exact ⟨hrows, (setsPayload rt s).1, ⟨out, (setsPayload rt s).2⟩, rfl, hout, hvec⟩

/-- Result sets are answered in their own row mode only. -/
theorem driverAnswer_fits {pool : PoolHandle} {bound : List BoundParam} {session : SessionVars}
    {answer : DriverAnswer}
    (h : Prog.result env n (driverAnswer lib rt pool bound session) = .ok answer) :
    answer.Fits rt.rowMode := by
  cases answer with
  | batch b => trivial
  | sets s =>
    show rt.rowMode = .resultSets
    by_contra hmode
    have hrun : driverAnswer lib rt pool bound session =
        runBatch lib rt pool bound session >>= fun b => pure (.batch b) := if_neg hmode
    rw [hrun] at h
    cases hbatch : Prog.result env n (runBatch lib rt pool bound session) with
    | error e =>
      rw [Prog.result_bind_of_error hbatch] at h
      cases h
    | ok b =>
      rw [Prog.result_bind_of_ok hbatch] at h
      cases h

/-- The answer of a call is one of its row mode. -/
theorem untilAnswer_fits {request : BackendRequest} {answer : DriverAnswer}
    (h : Answered lib rt env n request answer) : answer.Fits rt.rowMode := by
  obtain ⟨args, key, h⟩ := h
  rw [untilAnswer] at h
  obtain ⟨pool, n₁, -, h⟩ := Prog.result_bind_eq_ok h
  obtain ⟨session, n₂, -, h⟩ := Prog.result_bind_eq_ok h
  obtain ⟨args', n₃, -, h⟩ := Prog.result_bind_eq_ok h
  obtain ⟨bound, n₄, -, h⟩ := Prog.result_bind_eq_ok h
  obtain ⟨found, n₅, -, h⟩ := Prog.result_bind_eq_ok h
  cases found with
  | inl response => cases h
  | inr key' =>
    obtain ⟨answer', n₆, hanswer, h⟩ := Prog.result_bind_eq_ok h
    cases h
    exact driverAnswer_fits hanswer

/-- Nothing is charged up to the answer of the driver. -/
theorem untilAnswer_not_charged {c : BackendCost} (hcost : rt.cost = some c)
    (request : BackendRequest) :
    .charge amount rows bytes ∉ signals env n (untilAnswer lib rt request) := by
  intro h
  rw [untilAnswer] at h
  obtain ⟨pool, n₁, -, -, h⟩ := charge_mem_bind Quiet.resolvePoolForCall.not_charged h
  obtain ⟨session, n₂, -, -, h⟩ := charge_mem_bind Quiet.activeSessionVars.not_charged h
  obtain ⟨args, n₃, -, -, h⟩ := charge_mem_bind (Quiet.ofBackend _).not_charged h
  obtain ⟨bound, n₄, -, -, h⟩ := charge_mem_bind (Quiet.ofSql _).not_charged h
  obtain ⟨found, n₅, -, -, h⟩ := charge_mem_bind (Quiet.cacheLookup _ _).not_charged h
  cases found with
  | inl response => cases h
  | inr key =>
    obtain ⟨answer, n₆, -, -, h⟩ := charge_mem_bind (Settles.driverAnswer hcost _ _ _).not_charged h
    cases h

/-- A plain call that is charged for `rows` rows returns as many exactly where the row mode
keeps all rows of the answer that the driver gave this call. -/
theorem charge_rows_iff {c : BackendCost} (hcost : rt.cost = some c) (hplain : rt.awaitRt = none)
    {polls : Nat} {request : BackendRequest}
    (h : .charge amount rows bytes ∈ signals env n (executeInnerImpl lib rt polls request)) :
    ∃ answer payload response, Answered lib rt env n request answer ∧
      answer.payload lib rt = .ok payload ∧
      Prog.result env n (executeInnerImpl lib rt polls request) = .ok response ∧
      lib.toVec payload = .ok response.payload ∧
      (rows = rowsIn rt.rowMode payload ↔ answer.KeptInFull rt.rowMode rt.maxRows) := by
  rw [executeInnerImpl_plain hplain] at h ⊢
  obtain ⟨found, m, hfound, hresult, h⟩ := charge_mem_bind (untilAnswer_not_charged hcost request) h
  rw [hresult]
  cases found with
  | inl response => cases h
  | inr found =>
    obtain ⟨args, key, answer⟩ := found
    have hanswered : Answered lib rt env n request answer := ⟨args, key, hfound⟩
    obtain ⟨rfl, payload, response, hpayload, hresponse, hvec⟩ := charge_of_finishAnswer hcost h
    exact ⟨answer, payload, response, hanswered, hpayload, hresponse, hvec,
      payload_rows_iff (untilAnswer_fits hanswered) hpayload⟩

/-- The trigger of an `await` block is not charged for. -/
theorem fireTrigger_not_charged {c : BackendCost} (hcost : rt.cost = some c) {args : Value}
    (trigger : Option PreparedStmt) :
    .charge amount rows bytes ∉ signals env n (fireTrigger lib rt args trigger) := by
  cases trigger with
  | none => exact List.not_mem_nil
  | some stmt =>
    cases hbind : collectBoundParams args stmt.paramOrder with
    | error e =>
      rw [fireTrigger, submitAwait, hbind]
      exact List.not_mem_nil
    | ok bound =>
      rw [fireTrigger, submitAwait_eq hbind]
      exact (Settles.bind (Settles.submitBound hcost stmt) fun _ => Settles.pure ()).not_charged

/-- A call of an `await` block is charged for the row that it returns. -/
theorem await_charge_rows {c : BackendCost} (hcost : rt.cost = some c) {aw : AwaitRuntime}
    (hawait : rt.awaitRt = some aw) {polls : Nat} {request : BackendRequest}
    (h : .charge amount rows bytes ∈ signals env n (executeInnerImpl lib rt (polls + 1) request)) :
    ∃ row response,
      Prog.result env n (executeInnerImpl lib rt (polls + 1) request) = .ok response ∧
      lib.toVec row = .ok response.payload ∧ rows = rowsIn .single row := by
  rw [executeInnerImpl, hawait] at h ⊢
  simp only [executeAwaitLoop_eq] at h ⊢
  obtain ⟨args, n₁, -, hresult, h⟩ := charge_mem_bind (Quiet.ofBackend _).not_charged h
  rw [hresult]
  obtain ⟨_, n₂, -, hresult, h⟩ := charge_mem_bind (fireTrigger_not_charged hcost _) h
  rw [hresult]
  cases hbind : collectBoundParams args aw.checkStmt.paramOrder with
  | error e =>
    have hclock : Quiet (ask .now : Call δ Nat) := Quiet.ask rfl
    obtain ⟨start, n₃, -, -, h⟩ := charge_mem_bind hclock.not_charged h
    rw [pollLoop, submitAwait, hbind] at h
    cases h
  | ok bound =>
    rw [awaitFrom_eq hbind] at h ⊢
    obtain ⟨found, n₃, -, hresult, h⟩ :=
      charge_mem_bind (Settles.awaitMatch hcost _ _).not_charged h
    rw [hresult]
    obtain ⟨hrows, out, n₄, hvec, hout⟩ := charge_of_payload hcost (fun _ => Returns.pure _) h
    exact ⟨found.1, ⟨out, false⟩, hout, hvec, hrows⟩

end

/-- A binding that is paid for by the row, which returns two rows at most. -/
def twoOrders : Runtime :=
  { ordersRuntime ⟨"postgres://app@db/orders", .empty, Pool.CredConfig.identifiers_empty⟩ with
    maxRows := 2
    cost := some ⟨fun _ rows _ => .ok (.ofNat 64 rows)⟩ }

/-- An answer of this many orders. -/
def orderRows (count : Nat) : List Value := (List.range count).map fun i => .obj [("id", .ofNat i)]

def answerOrders (count : Nat) : Nat → (q : Question String) → Answer q :=
  fun _ => answering fun _ => orderRows count

theorem twoOrders_charged :
    ∃ answer payload response,
      Answered scanLib twoOrders (answerOrders 2) 0 { payload := none } answer ∧
      answer.payload scanLib twoOrders = .ok payload ∧
      Prog.result (answerOrders 2) 0 (executeInnerImpl scanLib twoOrders 0 { payload := none }) =
        .ok response ∧
      scanLib.toVec payload = .ok response.payload ∧
      (2 = rowsIn twoOrders.rowMode payload ↔
        answer.KeptInFull twoOrders.rowMode twoOrders.maxRows) := by
  have h : Signal.charge 2 2 0 ∈ signals (answerOrders 2) 0
      (executeInnerImpl scanLib twoOrders 0 { payload := none }) := by decide
  exact charge_rows_iff rfl rfl h

/-- Three orders are charged for, and two are returned. -/
theorem threeOrders_overcharged :
    signals (answerOrders 3) 0 (executeInnerImpl scanLib twoOrders 0 { payload := none }) =
        [.charge 3 3 0] ∧
      (DriverAnswer.batch { rows := orderRows 3 }).payload scanLib twoOrders =
        .ok (.arr (orderRows 2)) ∧
      rowsIn twoOrders.rowMode (.arr (orderRows 2)) = 2 := by
  exact ⟨by decide, rfl, rfl⟩

end McpgSql.Execute
