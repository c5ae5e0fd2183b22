import McpgSql.Execute.Retry
import Mathlib.Algebra.Order.Ring.Nat

/-!
# The polls of an await block

An `await` block fires its trigger, and checks its row until the predicate holds or
the deadline has passed, with a sleep between two checks that the deadline cuts short.

* `await_ends`: on a clock that does not go back and sleeps that take their time, every
  call ends. It hands over its trigger once at most and before any check, the checks
  only where the trigger was answered, no statement after a check that was not answered
  or whose row satisfies the predicate, and no more than one check for each interval
  that begins before the deadline, and one at the start.
-/

namespace McpgSql.Execute

open Library McpgSql.Cache

variable {δ : Type}

/-! ## Clocks -/

/-- The readings of the log do not go back behind `t`, behind one another, or behind the
end of a sleep. A sleep that the drain ends takes any time. -/
def Timely : Nat → List LogItem → Prop
  | _, [] => True
  | t, .read now :: log => t ≤ now ∧ Timely now log
  | t, .slept ns drained :: log => Timely (if drained then t else t + ns) log
  | t, _ :: log => Timely t log

/-- The first row of an answer, null where there is none. -/
def Submit.firstRow : (how : Submit) → Option (Except SqlError how.Reply) → Value
  | .execute, some (.ok batch) => batch.rows.head?.getD .null
  | _, _ => .null

def firstRow : Sigma (Answer (δ := δ)) → Value
  | ⟨.submitWithin _ s, answer⟩ => s.how.firstRow answer
  | _ => .null

/-- An item of the log, with the first row of the answer. -/
abbrev RowItem := LogItem × Value

def rowItem (ev : Sigma (Answer (δ := δ))) : Option RowItem :=
  (logItem ev).map fun item => (item, firstRow ev)

abbrev LogsRows {α : Type} (p : Call δ α) (post : List RowItem → Except Stop α → Prop) : Prop :=
  Prog.Leaves rowItem p post

/-- A statement that was handed over, how it came out, and its first row. -/
abbrev Handed := Submission × Outcome × Value

/-- The statements of a log. -/
def statements (log : List RowItem) : List Handed :=
  log.filterMap fun item => match item with
    | (.statement s o, row) => some (s, o, row)
    | _ => none

/-- How many checks fit: one at the start, and one for each interval that begins before
the deadline. -/
def AwaitCfg.maxChecks (cfg : AwaitCfg) : Nat :=
  (cfg.timeoutMs + cfg.pollIntervalMs - 1) / cfg.pollIntervalMs + 1

/-- The statements of a run of checks: they are all the same statement, and only the last
may be without an answer, or with a row that ends the wait. -/
inductive Checks (stmt : PreparedStmt) (ends : Value → Bool) : List Handed → Prop
  | none : Checks stmt ends []
  | last (s : Submission) (o : Outcome) (row : Value) (h : s.stmt = stmt) :
    Checks stmt ends [(s, o, row)]
  | more (s : Submission) (row : Value) {rest : List Handed} (h : s.stmt = stmt)
    (hrow : ends row = false) (hrest : Checks stmt ends rest) :
    Checks stmt ends ((s, .answered, row) :: rest)

/-! ## The loop -/

section

variable {lib : CallLib δ} {rt : Runtime} {α : Type}

/-- A part that logs nothing logs no rows. -/
theorem Silent.rows {p : Call δ α} {post : Except Stop α → Prop} (h : Silent p)
    (hp : Logs p fun _ r => post r) : LogsRows p fun log r => log = [] ∧ post r := by
  intro env n
  have hnil : Prog.logged rowItem env n p = [] := by
    refine List.filterMap_eq_nil_iff.mpr fun ev hev => ?_
    rw [rowItem, h.mem_trace hev ev.2]
    rfl
  exact ⟨hnil, hp env n⟩

/-- A refund ends the call with no further item. -/
theorem refund_rows (reason : String) (e : BackendError) :
    LogsRows (refundAndFail rt reason e : Call δ α) fun log r => log = [] ∧ r = .error (.failed e) :=
  (Silent.refundAndFail _ _).rows ((refundAndFail_logs _ _).mono fun _ _ h => h.2)

theorem submitWithin_rows (stmt : PreparedStmt) (args : List BoundParam) (session : SessionVars) :
    LogsRows (submitWithin rt .registered .execute stmt args session : Call δ _) fun log r =>
      ∃ s o row, s.stmt = stmt ∧ log = [(.statement s o, row)] ∧ r ≠ .error .running ∧
        ∀ batch, r = .ok (.ok batch) → o = .answered ∧ row = batch.rows.head?.getD .null := by
  let s : Submission := ⟨.pool .registered, .execute, stmt, args, session⟩
  refine Prog.Leaves.bind (fun log r => ∃ reply : Option (Except SqlError RowBatch), r = .ok reply ∧
    log = [(.statement s ((reply.map .ofReply).getD .late), Submit.firstRow .execute reply)]) ?_ ?_ ?_
  · exact Prog.Leaves.query fun reply => ⟨reply, rfl, rfl⟩
  · rintro reply log ⟨_, ⟨⟩, rfl⟩
    cases reply with
    | some reply =>
      refine Prog.Leaves.pure ⟨s, _, _, rfl, rfl, by simp, fun batch hbatch => ?_⟩
      cases hbatch
      exact ⟨rfl, rfl⟩
    | none =>
      refine (refund_rows _ _).mono ?_
      rintro log r ⟨rfl, rfl⟩
      exact ⟨s, _, _, rfl, rfl, by simp, fun batch hbatch => by cases hbatch⟩
  · rintro e log ⟨_, ⟨⟩, -⟩

/-- A statement of the block: nothing where it cannot be bound, else one item. -/
theorem submitAwait_rows (stmt : PreparedStmt) (args : Value) :
    LogsRows (submitAwait lib rt stmt args) fun log r => r ≠ .error .running ∧
      (log = [] ∧ ¬r.isOk ∨ ∃ s o row, s.stmt = stmt ∧ log = [(.statement s o, row)] ∧
        ∀ batch, r = .ok batch → o = .answered ∧ row = batch.rows.head?.getD .null) := by
  refine ofSql_bind_logs (fun bound => ?_) fun e => ⟨by simp, .inl ⟨rfl, Bool.false_ne_true⟩⟩
  refine Prog.Leaves.bind _ (submitWithin_rows stmt bound rt.sessionVars) ?_ ?_
  · rintro (e | batch) log ⟨s, o, row, hs, rfl, -, hanswered⟩
    · refine (refund_rows _ _).mono ?_
      rintro log r ⟨rfl, rfl⟩
      exact ⟨by simp, .inr ⟨s, o, row, hs, rfl, fun batch hbatch => by cases hbatch⟩⟩
    · refine Prog.Leaves.pure ⟨by simp, .inr ⟨s, o, row, hs, rfl, fun batch' hbatch => ?_⟩⟩
      cases hbatch
      exact hanswered batch rfl
  · rintro e log ⟨s, o, row, hs, rfl, hrun, -⟩
    refine ⟨fun h => ?_, .inr ⟨s, o, row, hs, rfl, fun batch hbatch => by cases hbatch⟩⟩
    cases h
    exact hrun rfl

theorem ok_ne_running (a : α) : (Except.ok a : Except Stop α) ≠ .error .running := by
  intro h
  cases h

/-- The response of a check whose row satisfies the predicate. -/
theorem answer_rows (payload : Value) (message : String) (args : Value) (rows : Nat) :
    LogsRows (serialize lib rt payload message >>= fun bytes =>
        tryEmitCharge lib rt args rows bytes.length >>= fun _ =>
          pure (⟨bytes, false⟩ : BackendResponse))
      fun log r => log = [] ∧ r ≠ .error .running := by
  have hserialize : Logs (serialize lib rt payload message) fun _ r => r ≠ .error .running := by
    rw [serialize]
    split
    · exact Prog.Leaves.pure (by simp)
    · exact (refundAndFail_logs _ _).mono fun log r h => by simp [h.2]
  have hcharge : ∀ bytes : List UInt8, Logs (tryEmitCharge lib rt args rows bytes.length)
      fun _ r => r ≠ .error .running := by
    intro bytes
    rw [tryEmitCharge]
    split
    · exact Prog.Leaves.pure (by simp)
    · exact ofSql_bind_logs (fun amount => Prog.Leaves.query fun _ => ok_ne_running _) fun e => by simp
  refine Silent.rows ?_ (Prog.Leaves.bind _ hserialize ?_ ?_)
  · exact .bind (.serialize _ _) fun bytes => .bind (.tryEmitCharge _ _ _) fun _ => trivial
  · intro bytes _ _
    refine Prog.Leaves.bind _ (hcharge bytes) ?_ ?_
    · exact fun _ _ _ => Prog.Leaves.pure (by simp)
    · exact fun e _ hrun => by simpa using hrun
  · exact fun e _ hrun => by simpa using hrun

/-- What a loop leaves from a clock that reads `t` or later: `n` checks at most, and where
that many are counted, an end. -/
def LoopLog (stmt : PreparedStmt) (ends : Value → Bool) (t n more : Nat) (log : List RowItem)
    (r : Except Stop BackendResponse) : Prop :=
  Timely t (log.map Prod.fst) → Checks stmt ends (statements log) ∧ (statements log).length ≤ n ∧
    (n ≤ more → r ≠ .error .running)

theorem LoopLog.of_end {stmt : PreparedStmt} {ends : Value → Bool} {t n more : Nat}
    {log : List RowItem} {r : Except Stop BackendResponse} (h : log = [] ∧ r ≠ .error .running) :
    LoopLog stmt ends t n more log r := by
  obtain ⟨rfl, hrun⟩ := h
  exact fun _ => ⟨.none, Nat.zero_le n, fun _ => hrun⟩

/-- A loop whose deadline is `n` intervals away makes `n + 1` checks at most. -/
theorem pollLoop_rows (checkStmt : PreparedStmt) (args : Value) (deadline polls more n t : Nat)
    (hn : deadline ≤ t + n * (rt.awaitCfg.pollIntervalMs * 1000000)) :
    LogsRows (pollLoop lib rt checkStmt args deadline polls more)
      (LoopLog checkStmt (rt.awaitCfg.predicate · args) t (n + 1) more) := by
  induction more generalizing polls n t with
  | zero => exact Prog.Leaves.fail fun _ => ⟨.none, Nat.zero_le _, fun h => absurd h (by omega)⟩
  | succ more ih =>
    refine Prog.Leaves.bind _ (submitAwait_rows checkStmt args) ?_ ?_
    · rintro batch log ⟨-, ⟨rfl, hnot⟩ | ⟨s, o, row, hs, rfl, hanswered⟩⟩
      · exact absurd rfl hnot
      obtain ⟨rfl, rfl⟩ := hanswered batch rfl
      refine Prog.Leaves.ite (fun _ => ?_) fun hgoesOn => ?_
      · -- The check ends the wait.
        refine (answer_rows _ _ _ _).mono ?_
        rintro log r ⟨rfl, hrun⟩ -
        exact ⟨.last s _ _ hs, Nat.succ_le_succ (Nat.zero_le n), fun _ => hrun⟩
      -- It was answered with another row; what comes behind it makes `n` checks.
      suffices hrest : LogsRows _ (LoopLog checkStmt (rt.awaitCfg.predicate · args) t n more) by
        refine hrest.mono fun log' r h htimely => ?_
        obtain ⟨hchecks, hlen, hend⟩ := h htimely
        exact ⟨.more s _ hs (Bool.eq_false_iff.mpr hgoesOn) hchecks, Nat.succ_le_succ hlen,
          fun h => hend (Nat.le_of_succ_le_succ h)⟩
      refine Prog.Leaves.bind (fun log r => ∃ now : Nat, r = .ok now ∧ log = [(.read now, .null)]) ?_ ?_ ?_
      · exact Prog.Leaves.query fun now => ⟨now, rfl, rfl⟩
      · rintro now log ⟨_, ⟨⟩, rfl⟩
        refine Prog.Leaves.ite (fun _ => ?_) fun hbefore => ?_
        · refine (refund_rows _ _).mono ?_
          rintro log r ⟨rfl, rfl⟩ -
          exact ⟨.none, Nat.zero_le n, fun _ => by simp⟩
        · -- The loop sleeps, up to the deadline, and goes on.
          generalize hp : rt.awaitCfg.pollIntervalMs * 1000000 = interval at hn ⊢
          refine Prog.Leaves.bind (fun log r => ∃ drained : Bool, r = .ok drained ∧
            log = [(.slept (min interval (deadline - now)) drained, .null)]) ?_ ?_ ?_
          · exact Prog.Leaves.query fun drained => ⟨drained, rfl, rfl⟩
          · rintro drained log ⟨_, ⟨⟩, rfl⟩
            cases drained with
            | true =>
              refine (refund_rows _ _).mono ?_
              rintro log r ⟨rfl, rfl⟩ -
              exact ⟨.none, Nat.zero_le n, fun _ => by simp⟩
            | false =>
              -- The clock has passed `t`, so the deadline is one interval nearer.
              cases n with
              | zero =>
                refine fun env m htimely => absurd htimely.1 ?_
                omega
              | succ n =>
                have hnext : deadline ≤ now + min interval (deadline - now) + n * interval ∨ now < t := by
                  rw [Nat.succ_mul] at hn
                  omega
                subst hp
                rcases hnext with hnext | hback
                · refine (ih (polls + 1) n _ hnext).mono fun log r h htimely => ?_
                  exact h htimely.2
                · exact fun env m htimely => absurd htimely.1 (by omega)
          · rintro e log ⟨_, ⟨⟩, -⟩
      · rintro e log ⟨_, ⟨⟩, -⟩
    · rintro e log ⟨hrun, ⟨rfl, -⟩ | ⟨s, o, row, hs, rfl, -⟩⟩
      · exact .of_end ⟨rfl, by simpa using hrun⟩
      · exact fun _ => ⟨.last s o row hs, Nat.succ_le_succ (Nat.zero_le n), fun _ => by simpa using hrun⟩

/-! ## The whole call -/

/-- What a call of a binding with an `await` block hands over: its trigger once at most, and
where that was answered, the checks. -/
inductive AwaitRun (aw : AwaitRuntime) (ends : Value → Bool) (most : Nat) : List Handed → Prop
  | unfired : AwaitRun aw ends most []
  | refused (s : Submission) (o : Outcome) (row : Value) (h : s.stmt ∈ aw.triggerStmt) :
    AwaitRun aw ends most [(s, o, row)]
  | fired (s : Submission) (row : Value) {checks : List Handed} (h : s.stmt ∈ aw.triggerStmt)
    (hchecks : Checks aw.checkStmt ends checks) (hmost : checks.length ≤ most) :
    AwaitRun aw ends most ((s, .answered, row) :: checks)
  | unneeded {checks : List Handed} (h : aw.triggerStmt = none)
    (hchecks : Checks aw.checkStmt ends checks) (hmost : checks.length ≤ most) :
    AwaitRun aw ends most checks

theorem fireTrigger_rows (args : Value) (trigger : Option PreparedStmt) :
    LogsRows (fireTrigger lib rt args trigger) fun log r => r ≠ .error .running ∧
      ((log = [] ∧ (r.isOk → trigger = none)) ∨ ∃ s o row, s.stmt ∈ trigger ∧
        log = [(.statement s o, row)] ∧ (r.isOk → o = .answered)) := by
  cases trigger with
  | none => exact Prog.Leaves.pure ⟨ok_ne_running _, .inl ⟨rfl, fun _ => rfl⟩⟩
  | some stmt =>
    refine Prog.Leaves.bind _ (submitAwait_rows stmt args) ?_ ?_
    · rintro batch log ⟨-, ⟨rfl, hnot⟩ | ⟨s, o, row, rfl, rfl, hanswered⟩⟩
      · exact absurd rfl hnot
      · refine Prog.Leaves.pure ⟨ok_ne_running _, .inr ⟨s, o, row, rfl, rfl, fun _ => ?_⟩⟩
        exact (hanswered batch rfl).1
    · rintro e log ⟨hrun, ⟨rfl, -⟩ | ⟨s, o, row, rfl, rfl, -⟩⟩
      · exact ⟨by simpa using hrun, .inl ⟨rfl, fun h => absurd h Bool.false_ne_true⟩⟩
      · exact ⟨by simpa using hrun, .inr ⟨s, o, row, rfl, rfl, fun h => absurd h Bool.false_ne_true⟩⟩

/-- The time of an `await` block is over after this many intervals. -/
theorem timeout_le (cfg : AwaitCfg) (hpoll : 0 < cfg.pollIntervalMs) :
    cfg.timeoutMs ≤ (cfg.timeoutMs + cfg.pollIntervalMs - 1) / cfg.pollIntervalMs * cfg.pollIntervalMs := by
  have hlt := Nat.lt_mul_div_succ (cfg.timeoutMs + cfg.pollIntervalMs - 1) hpoll
  rw [Nat.mul_succ, Nat.mul_comm] at hlt
  omega

/-- The row satisfies the predicate with the arguments of the request. -/
def Runtime.satisfied (lib : CallLib δ) (rt : Runtime) (request : BackendRequest) (row : Value) : Bool :=
  (callArgs lib.redact lib.cursor rt.toProfileRuntime rt.backendName request).toOption.any
    (rt.awaitCfg.predicate row)

theorem executeAwaitLoop_rows (hpoll : 0 < rt.awaitCfg.pollIntervalMs) (aw : AwaitRuntime) (polls : Nat)
    (request : BackendRequest) :
    LogsRows (executeAwaitLoop lib rt aw polls request) fun log r => Timely 0 (log.map Prod.fst) →
      AwaitRun aw (rt.satisfied lib request) rt.awaitCfg.maxChecks (statements log) ∧
        (rt.awaitCfg.maxChecks ≤ polls → r ≠ .error .running) := by
  refine ofBackend_bind_logs (fun args hargs => ?_) fun e _ => ⟨.unfired, fun _ => by simp⟩
  have hends : rt.satisfied lib request = (rt.awaitCfg.predicate · args) := by
    funext row
    rw [Runtime.satisfied, hargs]
    rfl
  rw [hends]
  refine Prog.Leaves.bind _ (fireTrigger_rows args aw.triggerStmt) ?_ ?_
  · rintro _ log ⟨-, htrigger⟩
    refine Prog.Leaves.bind (fun log r => ∃ start : Nat, r = .ok start ∧
      log = [(.read start, .null)]) ?_ ?_ ?_
    · exact Prog.Leaves.query fun start => ⟨start, rfl, rfl⟩
    · rintro start _ ⟨_, ⟨⟩, rfl⟩
      have hdeadline : start + rt.awaitCfg.timeoutMs * 1000000 ≤ start +
          (rt.awaitCfg.timeoutMs + rt.awaitCfg.pollIntervalMs - 1) / rt.awaitCfg.pollIntervalMs *
            (rt.awaitCfg.pollIntervalMs * 1000000) := by
        rw [← Nat.mul_assoc]
        exact Nat.add_le_add_left (Nat.mul_le_mul_right _ (timeout_le _ hpoll)) _
      refine (pollLoop_rows aw.checkStmt args _ 0 polls _ start hdeadline).mono fun rest r h => ?_
      rcases htrigger with ⟨rfl, hnone⟩ | ⟨s, o, row, hs, rfl, hanswered⟩
      · intro htimely
        obtain ⟨hchecks, hmost, hend⟩ := h htimely.2
        exact ⟨.unneeded (hnone rfl) hchecks hmost, hend⟩
      · intro htimely
        obtain ⟨hchecks, hmost, hend⟩ := h htimely.2
        obtain rfl := hanswered rfl
        exact ⟨.fired s row hs hchecks hmost, hend⟩
    · rintro e _ ⟨_, ⟨⟩, -⟩
  · rintro e log ⟨hrun, ⟨rfl, -⟩ | ⟨s, o, row, hs, rfl, -⟩⟩ -
    · exact ⟨.unfired, fun _ => by simpa using hrun⟩
    · exact ⟨.refused s o row hs, fun _ => by simpa using hrun⟩

/-- The log of a run of `execute`, with the first rows of its statements. -/
def rowLog (lib : CallLib δ) (rt : Runtime) (env : Nat → (q : Question δ) → Answer q) (polls : Nat)
    (request : BackendRequest) : List RowItem :=
  Prog.logged rowItem env 0 (executeInnerImpl lib rt polls request)

theorem rowLog_fst (env : Nat → (q : Question δ) → Answer q) (polls : Nat)
    (request : BackendRequest) :
    (rowLog lib rt env polls request).map Prod.fst = callLog lib rt env polls request := by
  rw [rowLog, callLog, Prog.logged, Prog.logged, List.map_filterMap]
  refine congrArg (fun obs => List.filterMap obs _) (funext fun ev => ?_)
  rw [rowItem]
  cases logItem ev <;> rfl

/-- A call of a binding with an `await` block ends, and within this many checks, the last of
which is the first whose row satisfies the predicate. -/
theorem await_ends (lib : CallLib δ) {rt : Runtime} {aw : AwaitRuntime} (hawait : rt.awaitRt = some aw)
    (hpoll : 0 < rt.awaitCfg.pollIntervalMs) (env : Nat → (q : Question δ) → Answer q) {polls : Nat}
    (hpolls : rt.awaitCfg.maxChecks ≤ polls) (request : BackendRequest)
    (htimely : Timely 0 (callLog lib rt env polls request)) :
    Prog.result env 0 (executeInnerImpl lib rt polls request) ≠ .error .running ∧
      AwaitRun aw (rt.satisfied lib request) rt.awaitCfg.maxChecks
        (statements (rowLog lib rt env polls request)) := by
  have hcall : executeInnerImpl lib rt polls request = executeAwaitLoop lib rt aw polls request := by
    rw [executeInnerImpl, hawait]
  have hlogs : LogsRows (executeAwaitLoop lib rt aw polls request) _ :=
    executeAwaitLoop_rows hpoll aw polls request
  rw [← rowLog_fst] at htimely
  rw [rowLog, hcall] at htimely ⊢
  exact ⟨(hlogs env 0 htimely).2 hpolls, (hlogs env 0 htimely).1⟩

end

/-- A payment that is asked for, and waited for over two seconds. -/
def payment : AwaitRuntime where
  triggerStmt := some ⟨"INSERT INTO payments DEFAULT VALUES", [], .postgres⟩
  checkStmt := ⟨"SELECT state FROM payments", [], .postgres⟩

def payments : Runtime := { allOrders with awaitRt := some payment, awaitCfg := { timeoutMs := 2000 } }

/-- The clock goes on by half a second from question to question. -/
def halfSeconds : Nat → (q : Question String) → Answer q
  | n, .now => (n * 500000000 : Nat)
  | _, q => answering (fun _ => [.obj [("state", .str "pending")]]) q

/-- Two checks, and the time is over. -/
theorem payment_ends :
    Prog.result halfSeconds 0 (executeInnerImpl scanLib payments 3 { payload := none }) ≠
        .error .running ∧
      AwaitRun payment (payments.satisfied scanLib { payload := none }) 3
        (statements (rowLog scanLib payments halfSeconds 3 { payload := none })) := by
  have hlog : ∃ trigger check, callLog scanLib payments halfSeconds 3 { payload := none } =
      [.statement trigger .answered, .read 500000000, .statement check .answered, .read 1500000000,
        .slept 1000000000 false, .statement check .answered, .read 3000000000] :=
    ⟨⟨.pool .registered, .execute, ⟨"INSERT INTO payments DEFAULT VALUES", [], .postgres⟩, [], ⟨.empty⟩⟩,
      ⟨.pool .registered, .execute, payment.checkStmt, [], ⟨.empty⟩⟩, by decide +kernel⟩
  obtain ⟨trigger, check, hlog⟩ := hlog
  refine await_ends scanLib rfl (by decide) halfSeconds (by decide) _ ?_
  rw [hlog]
  simp [Timely]

end McpgSql.Execute
