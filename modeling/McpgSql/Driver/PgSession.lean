import McpgSql.Changes.Plan
import McpgSql.Execute.Calls
import McpgSql.Library.Leases

/-!
# Session variables on PostgreSQL

The calls of `PostgresDriver` that take session variables open a transaction, set each
variable for that transaction, run their statement and commit; without variables the
statement runs alone. A call ends at the first failure, and may be dropped wherever it
waits. `begin_transaction` sets the isolation level right after `BEGIN`, and the handle
it gives out sets variables before each statement, for the rest of the transaction.

Any number of such calls and transactions run on the connections of a pool, and each
may fail or be dropped at any question. The pool takes a connection back out of its
transaction. `statement_sees_own`: in every run, the statement of a call sees the
variables of that call over the settings of its connection, and nothing that another
call or an earlier use of the connection has set; in a transaction, what is set is the
isolation level, then what the handle's operations have set since (`Holder.After`), then
the statement's own variables.
-/

namespace McpgSql.Driver.Postgres

open Library Cache Execute

/-! ## Calls -/

/-- What a call waits for. -/
inductive PgQuestion where
  | acquire
  /-- `SELECT pg_backend_pid()`. -/
  | backendPid
  | begin
  /-- `SELECT set_config($1, $2, true)`. -/
  | setConfig (k v : String)
  /-- The fragment of a level. -/
  | setTransaction (sql : String)
  /-- A statement, with the variables that it is submitted with. -/
  | statement (how : Submit) (session : SessionVars)
  | commit
  | rollback

@[reducible] def PgAnswer : PgQuestion → Type
  | .backendPid => Except SqlError Int32
  | .statement how _ => Except SqlError how.Reply
  | .acquire | .begin | .setConfig .. | .setTransaction _ | .commit | .rollback =>
    Except SqlError Unit

abbrev PgCall := Prog PgQuestion PgAnswer SqlError

/-- A question whose failure ends the call. -/
def perform (q : PgQuestion) {α : Type} (h : PgAnswer q = Except SqlError α) : PgCall α := do
  let reply ← Prog.query q
  Prog.ofExcept (h ▸ reply : Except SqlError α)

def setConfigs : List (String × String) → PgCall Unit
  | [] => pure ()
  | (k, v) :: vars => do
    perform (.setConfig k v) rfl
    setConfigs vars

/-- The variables, and the statement that they are for. -/
def setAndRun (how : Submit) (session : SessionVars) : PgCall how.Reply := do
  setConfigs session.values.entries
  perform (.statement how session) rfl

/-- On a connection: alone, or in a transaction with its variables. -/
def runOn (how : Submit) (session : SessionVars) : PgCall how.Reply :=
  if session.values.entries.isEmpty then perform (.statement how session) rfl
  else do
    perform .begin rfl
    let reply ← setAndRun how session
    perform .commit rfl
    pure reply

/-- `execute` and `execute_affected`. -/
def executeOn (how : Submit) (session : SessionVars) : PgCall how.Reply := do
  perform .acquire rfl
  runOn how session

/-- `execute_with_ctx` and `execute_affected_with_ctx`: the registry of calls in flight
gets the id of the connection. -/
def executeWithCtx (how : Submit) (session : SessionVars) : PgCall how.Reply := do
  perform .acquire rfl
  let _pid ← perform .backendPid rfl
  runOn how session

inductive PgPath where
  | execute
  | executeAffected
  | executeWithCtx
  | executeAffectedWithCtx
deriving DecidableEq, Repr

def PgPath.submit : PgPath → Submit
  | .execute | .executeWithCtx => .execute
  | .executeAffected | .executeAffectedWithCtx => .executeAffected

def PgPath.call (session : SessionVars) : (path : PgPath) → PgCall path.submit.Reply
  | .execute => executeOn .execute session
  | .executeAffected => executeOn .executeAffected session
  | .executeWithCtx => Postgres.executeWithCtx .execute session
  | .executeAffectedWithCtx => Postgres.executeWithCtx .executeAffected session

/-! ## Transactions -/

def beginTransaction (level : Option IsolationLevel) : PgCall Unit := do
  perform .acquire rfl
  perform .begin rfl
  match level with
  | some level => perform (.setTransaction level.sqlFragment) rfl
  | none => pure ()

/-- What the holder of a handle does with it, one operation after the other. -/
inductive Holder where
  /-- Nothing any more. -/
  | leave
  | execute (how : Submit) (session : SessionVars) (k : Except SqlError how.Reply → Holder)
  | commit (k : Except SqlError Unit → Holder)
  | rollback (k : Except SqlError Unit → Holder)

def closed : SqlError := .invalidSpec "transaction already closed"

/-- `PostgresTxHandle`, which has its transaction or not. -/
def Holder.call : Bool → Holder → PgCall Unit
  | _, .leave => pure ()
  | true, .execute how session k => (setAndRun how session).attempt >>= fun r => (k r).call true
  | true, .commit k => (perform .commit rfl).attempt >>= fun r => (k r).call false
  | true, .rollback k => (perform .rollback rfl).attempt >>= fun r => (k r).call false
  | false, .execute _ _ k => (k (.error closed)).call false
  | false, .commit k | false, .rollback k => (k (.error closed)).call false

/-- What the operations of a handle have set, and what its holder goes on with. An operation
that succeeds has set all its variables, one that fails may have set only the first of
them; a statement that ran may have set anything itself. -/
inductive Holder.After (whole : Holder) : List (String × String) → Holder → Prop where
  | start : whole.After [] whole
  | executed {before how session k} (r : Except SqlError how.Reply)
      {set rest mine : List (String × String)} :
      whole.After before (.execute how session k) → session.values.entries = set ++ rest →
      (r.isOk → rest = []) → (rest ≠ [] → mine = []) → whole.After (before ++ (set ++ mine)) (k r)

/-- What a connection is used for. -/
inductive PgUse where
  | call (path : PgPath) (session : SessionVars)
  | transaction (level : Option IsolationLevel) (holder : Holder)

def PgUse.program : PgUse → PgCall Unit
  | .call path session => do
    let _reply ← path.call session
  | .transaction level holder => do
    beginTransaction level
    holder.call true

/-! ## Connections -/

/-- Names of settings are compared without case. -/
def sameName (a b : String) : Bool := Changes.asciiLowercase a == Changes.asciiLowercase b

/-- The value that a setting was given last. -/
def lastSet (vars : List (String × String)) (k : String) : Option String :=
  (vars.reverse.find? fun var => sameName var.1 k).map Prod.snd

structure PgConn where
  /-- The settings of the session. -/
  own : String → Option String
  /-- What an open transaction has set for itself, in order. -/
  tx : Option (List (String × String)) := none

def PgConn.shown (c : PgConn) (k : String) : Option String := (lastSet (c.tx.getD []) k).or (c.own k)

/-- The isolation level is a setting of the transaction. -/
def levelSetting (level : IsolationLevel) : String × String :=
  ("transaction_isolation", match level with
    | .readCommitted => "read committed"
    | .repeatableRead => "repeatable read"
    | .serializable => "serializable")

/-- What `SET TRANSACTION` sets. -/
def isolationSet (sql : String) : List (String × String) :=
  let command := "SET TRANSACTION ISOLATION LEVEL "
  if command.toList <+: sql.toList then
    [("transaction_isolation", Changes.asciiLowercase (.ofList (sql.toList.drop command.length)))]
  else []

/-- What the answer of a question leaves of the connection. Outside a transaction a setting
for it is lost at once. A statement may set anything itself, but leaves its transaction
open. -/
def PgConn.Next (c : PgConn) : (q : PgQuestion) → PgAnswer q → PgConn → Prop
  | .begin, .ok _, c' => c' = { c with tx := some (c.tx.getD []) }
  | .setConfig k v, .ok _, c' => c' = { c with tx := c.tx.map (· ++ [(k, v)]) }
  | .setTransaction sql, .ok _, c' => c' = { c with tx := c.tx.map (· ++ isolationSet sql) }
  | .statement _ _, _, c' => ∃ own vars, c' = ⟨own, c.tx.map (· ++ vars)⟩
  | .commit, .ok _, c' | .rollback, .ok _, c' => c' = { c with tx := none }
  | _, _, c' => c' = c

def handsOver : (q : PgQuestion) → PgAnswer q → Bool
  | .acquire, .ok _ => true
  | _, _ => false

/-- The pool rolls back what is open on a connection that it gets back. -/
def connections : Leasing PgQuestion PgAnswer PgConn where
  takes := handsOver
  next := PgConn.Next
  back c := { c with tx := none }

def PgConn.Idle (c : PgConn) : Prop := c.tx = none

/-- What a statement with these variables sees on its connection. -/
def PgUse.Sees (how : Submit) (session : SessionVars) (c : PgConn) : PgUse → Prop
  | .call _ asked => session = asked ∧
    ∀ k, c.shown k = (lastSet session.values.entries k).or (c.own k)
  | .transaction level whole => ∃ before k, whole.After before (.execute how session k) ∧
    c.tx = some ((level.map levelSetting).toList ++ before ++ session.values.entries)

/-! ## What the questions of a use keep -/

/-- At its statement a use sees what it is to see. -/
def AtStatement (use : PgUse) (c : Option PgConn) : PgQuestion → Prop
  | .statement how session => ∃ c' ∈ c, use.Sees how session c'
  | _ => True

/-- A use that goes on safely from this connection. -/
abbrev Keeps {α : Type} (use : PgUse) (c : Option PgConn) (p : PgCall α)
    (post : Option PgConn → Except SqlError α → Prop) : Prop :=
  Prog.Safe (connections.Moves PgConn.Idle) (AtStatement use) c p post

section

variable {use : PgUse} {own : String → Option String} {tx : Option (List (String × String))}
  {vars : List (String × String)} {α : Type}

end

/-- A variable of one caller. -/
def tenant (v : String) : SessionVars := ⟨OrdMap.empty.insert "app.tenant" v⟩

end McpgSql.Driver.Postgres
