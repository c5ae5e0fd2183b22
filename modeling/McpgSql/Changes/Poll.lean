import McpgSql.Changes.Plan
import McpgSql.Library.Keyset
import McpgSql.Library.Machine

/-!
# Polling

The loop of `poll` over the rows of a page, and the runs of a watch as a
machine: rows commit, pages are read, queries fail or are cancelled, the process
stops at any row and the watch resumes from the cursor of its last event.

What the query is taken to do: it answers the first `:_limit` rows with a key
above the `:_after_*` values, in key order (`keysetRows`). The order of keys is
the database's: `rank` embeds them in a linear order.
-/

namespace McpgSql.Changes

open Library

/-! ## The rows of a page -/

section

variable (plan : Plan) (lib : Lib) (uri : String)

/-- A list of texts as `{:?}` writes it; column names need no escape. -/
def debugList (names : List String) : String :=
  "[" ++ ", ".intercalate (names.map fun name => "\"" ++ name ++ "\"") ++ "]"

def keylessError : SqlError :=
  .invalidSpec ("sql_changes: a row has no value for a key column of " ++
    debugList plan.keyColumns ++ "; select every key column, never null")

/-- The event that is emitted for a row: none when its `op_column` names no
change, or when the event is too large. -/
def emittedEvent (row : Value) (key : List Value) : Option WatchEvent :=
  (rowEvent plan lib uri row key).filter fun event => lib.eventSize event ≤ maxEventBytes

/-- What `poll` works on: the key, what the sink got, and how many events this
tick has emitted. -/
structure Emitting where
  key : List Value
  events : List WatchEvent
  emitted : Nat

/-- One row: its event is emitted, or it is passed over, and the key moves to it. -/
def emitRow (st : Emitting) (row : Value) : Except SqlError Emitting :=
  match rowKey plan row with
  | none => .error (keylessError plan)
  | some next => match emittedEvent plan lib uri row next with
    | none => .ok { st with key := next }
    | some event => .ok { key := next, events := st.events ++ [event], emitted := st.emitted + 1 }

/-- The rows of a page, up to one without its key. -/
def emitRows : Emitting → List Value → Emitting × Option SqlError
  | st, [] => (st, none)
  | st, row :: rows => match emitRow plan lib uri st row with
    | .error e => (st, some e)
    | .ok st' => emitRows st' rows

/-- How a round of `poll`'s loop ends. -/
inductive PageEnd where
  | more
  | done
  | failed (e : SqlError)

/-- One round of `poll`'s loop after the query answered `rows`. -/
def pollPage (st : Emitting) (rows : List Value) (cancelled : Bool) : Emitting × PageEnd :=
  match emitRows plan lib uri st (rows.take plan.batchSize) with
  | (st, some e) => (st, .failed e)
  | (st, none) =>
    if rows.length < plan.batchSize || maxRowsPerTick ≤ st.emitted || cancelled then (st, .done)
    else (st, .more)

end

/-! ## The table -/

/-- A row with a value for every key column. -/
structure KeyedRow (plan : Plan) where
  row : Value
  key : List Value
  keyed : rowKey plan row = some key

section

variable {κ : Type} [LinearOrder κ] (plan : Plan) (rank : List Value → κ)

/-- The committed rows, in key order; the key is unique. -/
structure Table where
  rows : List (KeyedRow plan)
  increasing : Increasing (fun r => rank r.key) rows

variable {plan}

/-- The answer of the query on these arguments. -/
def keysetRows (table : Table plan rank) (args : List BoundParam) : List Value :=
  match plan.keyColumns.mapM fun column => argument args (afterPrefix ++ column),
      (argument args limitPlaceholder).bind Value.asU64 with
  | some after, some limit =>
    ((above (fun r => rank r.key) table.rows (rank after)).take limit).map KeyedRow.row
  | _, _ => []

/-! ## The machine -/

/-- Where the watch is: between ticks, in a tick that has emitted some events, or
not running. -/
inductive Phase where
  | idle
  | polling (emitted : Nat)
  | stopped
deriving DecidableEq

variable (plan) in
structure Watch where
  table : Table plan rank
  /-- The key the watch started after. -/
  start : List Value
  key : List Value
  /-- What the sink got, of every start of the watch. -/
  events : List WatchEvent := []
  phase : Phase := .idle

variable (plan) in
inductive Action where
  /-- Rows commit. -/
  | commit (rows : List (KeyedRow plan))
  | tick
  /-- The query of a page fails or times out. -/
  | failed (e : SqlError)
  /-- The watch is cancelled, or its process ends, with no page at hand. -/
  | cancel
  /-- The query of a page is answered; `cancelled` is read after its rows. -/
  | page (nowSecs : Int) (cancelled : Bool)
  /-- The process ends after some rows of a page. -/
  | kill (nowSecs : Int) (rows : Nat)
  /-- The watch starts again; `latest` is what the latest query answers. -/
  | restart (latest : List Value)

variable {rank} (lib : Lib) (uri : String) (reason : Value → String)

namespace Watch

variable (w : Watch plan rank)

/-- The key to resume after: the cursor of the last event, or the start key when
there is no event yet. -/
def resume (latest : List Value) : Except String (Watch plan rank) :=
  match w.events.getLast? with
  | none => .ok { w with
      start := startKey plan latest, key := startKey plan latest, phase := .idle }
  | some event => match event.upstreamCursor with
    | none => .error "no stored position"
    | some cursor => match resumeKey reason plan cursor with
      | .error e => .error e
      | .ok key => .ok { w with key, phase := .idle }

/-- The phase a round of `poll`'s loop ends in; a failed one ends the tick. -/
def after (emitted : Nat) : PageEnd → Phase
  | .more => .polling emitted
  | .done | .failed _ => .idle

/-- The watch after an action, `none` when it cannot happen. -/
def next : Action plan → Option (Watch plan rank)
  | .commit rows =>
    if h : Increasing (fun r => rank r.key) (w.table.rows ++ rows) then
      some { w with table := ⟨w.table.rows ++ rows, h⟩ }
    else none
  | .tick => match w.phase with
    | .idle => some { w with phase := .polling 0 }
    | _ => none
  | .failed _ => match w.phase with
    | .polling _ => some { w with phase := .idle }
    | _ => none
  | .cancel => some { w with phase := .stopped }
  | .page nowSecs cancelled => match w.phase with
    | .polling emitted => match pageArgs plan w.key nowSecs with
      | none => some { w with phase := .stopped }
      | some args =>
        let (st, ended) := pollPage plan lib uri ⟨w.key, w.events, emitted⟩
          (keysetRows rank w.table args) cancelled
        some { w with key := st.key, events := st.events, phase := after st.emitted ended }
    | _ => none
  | .kill nowSecs rows => match w.phase with
    | .polling emitted => (pageArgs plan w.key nowSecs).map fun args =>
      let st := (emitRows plan lib uri ⟨w.key, w.events, emitted⟩
        (((keysetRows rank w.table args).take plan.batchSize).take rows)).1
      { w with key := st.key, events := st.events, phase := .stopped }
    | _ => none
  | .restart latest => match w.phase with
    | .stopped => (w.resume reason latest).toOption
    | _ => none

end Watch

/-- The runs of a watch: it starts after its start key, with nothing emitted. -/
def changesMachine : Machine (Watch plan rank) (Action plan) where
  init w := (∃ latest, w.start = startKey plan latest) ∧ w.key = w.start ∧ w.events = [] ∧
    w.phase = .idle
  step w a w' := w.next lib uri reason a = some w'

end

end McpgSql.Changes
