import McpgSql.Library.Except
import McpgSql.Params
import McpgSql.Protocol

/-!
# The plan of a `sql_changes` watch

The spec of a watch and its compilation (`compile`), and what the poll loop
computes from a plan: the arguments of a page, the key and the event of a row,
the key to start or resume from.

* `compile_ok`: what a compiled plan satisfies;
* `pageArgs_bind`: the arguments of a page bind the key, the batch size and the
  settle bound by name.
-/

namespace McpgSql.Changes

open Library

def eventType : String := "sql.row.changed"
def limitPlaceholder : String := "_limit"
def settlePlaceholder : String := "_settle_before"
def afterPrefix : String := "_after_"
def cursorVersion : Nat := 1
def minIntervalMs : Nat := 100
def defaultIntervalMs : Nat := 1000
def defaultBatchSize : Nat := 100
def maxBatchSize : Nat := 500
def maxRowsPerTick : Nat := 500
def maxEventBytes : Nat := 256 * 1024
def defaultTimeoutMs : Nat := 30000

/-! ## Specs -/

/-- Where a source with no stored position starts. -/
inductive ChangesStart where
  | latest
  | beginning
deriving DecidableEq, Repr

/-- What a change did to its row. -/
inductive ChangeOp where
  | insert
  | update
  | delete
deriving DecidableEq, Repr

/-- `to_ascii_lowercase`. -/
def asciiLowercase (s : String) : String := String.ofList (s.toList.map Char.toLower)

/-- The op a value names, in any letter case. -/
def ChangeOp.of (value : Value) : Option ChangeOp := do
  let text ← value.asStr
  match asciiLowercase text with
  | "insert" => some .insert
  | "update" => some .update
  | "delete" => some .delete
  | _ => none

/-- The op as JSON. -/
def ChangeOp.text : ChangeOp → String
  | .insert => "insert"
  | .update => "update"
  | .delete => "delete"

structure SqlChangesWatchSpec where
  connection : SqlBackendConfig
  keyColumns : List String
  /-- The key before the first row, by column. -/
  initial : List (String × Value)
  start : ChangesStart := .latest
  latestSql : Option String := none
  batchSize : Nat := defaultBatchSize
  intervalMs : Nat := defaultIntervalMs
  occurredAtColumn : Option String := none
  opColumn : Option String := none
  settleMs : Option Nat := none

/-- The compiled form of a spec. -/
structure Plan where
  stmt : PreparedStmt
  latest : Option PreparedStmt
  keyColumns : List String
  initial : List Value
  start : ChangesStart
  batchSize : Nat
  intervalMs : Nat
  timeoutMs : Nat
  occurredAtColumn : Option String
  opColumn : Option String
  settleMs : Option Nat

/-- The checks of the configuration that `compile` runs: what they answer is left
open here. -/
structure Guards where
  validate : SqlBackendConfig → Except SqlError Unit
  rejectMultiStatement : String → Except SqlError Unit
  rejectPrivilegedDdl : String → Except SqlError Unit

/-- Checks that refuse nothing. -/
def sampleGuards : Guards where
  validate _ := .ok ()
  rejectMultiStatement _ := .ok ()
  rejectPrivilegedDdl _ := .ok ()

def invalid (m : String) : SqlError := .invalidSpec ("sql_changes: " ++ m)

/-- An error unless `ok`. -/
def ensure (ok : Bool) (e : SqlError) : Except SqlError Unit := if ok then .ok () else .error e

def isColumnName (s : String) : Bool := !(utf8 s).isEmpty && (utf8 s).all isNameByte

namespace SqlChangesWatchSpec

variable (spec : SqlChangesWatchSpec)

def keyColumnError (column : String) : SqlError :=
  invalid ("key_columns: `" ++ column ++ "` is not a column name of [A-Za-z0-9_]")

/-- The value `initial` gives for a key column. -/
def initialValue (column : String) : Except SqlError Value :=
  match Assoc.get? spec.initial column with
  | some value =>
    if value.isNull then
      .error (invalid ("initial must give a value for key column `" ++ column ++ "`"))
    else .ok value
  | none => .error (invalid ("initial must give a value for key column `" ++ column ++ "`"))

/-- An optional column of the spec has a column's name. -/
def optionalColumn (field : String) : Option String → Except SqlError Unit
  | some column => ensure (isColumnName column)
      (invalid (field ++ ": `" ++ column ++ "` is not a column name of [A-Za-z0-9_]"))
  | none => .ok ()

/-- The placeholders the query binds: all of these, and no other. -/
def allowed : List String :=
  spec.keyColumns.map (afterPrefix ++ ·) ++ [limitPlaceholder] ++
    if spec.settleMs.isSome then [settlePlaceholder] else []

/-- The query binds exactly the allowed placeholders. -/
def checkPlaceholders (order : List String) : Except SqlError Unit :=
  match order.find? (· ∉ spec.allowed) with
  | some unknown => .error (invalid ("query.sql binds `:" ++ unknown ++ "`; it may bind only " ++
      ", ".intercalate (spec.allowed.map (":" ++ ·))))
  | none => match spec.allowed.find? (· ∉ order) with
    | some missing => .error (invalid ("query.sql must bind `:" ++ missing ++
        "`: the rows after the last key, at most :" ++ limitPlaceholder ++ " of them" ++
        if spec.settleMs.isSome then ", older than :_settle_before" else ""))
    | none => .ok ()

/-- The statement of `latest_sql`. -/
def compileLatest (guards : Guards) : Except SqlError (Option PreparedStmt) :=
  match spec.start, spec.latestSql with
  | .latest, none => .error (invalid
      "start: latest needs latest_sql, a query giving the newest key; or set start: beginning")
  | _, some latestSql => do
    guards.rejectMultiStatement latestSql
    guards.rejectPrivilegedDdl latestSql
    let (rewritten, order) := rewritePlaceholders latestSql spec.connection.driver
    match order.head? with
    | some name => .error (invalid ("latest_sql binds `:" ++ name ++ "`; it takes no placeholders"))
    | none => return some { sql := rewritten, paramOrder := [], driver := spec.connection.driver }
  | .beginning, none => .ok none

/-- The SQL of the query. -/
def sql : Except SqlError String :=
  match spec.connection.query.body with
  | .sql sql => .ok sql
  | .procedure _ | .sqlFile _ => .error (invalid
      "query needs `sql`: a keyset SELECT, not a procedure or file")

/-- The plan of a spec; the order of the checks decides which error is
reported. -/
def compile (guards : Guards) : Except SqlError Plan := do
  guards.validate spec.connection
  ensure (spec.connection.query.rowMode = .many) (invalid "query.row_mode must be `many`")
  let sql ← spec.sql
  ensure (!spec.keyColumns.isEmpty) (invalid "key_columns must name at least one column")
  spec.keyColumns.forM fun column => ensure (isColumnName column) (keyColumnError column)
  let initial ← spec.keyColumns.mapM spec.initialValue
  ensure (spec.initial.all (·.1 ∈ spec.keyColumns)) (invalid ("initial: `" ++
    ((spec.initial.map Prod.fst).find? (· ∉ spec.keyColumns)).getD "" ++ "` is not a key column"))
  ensure (1 ≤ spec.batchSize && spec.batchSize ≤ maxBatchSize) (invalid ("batch_size must be 1 to " ++
    toString maxBatchSize ++ ", not " ++ toString spec.batchSize))
  ensure (minIntervalMs ≤ spec.intervalMs)
    (invalid ("interval_ms must be at least " ++ toString minIntervalMs))
  optionalColumn "occurred_at_column" spec.occurredAtColumn
  optionalColumn "op_column" spec.opColumn
  ensure (spec.settleMs ≠ some 0) (invalid "settle_ms must be greater than 0")
  guards.rejectMultiStatement sql
  guards.rejectPrivilegedDdl sql
  let (rewritten, order) := rewritePlaceholders sql spec.connection.driver
  spec.checkPlaceholders order
  let latest ← spec.compileLatest guards
  return {
    stmt := { sql := rewritten, paramOrder := order, driver := spec.connection.driver }
    latest
    keyColumns := spec.keyColumns
    initial
    start := spec.start
    batchSize := spec.batchSize
    intervalMs := spec.intervalMs
    timeoutMs := spec.connection.query.timeoutMs.getD defaultTimeoutMs
    occurredAtColumn := spec.occurredAtColumn
    opColumn := spec.opColumn
    settleMs := spec.settleMs }

end SqlChangesWatchSpec

/-! ## What a page and its rows are -/

/-- The value of a placeholder after `key`; `none` is a panic: a name that is too
short, or a key with too few values. -/
def placeholderValue (plan : Plan) (key : List Value) (nowSecs : Int) (name : String) :
    Option Value :=
  if name = limitPlaceholder then some (.ofNat plan.batchSize)
  else if name = settlePlaceholder then
    -- `as_secs`: the whole seconds of the window.
    some (.ofInt (nowSecs - (plan.settleMs.elim 0 (· / 1000) : Nat)))
  else if name.length < afterPrefix.length then none
  else
    let column := String.ofList (name.toList.drop afterPrefix.length)
    key[(plan.keyColumns.findIdx? (· = column)).getD 0]?

/-- The arguments of one page after `key`. -/
def pageArgs (plan : Plan) (key : List Value) (nowSecs : Int) : Option (List BoundParam) :=
  plan.stmt.paramOrder.mapM fun name =>
    (placeholderValue plan key nowSecs name).map fun value => { name, value }

/-- The key of a row; `none` when a key column is missing or null. -/
def rowKey (plan : Plan) (row : Value) : Option (List Value) :=
  plan.keyColumns.mapM fun column => (row.get column).filter fun v => !v.isNull

/-- What events take from the libraries: `serde_json`'s text of a key and size of
an event, BLAKE3 as hexadecimal text, and `chrono`'s reading of a time, as its
RFC 3339 text in UTC. -/
structure Lib where
  keyJson : List Value → String
  eventSize : WatchEvent → Nat
  blake3Hex : List UInt8 → String
  parseRfc3339 : String → Option String
  parseNaive : String → String → Option String
  fromTimestamp : Int → Option String

/-- A library for which all events are small. -/
def sampleLib : Lib where
  keyJson _ := "[1]"
  eventSize _ := 200
  blake3Hex _ := "0123456789abcdef0123456789abcdef"
  parseRfc3339 _ := none
  parseNaive _ _ := none
  fromTimestamp _ := none

/-- The number as an `i64`. -/
def asI64 : Number → Option Int
  | .pos n => if n < 2 ^ 63 then some n else none
  | .neg n => some (.negSucc n)
  | .float _ => none

/-- RFC 3339 UTC of a column value: RFC 3339 text, a naive timestamp read as UTC,
or Unix seconds. -/
def occurredAt (lib : Lib) : Value → Option String
  | .str text => (lib.parseRfc3339 text).or
      (["%Y-%m-%dT%H:%M:%S%.f", "%Y-%m-%d %H:%M:%S%.f"].findSome? fun format =>
        lib.parseNaive format text)
  | .num n => (asI64 n).bind lib.fromTimestamp
  | _ => none

/-- The position after a row, as JSON. -/
def cursorValue (key : List Value) : Value :=
  .object [("v", .ofNat cursorVersion), ("k", .arr key)]

/-- What the `op_column` says of a row; every row is an insert without one. -/
def rowOp (plan : Plan) (row : Value) : Option ChangeOp :=
  match plan.opColumn with
  | some column => (row.get column).bind ChangeOp.of
  | none => some .insert

/-- The event of a row; `none` when its `op_column` names no change. -/
def rowEvent (plan : Plan) (lib : Lib) (uri : String) (row : Value) (key : List Value) :
    Option WatchEvent :=
  (rowOp plan row).map fun op =>
    { eventId := some ("row-" ++ String.ofList ((lib.blake3Hex
        (utf8 uri ++ [0] ++ utf8 (lib.keyJson key))).toList.take 32))
      eventType := some eventType
      occurredAt := (plan.occurredAtColumn.bind row.get).bind (occurredAt lib)
      data := some (.object [("op", .str op.text), ("row", row)])
      upstreamCursor := some (cursorValue key) }

/-! ## Where a watch starts -/

/-- `serde_json` reads a cursor from an object, or from a list of its fields. -/
def readCursor : Value → Option (Nat × List Value)
  | .obj members => do
    let v ← (Assoc.get? members "v").bind Value.asU64
    match Assoc.get? members "k" with
    | some (.arr k) => some (v, k)
    | _ => none
  | .arr [v, .arr k] => (Value.asU64 v).map (·, k)
  | _ => none

/-- The key a stored cursor names; an error when it does not fit the spec.
`reason` is `serde_json`'s. -/
def resumeKey (reason : Value → String) (plan : Plan) (resume : Value) :
    Except String (List Value) :=
  match readCursor resume with
  | none => .error ("sql_changes: the stored position is not one this plugin wrote: " ++
      reason resume)
  | some (v, k) =>
    if v ≠ cursorVersion ∨ k.length ≠ plan.keyColumns.length then
      .error ("sql_changes: the stored position has " ++ toString k.length ++ " key values for " ++
        toString plan.keyColumns.length ++
        " key columns; the key changed, so the source starts over under a new event type")
    else .ok k

/-- The key a first start begins after: `initial`, or the newest key for `start:
latest`; `rows` is the answer of the latest query. -/
def startKey (plan : Plan) (rows : List Value) : List Value :=
  match plan.latest with
  | some _ =>
    if plan.start = .latest then (rows.head?.bind (rowKey plan)).getD plan.initial
    else plan.initial
  | none => plan.initial

/-! ## Compiled plans -/

/-- The placeholders a query of the plan binds. -/
def Plan.placeholders (plan : Plan) : List String :=
  plan.keyColumns.map (afterPrefix ++ ·) ++ [limitPlaceholder] ++
    if plan.settleMs.isSome then [settlePlaceholder] else []

/-- The key has the value of its column for each key column. A column named twice
has one value. -/
def Plan.Keyed (plan : Plan) (key : List Value) : Prop :=
  ∃ value : String → Value, key = plan.keyColumns.map value

/-- What `compile` makes sure of. -/
structure Plan.Compiled (plan : Plan) : Prop where
  bound : ∀ name, name ∈ plan.stmt.paramOrder ↔ name ∈ plan.placeholders
  keyColumns : plan.keyColumns ≠ []
  batchSize : 1 ≤ plan.batchSize ∧ plan.batchSize ≤ maxBatchSize
  initial : plan.Keyed plan.initial
  settleMs : plan.settleMs ≠ some 0

theorem ensure_eq_ok {ok : Bool} {e : SqlError} : ensure ok e = .ok () ↔ ok = true := by
  unfold ensure
  cases ok <;> simp

theorem SqlChangesWatchSpec.checkPlaceholders_ok {spec : SqlChangesWatchSpec} {order : List String}
    (h : spec.checkPlaceholders order = .ok ()) (name : String) :
    name ∈ order ↔ name ∈ spec.allowed := by
  unfold checkPlaceholders at h
  split at h
  · cases h
  · rename_i hunknown
    split at h
    · cases h
    · rename_i hmissing
      simp only [List.find?_eq_none, decide_eq_true_eq, not_not] at hunknown hmissing
      exact ⟨hunknown name, hmissing name⟩

theorem compile_ok {spec : SqlChangesWatchSpec} {guards : Guards} {plan : Plan}
    (h : spec.compile guards = .ok plan) :
    plan.Compiled ∧ plan.settleMs = spec.settleMs ∧ plan.keyColumns = spec.keyColumns := by
  unfold SqlChangesWatchSpec.compile at h
  simp only [bind_eq_ok, pure_eq_ok] at h
  obtain ⟨_, -, _, -, sql, -, _, hcolumns, _, -, initial, hinitial, _, -, _, hbatch, _, -, _, -,
    _, -, _, hsettle, _, -, _, -, _, horder, latest, -, rfl⟩ := h
  refine ⟨⟨SqlChangesWatchSpec.checkPlaceholders_ok horder, ?_, ?_, ?_, ?_⟩, rfl, rfl⟩
  · simpa using ensure_eq_ok.mp hcolumns
  · simpa using ensure_eq_ok.mp hbatch
  · refine ⟨fun column => (Assoc.get? spec.initial column).getD .null, mapM_eq_ok _ ?_ hinitial⟩
    intro column value hvalue
    unfold SqlChangesWatchSpec.initialValue at hvalue
    split at hvalue
    · rename_i found hget
      split at hvalue
      · cases hvalue
      · cases hvalue
        rw [hget]
        rfl
    · cases hvalue
  · simpa using ensure_eq_ok.mp hsettle

theorem rowKey_keyed {plan : Plan} {row : Value} {key : List Value} (h : rowKey plan row = some key) :
    plan.Keyed key :=
  ⟨fun column => (row.get column).getD .null, mapM_eq_some _ (fun column value hvalue => by
    rw [(Option.filter_eq_some_iff.mp hvalue).1]
    rfl) h⟩

/-- Every key a watch starts from has the values of its columns. -/
theorem startKey_keyed {plan : Plan} (h : plan.Compiled) (rows : List Value) :
    plan.Keyed (startKey plan rows) := by
  unfold startKey
  split
  · split
    · cases hkey : rows.head?.bind (rowKey plan) with
      | none => exact h.initial
      | some key =>
        obtain ⟨row, -, hrow⟩ := Option.bind_eq_some_iff.mp hkey
        exact rowKey_keyed hrow
    · exact h.initial
  · exact h.initial

/-- What a query finds bound to a name. -/
def argument (args : List BoundParam) (name : String) : Option Value :=
  (args.find? (·.name = name)).map BoundParam.value

theorem afterPrefix_toList (column : String) :
    (afterPrefix ++ column).toList = '_' :: 'a' :: 'f' :: 't' :: 'e' :: 'r' :: '_' :: column.toList := by
  rw [String.toList_append]
  rfl

theorem afterPrefix_ne (column : String) :
    afterPrefix ++ column ≠ limitPlaceholder ∧ afterPrefix ++ column ≠ settlePlaceholder := by
  refine ⟨fun h => ?_, fun h => ?_⟩
  · have hlist := congrArg String.toList h
    rw [afterPrefix_toList, show limitPlaceholder.toList = ['_', 'l', 'i', 'm', 'i', 't'] by decide]
      at hlist
    cases hlist
  · have hlist := congrArg String.toList h
    rw [afterPrefix_toList, show settlePlaceholder.toList =
      ['_', 's', 'e', 't', 't', 'l', 'e', '_', 'b', 'e', 'f', 'o', 'r', 'e'] by decide] at hlist
    cases hlist

/-- The value of a key column is at the column's first place. -/
theorem placeholderValue_key {plan : Plan} (key : List Value) (nowSecs : Int) {column : String}
    (hcolumn : column ∈ plan.keyColumns) :
    placeholderValue plan key nowSecs (afterPrefix ++ column) = key[plan.keyColumns.idxOf column]? := by
  obtain ⟨hlimit, hsettle⟩ := afterPrefix_ne column
  have hlen : ¬ (afterPrefix ++ column).length < afterPrefix.length := by
    rw [String.length_append]
    omega
  have hdrop : String.ofList ((afterPrefix ++ column).toList.drop afterPrefix.length) = column := by
    rw [afterPrefix_toList, show afterPrefix.length = 7 by decide]
    exact String.ofList_toList
  have hfound : plan.keyColumns.findIdx? (· = column) = some (plan.keyColumns.idxOf column) :=
    List.findIdx?_eq_some_of_exists ⟨column, hcolumn, by simp⟩
  simp only [placeholderValue, hlimit, hsettle, hlen, hdrop, hfound, ↓reduceIte, Option.getD_some]

theorem placeholderValue_after {plan : Plan} {value : String → Value} (nowSecs : Int)
    {column : String} (hcolumn : column ∈ plan.keyColumns) :
    placeholderValue plan (plan.keyColumns.map value) nowSecs (afterPrefix ++ column) =
      some (value column) := by
  have hlt := List.idxOf_lt_length_of_mem hcolumn
  rw [placeholderValue_key _ _ hcolumn, List.getElem?_map, List.getElem?_eq_getElem hlt,
    List.getElem_idxOf hlt]
  rfl

theorem placeholderValue_limit (plan : Plan) (key : List Value) (nowSecs : Int) :
    placeholderValue plan key nowSecs limitPlaceholder = some (.ofNat plan.batchSize) := by
  simp only [placeholderValue, ↓reduceIte]

theorem placeholderValue_settle (plan : Plan) (key : List Value) (nowSecs : Int) :
    placeholderValue plan key nowSecs settlePlaceholder =
      some (.ofInt (nowSecs - (plan.settleMs.elim 0 (· / 1000) : Nat))) := by
  have hne : settlePlaceholder ≠ limitPlaceholder := by decide
  simp only [placeholderValue, hne, ↓reduceIte]

/-- A name that is bound has its value. -/
theorem argument_map {order : List String} {value : String → Value} {name : String}
    (h : name ∈ order) :
    argument (order.map fun name => { name, value := value name }) name = some (value name) := by
  induction order with
  | nil => cases h
  | cons other order ih =>
    by_cases heq : other = name
    · simp [argument, heq]
    · rcases List.mem_cons.mp h with rfl | hmem
      · exact absurd rfl heq
      · simpa [argument, heq] using ih hmem

/-- The arguments of a page of a compiled plan: the values of the key by column,
the batch size, and the settle bound. -/
theorem pageArgs_bind {plan : Plan} (h : plan.Compiled) (value : String → Value) (nowSecs : Int) :
    ∃ args, pageArgs plan (plan.keyColumns.map value) nowSecs = some args ∧
      (∀ column ∈ plan.keyColumns, argument args (afterPrefix ++ column) = some (value column)) ∧
      argument args limitPlaceholder = some (.ofNat plan.batchSize) ∧
      ∀ settle, plan.settleMs = some settle → argument args settlePlaceholder =
        some (.ofInt (nowSecs - (settle / 1000 : Nat))) := by
  have hsome : ∀ name ∈ plan.stmt.paramOrder, ∃ v,
      placeholderValue plan (plan.keyColumns.map value) nowSecs name = some v := by
    intro name hname
    rcases List.mem_append.mp ((h.bound name).mp hname) with hmem | hmem
    · rcases List.mem_append.mp hmem with hmem | hmem
      · obtain ⟨column, hcolumn, rfl⟩ := List.mem_map.mp hmem
        exact ⟨_, placeholderValue_after nowSecs hcolumn⟩
      · rw [List.mem_singleton.mp hmem]
        exact ⟨_, placeholderValue_limit plan _ nowSecs⟩
    · split at hmem
      · rw [List.mem_singleton.mp hmem]
        exact ⟨_, placeholderValue_settle plan _ nowSecs⟩
      · cases hmem
  -- The arguments are the values of the names, in the order of the statement.
  let bound (name : String) : Value :=
    (placeholderValue plan (plan.keyColumns.map value) nowSecs name).getD .null
  refine ⟨plan.stmt.paramOrder.map fun name => { name, value := bound name },
    mapM_some_of_forall fun name hname => ?_, fun column hcolumn => ?_, ?_, fun settle hsettle => ?_⟩
  · obtain ⟨v, hv⟩ := hsome name hname
    simp only [bound, hv, Option.map_some, Option.getD_some]
  · rw [argument_map ((h.bound _).mpr ?_)]
    · simp only [bound, placeholderValue_after nowSecs hcolumn, Option.getD_some]
    · simp only [Plan.placeholders, List.append_assoc, List.mem_append]
      exact .inl (List.mem_map_of_mem hcolumn)
  · rw [argument_map ((h.bound _).mpr ?_)]
    · simp only [bound, placeholderValue_limit, Option.getD_some]
    · simp [Plan.placeholders]
  · rw [argument_map ((h.bound _).mpr ?_)]
    · simp only [bound, placeholderValue_settle, hsettle, Option.elim_some, Option.getD_some]
    · simp [Plan.placeholders, hsettle]

end McpgSql.Changes
