import McpgSql.Cdc.Peek

/-!
# The database side of a `postgres_cdc` watch

`PostgresCdc` with the operations of a queue source: `connect`, `receive`,
`ack`, `release`. What the database answers is a parameter of each. `receive`
is cut into the parts between which another thread may acknowledge or release:
`startReceive`, the reads of the slot (`peekEnough` says when the last one was
enough), `process` (the message loop, under one lock) and `settle`.
-/

namespace McpgSql.Cdc

open Library

/-- The most rows one peek reads. -/
def maxPeekRows : Nat := 65536

/-- A row limit of a peek. -/
abbrev PeekLimit := { limit : Nat // 0 < limit ∧ limit ≤ maxPeekRows }

/-- The decoded messages of a peek, each with its row's LSN. -/
abbrev Rows := List (Lsn × Message)

structure PostgresCdc where
  publication : String
  tables : List String
  slot : String
  /-- A pool is open. -/
  pool : Bool := false
  progress : Progress := {}
  /-- The source read from this slot before: a missing slot is a gap. -/
  resumed : Bool
  /-- A gap to report before the next change. -/
  gap : Bool := false
  /-- An end LSN the slot is to be advanced to that an advance failed to reach. -/
  unadvanced : Option Lsn := none

/-! ## Connecting -/

/-- An identifier quoted for SQL. -/
def quoted (identifier : String) : String :=
  "\"" ++ String.ofList (identifier.toList.flatMap fun c => if c = '"' then ['"', '"'] else [c])
    ++ "\""

/-- A `schema.table` (or `table`) quoted for SQL. -/
def quotedTable (name : String) : String :=
  ".".intercalate ((name.toList.splitOn '.').map fun part => quoted (String.ofList part))

/-- The statement that creates a missing publication. -/
def createPublicationSql (publication : String) (tables : List String) : String :=
  "CREATE PUBLICATION " ++ quoted publication ++ " FOR TABLE " ++
    ", ".intercalate (tables.map quotedTable)

/-- What the database answers while `connect` prepares the slot. -/
structure PrepareAnswers where
  walLevel : Except String String
  published : Except String Bool
  createPublication : String → Except String Unit
  slotted : Except String Bool
  createSlot : String → Except String Unit

/-- `x`, its error prefixed by what failed. -/
def failing {α : Type} (what : String) (x : Except String α) : Except String α :=
  x.mapError fun e => what ++ " failed: " ++ e

/-- Check `wal_level`, create the publication and the slot when they are
missing; whether the slot was created. -/
def PostgresCdc.prepare (cdc : PostgresCdc) (db : PrepareAnswers) : Except String Bool := do
  let level ← failing "PostgreSQL SHOW wal_level" db.walLevel
  if level ≠ "logical" then
    throw ("PostgreSQL wal_level is '" ++ level ++
      "'; logical decoding needs wal_level = logical")
  let published ← failing "PostgreSQL publication check" db.published
  if !published then
    if cdc.tables.isEmpty then
      throw ("PostgreSQL publication '" ++ cdc.publication ++
        "' does not exist; create it, or list tables")
    failing "PostgreSQL CREATE PUBLICATION"
      (db.createPublication (createPublicationSql cdc.publication cdc.tables))
  let slotted ← failing "PostgreSQL slot check" db.slotted
  if !slotted then
    failing "PostgreSQL slot creation" (db.createSlot cdc.slot)
  return !slotted

/-- The new session: it peeks from the slot's confirmed position again. The
position an advance failed to reach stays. -/
def PostgresCdc.connected (cdc : PostgresCdc) (created : Bool) : PostgresCdc :=
  { cdc with gap := cdc.gap || (created && cdc.resumed), progress := {}, pool := true }

/-- `redact` is the protocol crate's `redact_in_text`: the URL carries the
password. -/
def PostgresCdc.connect (redact : String → String) (cdc : PostgresCdc)
    (opened : Except String Unit) (db : PrepareAnswers) : PostgresCdc × Except String Unit :=
  match opened with
  | .error e => (cdc, .error (redact ("PostgreSQL connect failed: " ++ e)))
  | .ok () => match cdc.prepare db with
    | .error e => (cdc, .error e)
    | .ok created => (cdc.connected created, .ok ())

/-! ## Receiving -/

/-- The delivery that reports a gap. -/
def gapDelivery : Delivery := { event := { gap := true }, receipt := .null }

/-- The start of `receive`: the pending gap is taken. `none` when not
connected. -/
def PostgresCdc.startReceive (cdc : PostgresCdc) : Option (PostgresCdc × List Delivery) :=
  if cdc.pool then some ({ cdc with gap := false }, if cdc.gap then [gapDelivery] else []) else none

/-- The rows the first read of a peek asks for: the changes in flight come first
again. -/
def Progress.peekLimit (p : Progress) (max : Nat) : PeekLimit :=
  ⟨Max.max 1 (min (p.delivered.card + max) maxPeekRows), by
    refine ⟨by omega, ?_⟩
    simp only [maxPeekRows]; omega⟩

/-- The rows a longer read asks for. -/
def PeekLimit.grow (limit : PeekLimit) : PeekLimit :=
  ⟨min (limit.1 * 4) maxPeekRows, by
    have := limit.2
    simp only [maxPeekRows] at this ⊢; omega⟩

/-- The row is a change neither consumed nor in flight. -/
def Progress.isNew (p : Progress) (row : Lsn × Message) : Bool :=
  row.2.isChange && p.consumed ≤ row.1 && row.1 ∉ p.delivered

/-- The changes in `messages` that a peek delivers. -/
def Progress.newChanges (p : Progress) (messages : Rows) : Nat := messages.countP p.isNew

/-- The read of `limit` rows was enough: the output ends, nothing longer is
read, or it holds `max` new changes. -/
def Progress.peekEnough (p : Progress) (max : Nat) (limit : PeekLimit) (messages : Rows) : Bool :=
  messages.length < limit.1 || limit.1 = maxPeekRows || max ≤ p.newChanges messages

/-- The reads of one peek: further until it holds `max` new changes or the
output ends. `read` is what the slot answers for each limit. -/
def peekReads (p : Progress) (read : PeekLimit → Except String Rows) (max : Nat)
    (limit : PeekLimit) : Except String Rows :=
  match read limit with
  | .error e => .error e
  | .ok messages =>
    if p.peekEnough max limit messages then .ok messages
    else peekReads p read max limit.grow
termination_by maxPeekRows - limit.1
decreasing_by
  rename_i h
  have := limit.2
  simp only [Progress.peekEnough, Bool.or_eq_true, decide_eq_true_eq, not_or] at h
  have hg : limit.grow.1 = min (limit.1 * 4) maxPeekRows := rfl
  rw [hg]
  omega

/-- The message loop of a peek on the current progress. -/
def PostgresCdc.process (lib : Codec) (cdc : PostgresCdc) (max : Nat) (messages : Rows) :
    PostgresCdc × Except String (List Delivery) :=
  match peekLoop lib cdc.slot max { progress := cdc.progress } messages with
  | (st, none) => ({ cdc with progress := st.progress }, .ok st.deliveries)
  | (st, some e) => ({ cdc with progress := st.progress }, .error e)

/-- The end LSN `settle` advances the slot to: what `Progress::advance` gives,
or what an earlier advance failed to reach when that is further. -/
def PostgresCdc.settleTarget (cdc : PostgresCdc) : Option Lsn :=
  match cdc.progress.advance.2, cdc.unadvanced with
  | some a, some b => some (max a b)
  | some a, none => some a
  | none, b => b

/-- Advance the slot past what is acknowledged; `advanced` is the database's
answer to the advance. -/
def PostgresCdc.settle (cdc : PostgresCdc) (advanced : Except String Unit) :
    PostgresCdc × Except String Unit :=
  let settled := { cdc with progress := cdc.progress.advance.1 }
  match cdc.settleTarget with
  | none => (settled, .ok ())
  | some target => match advanced with
    | .ok () => ({ settled with unadvanced := none }, .ok ())
    | .error e =>
      ({ settled with unadvanced := some target }, .error ("PostgreSQL slot advance failed: " ++ e))

/-- `receive` with nothing in between. A failed `settle` is only logged; the
sleep when there is nothing to deliver is left out. -/
def PostgresCdc.receive (lib : Codec) (cdc : PostgresCdc) (max : Nat)
    (read : PeekLimit → Except String Rows) (advanced : Except String Unit) :
    PostgresCdc × Except String (List Delivery) :=
  match cdc.startReceive with
  | none => (cdc, .error "not connected")
  | some (cdc, deliveries) =>
    match peekReads cdc.progress read max (cdc.progress.peekLimit max) with
    | .error e => (cdc, .error e)
    | .ok messages => match cdc.process lib max messages with
      | (cdc, .error e) => (cdc, .error e)
      | (cdc, .ok new) => ((cdc.settle advanced).1, .ok (deliveries ++ new))

/-! ## Acknowledging -/

/-- Recorded; the slot advances after the next peek. -/
def PostgresCdc.ack (cdc : PostgresCdc) (receipt : Value) : PostgresCdc :=
  match receiptLsn receipt with
  | none => cdc
  | some lsn => { cdc with progress := cdc.progress.ack lsn }

/-- The change comes again on a later peek. -/
def PostgresCdc.release (cdc : PostgresCdc) (receipt : Value) : PostgresCdc :=
  match receiptLsn receipt with
  | none => cdc
  | some lsn => { cdc with progress := cdc.progress.release lsn }

end McpgSql.Cdc
