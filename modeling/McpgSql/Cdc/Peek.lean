import McpgSql.Cdc.Progress
import McpgSql.Protocol

/-!
# The deliveries of one peek

The events of one change message (`changeEvents`) and the loop of
`PostgresCdc::peek` over the messages of a peek. The loop leaves at the first
change it has no relation for; what it did to `Progress` until then stays
(`peekLoop` gives the state it ends in, and the error when there is one).

* `peekMessage_cases`: what one message does;
* `peekLoop_induct`: what each message keeps, the loop keeps;
* `peekLoop_append`: the loop over a longer output.
-/

namespace McpgSql.Cdc

open Library

def rowChangedEventType : String := "sql.row.changed"

def truncatedEventType : String := "sql.table.truncated"

def cursorVersion : Nat := 1

/-! ## Events -/

/-- The members every event of a change has: its LSN, and the id and commit time
of its transaction when its Begin was seen. -/
def changeBase (lib : Codec) (lsn : Lsn) (begin : Option (Nat × Int)) : List (String × Value) :=
  let base := Assoc.insert [] "lsn" (.str (lsnText lsn))
  let base := match begin with
    | some (xid, _) => Assoc.insert base "xid" (.ofNat xid)
    | none => base
  match begin.bind fun b => commitTime lib b.2 with
  | some committed => Assoc.insert base "commitTime" (.str committed)
  | none => base

/-- The event of type `eventType` and id `id` of the change at `lsn`. -/
def changeEvent (lib : Codec) (lsn : Lsn) (begin : Option (Nat × Int)) (eventType id : String)
    (data : List (String × Value)) : WatchEvent where
  eventId := some id
  eventType := some eventType
  occurredAt := begin.bind fun b => commitTime lib b.2
  data := some (.obj data)
  upstreamCursor := some (.object [("v", .ofNat cursorVersion), ("lsn", .str (lsnText lsn))])

/-- The event of an insert, update or delete. -/
def rowEvent (lib : Codec) (slot : String) (lsn : Lsn) (begin : Option (Nat × Int)) (op : String)
    (relation : Relation) (row : List (String × Value)) (old : Option (List (String × Value)))
    (unchanged : List String) : WatchEvent :=
  let data := Assoc.insert (changeBase lib lsn begin) "op" (.str op)
  let data := Assoc.insert data "schema" (.str relation.schema)
  let data := Assoc.insert data "table" (.str relation.name)
  let data := Assoc.insert data "row" (.obj row)
  let data := match old with
    | some old => Assoc.insert data "old" (.obj old)
    | none => data
  let data :=
    if unchanged.isEmpty then data
    else Assoc.insert data "unchanged" (.arr (unchanged.map .str))
  changeEvent lib lsn begin rowChangedEventType (slot ++ "/" ++ lsnText lsn) data

/-- The event of one table of a TRUNCATE. -/
def truncateEvent (lib : Codec) (slot : String) (lsn : Lsn) (begin : Option (Nat × Int))
    (oid : Nat) (relation : Relation) (cascade restartIdentity : Bool) : WatchEvent :=
  let data := Assoc.insert (changeBase lib lsn begin) "schema" (.str relation.schema)
  let data := Assoc.insert data "table" (.str relation.name)
  let data := Assoc.insert data "cascade" (.bool cascade)
  let data := Assoc.insert data "restartIdentity" (.bool restartIdentity)
  changeEvent lib lsn begin truncatedEventType
    (slot ++ "/" ++ lsnText lsn ++ "/" ++ toString oid) data

/-- The relation a change names; an error when no Relation announced it. -/
def relationOf (relations : Relations) (oid : Nat) : Except String Relation :=
  match relations.get? oid with
  | some relation => .ok relation
  | none => .error ("pgoutput change of relation " ++ toString oid ++ " before its Relation")

/-- The events of one change message. -/
def changeEvents (lib : Codec) (slot : String) (lsn : Lsn) (begin : Option (Nat × Int))
    (relations : Relations) : Message → Except String (List WatchEvent)
  | .insert oid new => do
    let relation ← relationOf relations oid
    let (row, unchanged) := rowOf lib relation new false
    return [rowEvent lib slot lsn begin "insert" relation row none unchanged]
  | .update oid old new => do
    let relation ← relationOf relations oid
    let (row, unchanged) := rowOf lib relation new false
    let old := old.map fun (old, full) => (rowOf lib relation old (!full)).1
    return [rowEvent lib slot lsn begin "update" relation row old unchanged]
  | .delete oid old full => do
    let relation ← relationOf relations oid
    let (row, _) := rowOf lib relation old (!full)
    return [rowEvent lib slot lsn begin "delete" relation row none []]
  | .truncate oids cascade restartIdentity =>
    oids.mapM fun oid => do
      let relation ← relationOf relations oid
      return truncateEvent lib slot lsn begin oid relation cascade restartIdentity
  | .begin .. | .commit .. | .relation .. | .other => .ok []

/-- The relations a change names. -/
def Message.oids : Message → List Nat
  | .insert oid _ | .update oid _ _ | .delete oid _ _ => [oid]
  | .truncate oids _ _ => oids
  | .begin .. | .commit .. | .relation .. | .other => []

theorem relationOf_isOk (relations : Relations) (oid : Nat) :
    (relationOf relations oid).isOk = (relations.get? oid).isSome := by
  unfold relationOf
  split <;> simp_all [Except.isOk, Except.toBool]

theorem mapM_isOk {α β : Type} (f : α → Except String β) (l : List α) :
    (l.mapM f).isOk = l.all fun a => (f a).isOk := by
  induction l with
  | nil => rfl
  | cons a l ih =>
    rw [List.mapM_cons, List.all_cons, ← ih]
    cases f a with
    | error e => rfl
    | ok b => cases l.mapM f <;> rfl

/-- A change has events exactly when its relations are known. -/
theorem changeEvents_isOk (lib : Codec) (slot : String) (lsn : Lsn) (begin : Option (Nat × Int))
    (relations : Relations) (change : Message) :
    (changeEvents lib slot lsn begin relations change).isOk =
      change.oids.all fun oid => (relations.get? oid).isSome := by
  cases change with
  | insert oid new | update oid old new | delete oid old full =>
    simp only [changeEvents, Message.oids, List.all_cons, List.all_nil, Bool.and_true,
      ← relationOf_isOk]
    cases relationOf relations oid <;> rfl
  | truncate oids cascade restartIdentity =>
    simp only [changeEvents, Message.oids, mapM_isOk, ← relationOf_isOk]
    congr 1
    funext oid
    cases relationOf relations oid <;> rfl
  | begin | commit | relation | other => rfl

/-- What names the change at `lsn` to `ack` and `release`. -/
def receiptOf (lsn : Lsn) : Value := .object [("lsn", .ofNat lsn)]

/-- The LSN a receipt names. -/
def receiptLsn (receipt : Value) : Option Lsn := (receipt.get "lsn").bind Value.asU64

/-- The deliveries of a change's events. A TRUNCATE of several tables is one
change: its last event settles it. -/
def deliveriesOf (lsn : Lsn) (events : List WatchEvent) : List Delivery :=
  events.mapIdx fun index event =>
    { event, receipt := if index + 1 = events.length then receiptOf lsn else .null }

/-! ## The loop -/

/-- The state of the message loop; `transaction` is the changes since the last
Begin. -/
structure Peeking where
  progress : Progress
  relations : Relations := .empty
  deliveries : List Delivery := []
  transaction : List Lsn := []
  begin : Option (Nat × Int) := none

/-- A change the loop passes over: consumed, in flight, or past the budget. -/
def Peeking.skips (st : Peeking) (max : Nat) (lsn : Lsn) : Bool :=
  lsn < st.progress.consumed || lsn ∈ st.progress.delivered || max ≤ st.deliveries.length

section

variable (lib : Codec) (slot : String) (max : Nat)

/-- One change message. -/
def peekChange (st : Peeking) (lsn : Lsn) (change : Message) : Except String Peeking :=
  let pushed := { st with transaction := st.transaction ++ [lsn] }
  if st.skips max lsn then .ok pushed
  else match changeEvents lib slot lsn st.begin st.relations change with
    | .error e => .error e
    | .ok events => .ok { pushed with
        progress := st.progress.deliver lsn
        deliveries := st.deliveries ++ deliveriesOf lsn events }

/-- One message. -/
def peekMessage (st : Peeking) (lsn : Lsn) : Message → Except String Peeking
  | .begin _ commitTimeMicros xid =>
    .ok { st with begin := some (xid, commitTimeMicros), transaction := [] }
  | .commit endLsn =>
    .ok { st with progress := st.progress.register endLsn st.transaction, transaction := [] }
  | .relation oid relation => .ok { st with relations := st.relations.insert oid relation }
  | .other => .ok st
  | .insert oid new => peekChange lib slot max st lsn (.insert oid new)
  | .update oid old new => peekChange lib slot max st lsn (.update oid old new)
  | .delete oid old full => peekChange lib slot max st lsn (.delete oid old full)
  | .truncate oids cascade restartIdentity =>
    peekChange lib slot max st lsn (.truncate oids cascade restartIdentity)

/-- The loop over the messages of a peek: the state it ends in, and the error it
leaves with. -/
def peekLoop : Peeking → List (Lsn × Message) → Peeking × Option String
  | st, [] => (st, none)
  | st, (lsn, message) :: messages =>
    match peekMessage lib slot max st lsn message with
    | .ok st' => peekLoop st' messages
    | .error e => (st, some e)

variable {lib slot max}

theorem peekMessage_change {message : Message} (h : message.isChange = true) (st : Peeking)
    (lsn : Lsn) :
    peekMessage lib slot max st lsn message = peekChange lib slot max st lsn message := by
  cases message <;> first | rfl | cases h

/-- What a change that is not an error does: passed over, or emitted. -/
theorem peekChange_cases {st st' : Peeking} {lsn : Lsn} {change : Message}
    (h : peekChange lib slot max st lsn change = .ok st') :
    (st.skips max lsn = true ∧ st' = { st with transaction := st.transaction ++ [lsn] }) ∨
    ∃ events, st.skips max lsn = false ∧
      changeEvents lib slot lsn st.begin st.relations change = .ok events ∧
      st' = { st with
        transaction := st.transaction ++ [lsn]
        progress := st.progress.deliver lsn
        deliveries := st.deliveries ++ deliveriesOf lsn events } := by
  unfold peekChange at h
  split at h
  · rename_i hs
    cases h
    exact .inl ⟨hs, rfl⟩
  · rename_i hs
    split at h
    · cases h
    · rename_i events he
      cases h
      exact .inr ⟨events, by simpa using hs, he, rfl⟩

/-- What one message that is not an error does. -/
theorem peekMessage_cases {st st' : Peeking} {lsn : Lsn} {message : Message}
    (h : peekMessage lib slot max st lsn message = .ok st') :
    (∃ begin, message.isChange = false ∧ (∀ e, message ≠ .commit e) ∧
      st' = { st with begin, transaction := [] }) ∨
    (∃ relations, message.isChange = false ∧ (∀ e, message ≠ .commit e) ∧
      st' = { st with relations }) ∨
    (∃ endLsn, message = .commit endLsn ∧
      st' = { st with progress := st.progress.register endLsn st.transaction, transaction := [] }) ∨
    (message.isChange = true ∧ peekChange lib slot max st lsn message = .ok st') := by
  cases message with
  | begin l t x => cases h; exact .inl ⟨_, rfl, nofun, rfl⟩
  | commit e => cases h; exact .inr (.inr (.inl ⟨e, rfl, rfl⟩))
  | relation oid r => cases h; exact .inr (.inl ⟨_, rfl, nofun, rfl⟩)
  | other => cases h; exact .inr (.inl ⟨st.relations, rfl, nofun, rfl⟩)
  | insert | update | delete | truncate => exact .inr (.inr (.inr ⟨rfl, h⟩))

/-- What every message keeps, the loop keeps. -/
theorem peekLoop_induct {I : Peeking → Prop} {messages : List (Lsn × Message)}
    (hm : ∀ {st lsn message st'}, (lsn, message) ∈ messages → I st →
      peekMessage lib slot max st lsn message = .ok st' → I st')
    {st : Peeking} (h : I st) : I (peekLoop lib slot max st messages).1 := by
  induction messages generalizing st with
  | nil => exact h
  | cons m messages ih =>
    simp only [peekLoop]
    split
    · rename_i st' hst
      exact ih (fun hmem => hm (List.mem_cons_of_mem _ hmem)) (hm List.mem_cons_self h hst)
    · exact h

theorem peekLoop_append (st : Peeking) (front back : List (Lsn × Message)) :
    peekLoop lib slot max st (front ++ back) =
      match peekLoop lib slot max st front with
      | (st', none) => peekLoop lib slot max st' back
      | (st', some e) => (st', some e) := by
  induction front generalizing st with
  | nil => rfl
  | cons m front ih =>
    simp only [List.cons_append, peekLoop]
    split
    · exact ih _
    · rfl

@[simp] theorem peekLoop_nil (st : Peeking) : peekLoop lib slot max st [] = (st, none) := rfl

theorem peekLoop_cons (st : Peeking) (lsn : Lsn) (message : Message)
    (messages : List (Lsn × Message)) :
    peekLoop lib slot max st ((lsn, message) :: messages) =
      match peekMessage lib slot max st lsn message with
      | .ok st' => peekLoop lib slot max st' messages
      | .error e => (st, some e) := rfl

end

end McpgSql.Cdc
