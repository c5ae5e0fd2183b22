import McpgSql.Cdc.PgOutput
import McpgSql.Library.Reader
import McpgSql.Library.Utf8
import McpgSql.Params

/-!
# The decoder of `pgoutput`

`decode` reads one message of the protocol's version 1 from its bytes. Where the source
would panic (a slice or an index outside of the input, an array of the wrong length),
the model stops with `Halt.panic`.

`decode_cases`: from every bytes it ends with a message or an error.
-/

namespace McpgSql.Cdc

open Library

/-- How a run stops: with an error, or with a panic. -/
inductive Halt where
  | err (e : String)
  | panic
deriving DecidableEq, Repr

abbrev Reading (α : Type) := Parser UInt8 Halt α

def Halt.isErr : Halt → Prop
  | .err _ => True
  | .panic => False

namespace PgReader

/-! ## Reading -/

/-- `&bytes[lo..hi]`. -/
def slice (bytes : List UInt8) (lo hi : Nat) : Except Halt (List UInt8) :=
  if lo ≤ hi ∧ hi ≤ bytes.length then .ok ((bytes.drop lo).take (hi - lo)) else .error .panic

/-- The next `n` bytes. A sum beyond `usize` is beyond the input too, with the same
error. -/
def take (n : Nat) : Reading (List UInt8) := do
  let r ← get
  if r.pos + n ≤ r.bytes.length then
    let taken ← slice r.bytes r.pos (r.pos + n)
    set { r with pos := r.pos + n }
    pure taken
  else throw (.err "pgoutput message ends early")

/-- The first byte, `[0]`. -/
def firstByte : List UInt8 → Except Halt UInt8
  | [] => .error .panic
  | b :: _ => .ok b

def u8 : Reading UInt8 := do
  let taken ← take 1
  firstByte taken

/-- `from_be_bytes`, unsigned. -/
def fromBeBytes (bytes : List UInt8) : Nat := bytes.foldl (fun n b => n * 256 + b.toNat) 0

/-- An array of `n` bytes, by `try_into` and `expect`. -/
def exactly (n : Nat) (bytes : List UInt8) : Except Halt (List UInt8) :=
  if bytes.length = n then .ok bytes else .error .panic

/-- An unsigned integer of `n` bytes. -/
def unsigned (n : Nat) : Reading Nat := do
  let taken ← take n
  let bytes ← exactly n taken
  pure (fromBeBytes bytes)

def u16 : Reading Nat := unsigned 2
def u32 : Reading Nat := unsigned 4
def u64 : Reading Nat := unsigned 8

/-- A signed integer of `n` bytes. -/
def signed (n : Nat) : Reading Int := do
  let bits ← unsigned n
  pure (BitVec.ofNat (8 * n) bits).toInt

def i32 : Reading Int := signed 4
def i64 : Reading Int := signed 8

/-- A text up to a NUL. -/
def string : Reading String := do
  let r ← get
  let rest ← slice r.bytes r.pos r.bytes.length
  match rest.findIdx? (· = 0) with
  | none => throw (.err "pgoutput string is not terminated")
  | some stop =>
    let text ← slice rest 0 stop
    set { r with pos := r.pos + (stop + 1) }
    pure (fromUtf8Lossy text)

/-- One value of a tuple. -/
def datum : Reading Datum := do
  let kind ← u8
  if kind = 110 then pure .null
  else if kind = 117 then pure .unchanged
  else if kind = 116 then
    let len ← i32
    if len < 0 then throw (.err "pgoutput value has a negative length")
    else
      let text ← take len.toNat
      pure (.text (fromUtf8Lossy text))
  else throw (.err ("pgoutput value kind '" ++ String.ofList [asChar kind] ++ "' is not text"))

def tuple : Reading (List Datum) := do
  let columns ← u16
  times datum columns

/-- One column of a Relation; its type modifier is read and left. -/
def column : Reading Column := do
  let flags ← u8
  let name ← string
  let typeOid ← u32
  let _modifier ← i32
  pure { name, typeOid, key := flags &&& 1 = 1 }

/-! ## Messages -/

def begin : Reading Message := do
  let finalLsn ← u64
  let commitTimeMicros ← i64
  let xid ← u32
  pure (.begin finalLsn commitTimeMicros xid)

def commit : Reading Message := do
  let _flags ← u8
  let _commitLsn ← u64
  let endLsn ← u64
  pure (.commit endLsn)

def relation : Reading Message := do
  let oid ← u32
  let schema ← string
  let name ← string
  let _replicaIdentity ← u8
  let count ← u16
  let columns ← times column count
  pure (.relation oid { schema := if schema.isEmpty then "pg_catalog" else schema, name, columns })

/-- A tuple of a kind that is not expected there. -/
def badTuple {α : Type} (what : String) (kind : UInt8) : Reading α :=
  throw (.err ("pgoutput " ++ what ++ " has tuple '" ++ String.ofList [asChar kind] ++ "'"))

def insert : Reading Message := do
  let oid ← u32
  let kind ← u8
  if kind = 78 then
    let new ← tuple
    pure (.insert oid new)
  else badTuple "insert" kind

/-- The new tuple of an update, after its kind. -/
def newTuple (oid : Nat) (old : Option (List Datum × Bool)) (kind : UInt8) : Reading Message :=
  if kind ≠ 78 then badTuple "update" kind
  else do
    let new ← tuple
    pure (.update oid old new)

def update : Reading Message := do
  let oid ← u32
  let kind ← u8
  if kind = 75 ∨ kind = 79 then
    let old ← tuple
    let next ← u8
    newTuple oid (some (old, kind = 79)) next
  else newTuple oid none kind

def delete : Reading Message := do
  let oid ← u32
  let kind ← u8
  if kind = 75 ∨ kind = 79 then
    let old ← tuple
    pure (.delete oid old (kind = 79))
  else badTuple "delete" kind

def truncate : Reading Message := do
  let count ← u32
  let options ← u8
  let oids ← times u32 count
  pure (.truncate oids (options &&& 1 = 1) (options &&& 2 = 2))

/-- A message, by its first byte. -/
def message : Reading Message := do
  let kind ← u8
  if kind = 66 then begin
  else if kind = 67 then commit
  else if kind = 82 then relation
  else if kind = 73 then insert
  else if kind = 85 then update
  else if kind = 68 then delete
  else if kind = 84 then truncate
  else pure .other

end PgReader

/-- Decode one pgoutput message. -/
def decode (bytes : List UInt8) : Except Halt Message :=
  (PgReader.message.run ⟨bytes, 0⟩).map Prod.fst

namespace PgReader

/-! ## What each step reads -/

theorem slice_eq_ok {bytes : List UInt8} {lo hi : Nat} (hlo : lo ≤ hi) (hhi : hi ≤ bytes.length) :
    slice bytes lo hi = .ok ((bytes.drop lo).take (hi - lo)) := if_pos ⟨hlo, hhi⟩

theorem run_take (n : Nat) (r : Reader UInt8) : (take n).run r =
    if r.pos + n ≤ r.bytes.length then
      .ok ((r.bytes.drop r.pos).take n, { r with pos := r.pos + n })
    else .error (.err "pgoutput message ends early") := by
  rw [take, run_bind_ok (run_get r)]
  by_cases h : r.pos + n ≤ r.bytes.length
  · have hslice := slice_eq_ok (Nat.le_add_right r.pos n) h
    rw [Nat.add_sub_cancel_left] at hslice
    rw [if_pos h, if_pos h, run_bind_ok (run_lift hslice r)]
    rfl
  · rw [if_neg h, if_neg h]
    rfl

theorem run_string {r : Reader UInt8} (h : r.pos ≤ r.bytes.length) : string.run r =
    match (r.bytes.drop r.pos).findIdx? (· = 0) with
    | none => .error (.err "pgoutput string is not terminated")
    | some stop => .ok (fromUtf8Lossy ((r.bytes.drop r.pos).take stop),
        { r with pos := r.pos + (stop + 1) }) := by
  have hrest : slice r.bytes r.pos r.bytes.length = .ok (r.bytes.drop r.pos) := by
    rw [slice_eq_ok h (Nat.le_refl _), List.take_of_length_le (List.length_drop ▸ Nat.le_refl _)]
  rw [string, run_bind_ok (run_get r), run_bind_ok (run_lift hrest r)]
  cases hstop : (r.bytes.drop r.pos).findIdx? (· = 0) with
  | none => rfl
  | some stop =>
    have hlt := (List.findIdx?_eq_some_iff_getElem.mp hstop).1
    have htext := slice_eq_ok (Nat.zero_le stop) (Nat.le_of_lt hlt)
    rw [List.drop_zero, Nat.sub_zero] at htext
    simp only []
    rw [run_bind_ok (run_lift htext r)]
    rfl

/-! ## No step panics -/

theorem within_take (n : Nat) : Within Halt.isErr (fun taken => taken.length = n) (take n) := by
  intro r hr
  rw [run_take]
  split
  · rename_i h
    refine ⟨⟨rfl, h⟩, ?_⟩
    show ((r.bytes.drop r.pos).take n).length = n
    rw [List.length_take, List.length_drop]
    omega
  · trivial

theorem within_u8 : Within Halt.isErr (fun _ => True) u8 := by
  refine (within_take 1).bind fun taken htaken => ?_
  match taken with
  | [b] => exact .lift rfl trivial

theorem within_exactly {n : Nat} {taken : List UInt8} (h : taken.length = n) :
    Within Halt.isErr (fun _ => True) (liftM (exactly n taken) : Reading (List UInt8)) :=
  .lift (if_pos h) trivial

theorem within_unsigned (n : Nat) : Within Halt.isErr (fun _ => True) (unsigned n) :=
  (within_take n).bind fun _ htaken => (within_exactly htaken).bind fun _ _ => .pure trivial

/-- A signed integer of `n` bytes is in its range. -/
theorem within_signed (n : Nat) : Within Halt.isErr
    (fun i => -2 ^ (8 * n - 1) ≤ i ∧ i < 2 ^ (8 * n - 1)) (signed n) :=
  (within_unsigned n).bind fun bits _ =>
    .pure ⟨(BitVec.ofNat (8 * n) bits).le_toInt, (BitVec.ofNat (8 * n) bits).toInt_lt⟩

theorem within_string : Within Halt.isErr (fun _ => True) string := by
  intro r hr
  rw [run_string hr]
  split
  · trivial
  · rename_i stop hstop
    have hlt := (List.findIdx?_eq_some_iff_getElem.mp hstop).1
    rw [List.length_drop] at hlt
    refine ⟨⟨rfl, ?_⟩, trivial⟩
    show r.pos + (stop + 1) ≤ r.bytes.length
    omega

theorem within_datum : Within Halt.isErr (fun _ => True) datum := by
  refine within_u8.bind fun kind _ => ?_
  split
  · exact .pure trivial
  split
  · exact .pure trivial
  split
  · refine (within_signed 4).bind fun len _ => ?_
    split
    · exact .throw trivial
    · exact (within_take _).bind fun _ _ => .pure trivial
  · exact .throw trivial

theorem within_tuple : Within Halt.isErr (fun _ => True) tuple :=
  (within_unsigned 2).bind fun columns _ => within_datum.times columns

theorem within_column : Within Halt.isErr (fun _ => True) column :=
  within_u8.bind fun _ _ => within_string.bind fun _ _ => (within_unsigned 4).bind fun _ _ =>
    (within_signed 4).bind fun _ _ => .pure trivial

/-- The time of a Begin is an `i64`. -/
def TimeInRange : Message → Prop
  | .begin _ commitTimeMicros _ => -2 ^ 63 ≤ commitTimeMicros ∧ commitTimeMicros < 2 ^ 63
  | .commit .. | .relation .. | .insert .. | .update .. | .delete .. | .truncate .. | .other => True

theorem within_begin : Within Halt.isErr TimeInRange begin :=
  (within_unsigned 8).bind fun _ _ => (within_signed 8).bind fun _ htime =>
    (within_unsigned 4).bind fun _ _ => .pure htime

theorem within_commit : Within Halt.isErr TimeInRange commit :=
  within_u8.bind fun _ _ => (within_unsigned 8).bind fun _ _ => (within_unsigned 8).bind fun _ _ =>
    .pure trivial

theorem within_relation : Within Halt.isErr TimeInRange relation :=
  (within_unsigned 4).bind fun _ _ => within_string.bind fun _ _ => within_string.bind fun _ _ =>
    within_u8.bind fun _ _ => (within_unsigned 2).bind fun count _ =>
      (within_column.times count).bind fun _ _ => .pure trivial

theorem within_insert : Within Halt.isErr TimeInRange insert := by
  refine (within_unsigned 4).bind fun _ _ => within_u8.bind fun kind _ => ?_
  split
  · exact within_tuple.bind fun _ _ => .pure trivial
  · exact .throw trivial

theorem within_newTuple (oid : Nat) (old : Option (List Datum × Bool)) (kind : UInt8) :
    Within Halt.isErr TimeInRange (newTuple oid old kind) := by
  unfold newTuple
  split
  · exact .throw trivial
  · exact within_tuple.bind fun _ _ => .pure trivial

theorem within_update : Within Halt.isErr TimeInRange update := by
  refine (within_unsigned 4).bind fun oid _ => within_u8.bind fun kind _ => ?_
  split
  · exact within_tuple.bind fun _ _ => within_u8.bind fun _ _ => within_newTuple _ _ _
  · exact within_newTuple _ _ _

theorem within_delete : Within Halt.isErr TimeInRange delete := by
  refine (within_unsigned 4).bind fun _ _ => within_u8.bind fun kind _ => ?_
  split
  · exact within_tuple.bind fun _ _ => .pure trivial
  · exact .throw trivial

theorem within_truncate : Within Halt.isErr TimeInRange truncate :=
  (within_unsigned 4).bind fun count _ => within_u8.bind fun _ _ =>
    ((within_unsigned 4).times count).bind fun _ _ => .pure trivial

theorem message_within : Within Halt.isErr TimeInRange message := by
  refine within_u8.bind fun kind _ => ?_
  split
  · exact within_begin
  split
  · exact within_commit
  split
  · exact within_relation
  split
  · exact within_insert
  split
  · exact within_update
  split
  · exact within_delete
  split
  · exact within_truncate
  · exact .pure trivial

end PgReader

/-- From every bytes the decoder ends with an error or a message. -/
theorem decode_cases (bytes : List UInt8) : (∃ e, decode bytes = .error (.err e)) ∨
    ∃ m, decode bytes = .ok m ∧ PgReader.TimeInRange m := by
  have h := PgReader.message_within ⟨bytes, 0⟩ (Nat.zero_le _)
  rw [decode]
  cases hrun : PgReader.message.run ⟨bytes, 0⟩ with
  | error e =>
    rw [hrun] at h
    cases e with
    | err e => exact .inl ⟨e, rfl⟩
    | panic => cases h
  | ok result =>
    rw [hrun] at h
    exact .inr ⟨result.1, rfl, h.2⟩

end McpgSql.Cdc
