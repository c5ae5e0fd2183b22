import McpgSql.Cdc.Decode

/-!
# Messages on the wire

The encoding of `pgoutput`'s messages in the protocol's version 1: integers with their
highest byte first, texts with a NUL or their length, values with a tag. The decoder
reads the encoding of every message that fits it as that message, and fails where it is
cut off (`decode_inverts`). A Commit ends with its time, which is not read.

* `exact_take` to `exact_tuple`: what each step of the decoder reads exactly;
* `exact_message`: a whole message.
-/

namespace McpgSql.Cdc

open Library

namespace PgReader

/-! ## Numbers and texts -/

variable {n : Nat}

theorem exact_take (code : List UInt8) : Exact Halt.isErr (take code.length) code code where
  reads front rest := by
    rw [run_take, if_pos (by simp), List.drop_left, List.take_left,
      List.length_append]
  ends front part hpart hne := by
    have hlt : part.length < code.length :=
      lt_of_le_of_ne hpart.length_le fun hlen => hne (hpart.eq_of_length hlen)
    refine ⟨.err "pgoutput message ends early", ?_, trivial⟩
    rw [run_take, if_neg (by simp only [List.length_append]; omega)]

theorem exact_u8 (b : UInt8) : Exact Halt.isErr u8 [b] b :=
  (exact_take [b]).bind (.lift rfl)

/-- The `n` bytes of a number, the highest first. -/
def toBeBytes : Nat → Nat → List UInt8
  | 0, _ => []
  | n + 1, v => toBeBytes n (v / 256) ++ [UInt8.ofNat v]

theorem length_toBeBytes (n v : Nat) : (toBeBytes n v).length = n := by
  induction n generalizing v with
  | zero => rfl
  | succ n ih => rw [toBeBytes, List.length_append, ih, List.length_singleton]

theorem fromBeBytes_toBeBytes (n v : Nat) : fromBeBytes (toBeBytes n v) = v % 256 ^ n := by
  induction n generalizing v with
  | zero => rw [Nat.pow_zero, Nat.mod_one]; rfl
  | succ n ih =>
    have hhigh := ih (v / 256)
    rw [fromBeBytes] at hhigh
    rw [fromBeBytes, toBeBytes, List.foldl_append, hhigh, List.foldl_cons, List.foldl_nil,
      UInt8.toNat_ofNat']
    show v / 256 % 256 ^ n * 256 + v % 256 = v % 256 ^ (n + 1)
    rw [Nat.pow_succ', Nat.mod_mul, Nat.add_comm, Nat.mul_comm]

theorem exact_unsigned {v : Nat} (h : v < 256 ^ n) :
    Exact Halt.isErr (unsigned n) (toBeBytes n v) v := by
  have hlen := length_toBeBytes n v
  have htake := exact_take (toBeBytes n v)
  rw [hlen] at htake
  have hread := htake.bind (f := fun taken => liftM (exactly n taken) >>= fun bytes =>
    pure (fromBeBytes bytes)) ((Exact.lift (if_pos hlen)).bind_pure fromBeBytes)
  rw [List.append_nil, fromBeBytes_toBeBytes, Nat.mod_eq_of_lt h] at hread
  exact hread

/-- The `n` bytes of a signed number. -/
def signedBytes (n : Nat) (i : Int) : List UInt8 := toBeBytes n (BitVec.ofInt (8 * n) i).toNat

theorem exact_signed {i : Int} (hlo : -2 ^ (8 * n - 1) ≤ i) (hhi : i < 2 ^ (8 * n - 1)) (hn : 0 < n) :
    Exact Halt.isErr (signed n) (signedBytes n i) i := by
  have hlt : (BitVec.ofInt (8 * n) i).toNat < 256 ^ n := by
    rw [show 256 = 2 ^ 8 from rfl, ← Nat.pow_mul]
    exact (BitVec.ofInt (8 * n) i).isLt
  have hread := (exact_unsigned hlt).bind_pure fun bits => (BitVec.ofNat (8 * n) bits).toInt
  rw [BitVec.ofNat_toNat, BitVec.setWidth_eq, BitVec.toInt_ofInt_eq_self (by omega) hlo hhi] at hread
  exact hread

theorem exact_i32 {i : Int} (hlo : -2 ^ 31 ≤ i) (hhi : i < 2 ^ 31) :
    Exact Halt.isErr i32 (signedBytes 4 i) i := by
  refine exact_signed ?_ ?_ (by decide)
  · rw [show 8 * 4 - 1 = 31 from rfl]
    exact hlo
  · rw [show 8 * 4 - 1 = 31 from rfl]
    exact hhi

theorem exact_i64 {i : Int} (hlo : -2 ^ 63 ≤ i) (hhi : i < 2 ^ 63) :
    Exact Halt.isErr i64 (signedBytes 8 i) i := by
  refine exact_signed ?_ ?_ (by decide)
  · rw [show 8 * 8 - 1 = 63 from rfl]
    exact hlo
  · rw [show 8 * 8 - 1 = 63 from rfl]
    exact hhi

/-- A text with its NUL. -/
def cString (s : String) : List UInt8 := utf8 s ++ [0]

theorem utf8_ne_zero {s : String} (h : Char.ofNat 0 ∉ s.toList) : ∀ b ∈ utf8 s, ¬b = 0 := by
  rw [utf8_eq_flatMap]
  rintro b hb rfl
  obtain ⟨c, hc, hmem⟩ := List.mem_flatMap.mp hb
  by_cases hascii : c.val.toNat < 128
  · obtain ⟨hcode, hbyte⟩ := utf8EncodeChar_of_ascii hascii
    rw [hcode, List.mem_singleton] at hmem
    rw [← hmem] at hbyte
    have hzero : c = Char.ofNat 0 := by
      rw [← Char.ofNat_toNat c]
      exact congrArg Char.ofNat hbyte.symm
    exact h (hzero ▸ hc)
  · exact absurd ((encodeChar_of_not_ascii (not_lt.mp hascii)).2 0 hmem) (by decide)

theorem exact_string {s : String} (h : Char.ofNat 0 ∉ s.toList) :
    Exact Halt.isErr string (cString s) s where
  reads front rest := by
    have hstop : (cString s ++ rest).findIdx? (· = 0) = some (utf8 s).length := by
      rw [cString, List.append_assoc, List.findIdx?_append,
        List.findIdx?_eq_none_iff.mpr (by simpa using utf8_ne_zero h), List.singleton_append,
        List.findIdx?_cons]
      simp
    rw [run_string (by simp), List.drop_left, hstop]
    have htext : fromUtf8Lossy ((cString s ++ rest).take (utf8 s).length) = s := by
      rw [cString, List.append_assoc, List.take_left, utf8_eq_flatMap, fromUtf8Lossy_encode]
    rw [List.length_append, cString, List.length_append, List.length_singleton, ← cString]
    simp only [htext]
  ends front part hpart hne := by
    have hin : ∀ b ∈ part, ¬b = 0 := by
      rcases prefix_append_cases hpart hne with ⟨hin, -⟩ | ⟨part', rfl, hin, hshort⟩
      · exact fun b hb => utf8_ne_zero h b (hin.subset hb)
      · obtain rfl : part' = [] := by
          have hlen := hin.length_le
          cases part' with
          | nil => rfl
          | cons b bs =>
            refine absurd (hin.eq_of_length ?_) hshort
            simp only [List.length_cons, List.length_nil] at hlen ⊢
            omega
        rw [List.append_nil]
        exact utf8_ne_zero h
    refine ⟨.err "pgoutput string is not terminated", ?_, trivial⟩
    rw [run_string (by simp), List.drop_left, List.findIdx?_eq_none_iff.mpr (by simpa using hin)]

/-! ## Encodings of messages -/

/-- What a value may be on the wire. -/
def FitsDatum : Datum → Prop
  | .text s => (utf8 s).length < 2 ^ 31
  | .null | .unchanged => True

def FitsTuple (tuple : List Datum) : Prop := tuple.length ≤ 65535 ∧ ∀ d ∈ tuple, FitsDatum d

def encodeDatum : Datum → List UInt8
  | .null => [110]
  | .unchanged => [117]
  | .text s => [116] ++ (signedBytes 4 (utf8 s).length ++ utf8 s)

def encodeTuple (tuple : List Datum) : List UInt8 :=
  toBeBytes 2 tuple.length ++ tuple.flatMap encodeDatum

theorem exact_datum {d : Datum} (h : FitsDatum d) : Exact Halt.isErr datum (encodeDatum d) d := by
  unfold datum
  cases d with
  | null =>
    rw [show encodeDatum .null = [110] ++ [] from rfl]
    exact (exact_u8 110).bind (.pure _)
  | unchanged =>
    rw [show encodeDatum .unchanged = [117] ++ [] from rfl]
    refine (exact_u8 117).bind ?_
    rw [if_neg (by decide), if_pos rfl]
    exact .pure _
  | text s =>
    have hlen : ((utf8 s).length : Int) < 2 ^ 31 := by exact_mod_cast h
    refine (exact_u8 116).bind ?_
    rw [if_neg (by decide), if_neg (by decide), if_pos rfl]
    refine (exact_i32 (by omega) hlen).bind ?_
    rw [if_neg (by omega), Int.toNat_natCast]
    have htext := (exact_take (utf8 s)).bind_pure fun text => Datum.text (fromUtf8Lossy text)
    rw [utf8_eq_flatMap, fromUtf8Lossy_encode, ← utf8_eq_flatMap] at htext
    exact htext

theorem exact_times {α : Type} {p : Reading α} {encode : α → List UInt8} {as : List α}
    (h : ∀ a ∈ as, Exact Halt.isErr p (encode a) a) :
    Exact Halt.isErr (times p as.length) (as.flatMap encode) as := by
  rw [List.flatMap_def]
  exact Exact.times (List.forall₂_map_left_iff.mpr (List.forall₂_same.mpr h))

theorem exact_tuple {ds : List Datum} (h : FitsTuple ds) :
    Exact Halt.isErr tuple (encodeTuple ds) ds :=
  (exact_unsigned (Nat.lt_succ_of_le h.1)).bind (exact_times fun d hd => exact_datum (h.2 d hd))

/-- What the wire has and the decoder leaves. -/
structure Unread where
  commitFlags : UInt8
  commitLsn : UInt64
  commitTime : Int64
  replicaIdentity : UInt8
  modifier : Column → Int32

/-- A text that may stand before a NUL. -/
def NulFree (s : String) : Prop := Char.ofNat 0 ∉ s.toList

def FitsColumn (c : Column) : Prop := NulFree c.name ∧ c.typeOid < 2 ^ 32

/-- The messages that have an encoding. -/
def Fits : Message → Prop
  | .begin finalLsn commitTimeMicros xid =>
    finalLsn < 2 ^ 64 ∧ (-2 ^ 63 ≤ commitTimeMicros ∧ commitTimeMicros < 2 ^ 63) ∧ xid < 2 ^ 32
  | .commit endLsn => endLsn < 2 ^ 64
  | .relation oid r => oid < 2 ^ 32 ∧ NulFree r.schema ∧ NulFree r.name ∧
      r.columns.length ≤ 65535 ∧ ∀ c ∈ r.columns, FitsColumn c
  | .insert oid new => oid < 2 ^ 32 ∧ FitsTuple new
  | .update oid old new => oid < 2 ^ 32 ∧ (∀ tuple full, old = some (tuple, full) → FitsTuple tuple) ∧
      FitsTuple new
  | .delete oid old _ => oid < 2 ^ 32 ∧ FitsTuple old
  | .truncate oids _ _ => oids.length < 2 ^ 32 ∧ ∀ oid ∈ oids, oid < 2 ^ 32
  | .other => False

section

variable (x : Unread)

def encodeColumn (c : Column) : List UInt8 :=
  [if c.key then 1 else 0] ++ (cString c.name ++ (toBeBytes 4 c.typeOid ++
    signedBytes 4 (x.modifier c).toInt))

/-- The kind of an old tuple: the key or the row. -/
def oldKind (full : Bool) : UInt8 := if full then 79 else 75

/-- The old tuple of an update, when there is one. -/
def encodeOld : Option (List Datum × Bool) → List UInt8
  | none => []
  | some (tuple, full) => [oldKind full] ++ encodeTuple tuple

def truncateOptions (cascade restartIdentity : Bool) : UInt8 :=
  (if cascade then 1 else 0) ||| if restartIdentity then 2 else 0

def encode : Message → List UInt8
  | .begin finalLsn commitTimeMicros xid =>
    [66] ++ (toBeBytes 8 finalLsn ++ (signedBytes 8 commitTimeMicros ++ toBeBytes 4 xid))
  | .commit endLsn =>
    [67] ++ ([x.commitFlags] ++ (toBeBytes 8 x.commitLsn.toNat ++ toBeBytes 8 endLsn)) ++
      signedBytes 8 x.commitTime.toInt
  | .relation oid r =>
    [82] ++ (toBeBytes 4 oid ++ (cString r.schema ++ (cString r.name ++ ([x.replicaIdentity] ++
      (toBeBytes 2 r.columns.length ++ r.columns.flatMap (encodeColumn x))))))
  | .insert oid new => [73] ++ (toBeBytes 4 oid ++ ([78] ++ encodeTuple new))
  | .update oid old new => [85] ++ (toBeBytes 4 oid ++ (encodeOld old ++ ([78] ++ encodeTuple new)))
  | .delete oid old full => [68] ++ (toBeBytes 4 oid ++ ([oldKind full] ++ encodeTuple old))
  | .truncate oids cascade restartIdentity =>
    [84] ++ (toBeBytes 4 oids.length ++ ([truncateOptions cascade restartIdentity] ++
      oids.flatMap (toBeBytes 4)))
  | .other => []

/-- The message as it is read: the schema without a name is `pg_catalog`. -/
def asRead : Message → Message
  | .relation oid r =>
    .relation oid { r with schema := if r.schema.isEmpty then "pg_catalog" else r.schema }
  | m => m

variable {x}

theorem exact_column {c : Column} (h : FitsColumn c) :
    Exact Halt.isErr column (encodeColumn x c) c := by
  unfold column
  have hkey : decide ((if c.key then 1 else 0 : UInt8) &&& 1 = 1) = c.key := by
    cases c.key <;> decide
  refine (exact_u8 _).bind ((exact_string h.1).bind ((exact_unsigned h.2).bind ?_))
  have hmodifier := exact_i32 (x.modifier c).le_toInt (x.modifier c).toInt_lt
  rw [hkey]
  exact hmodifier.bind_pure fun _ => c

/-- Where the kind of a message leads. -/
theorem exact_kind {kind : UInt8} {p : Reading Message} {code : List UInt8} {m : Message}
    (h : Exact Halt.isErr p code m)
    (hkind : (if kind = 66 then begin else if kind = 67 then commit else if kind = 82 then relation
      else if kind = 73 then insert else if kind = 85 then update else if kind = 68 then delete
      else if kind = 84 then truncate else pure .other) = p) :
    Exact Halt.isErr message ([kind] ++ code) m := by
  unfold message
  refine (exact_u8 kind).bind ?_
  rw [hkind]
  exact h

theorem oldKind_isOld (full : Bool) : (oldKind full = 75 ∨ oldKind full = 79) ∧
    decide (oldKind full = 79) = full := by
  cases full <;> decide

theorem exact_begin {finalLsn xid : Nat} {commitTimeMicros : Int} (hlsn : finalLsn < 2 ^ 64)
    (htime : -2 ^ 63 ≤ commitTimeMicros ∧ commitTimeMicros < 2 ^ 63) (hxid : xid < 2 ^ 32) :
    Exact Halt.isErr begin
      (toBeBytes 8 finalLsn ++ (signedBytes 8 commitTimeMicros ++ toBeBytes 4 xid))
      (.begin finalLsn commitTimeMicros xid) :=
  (exact_unsigned hlsn).bind ((exact_i64 htime.1 htime.2).bind ((exact_unsigned hxid).bind_pure _))

theorem exact_commit {endLsn : Nat} (h : endLsn < 2 ^ 64) : Exact Halt.isErr commit
    ([x.commitFlags] ++ (toBeBytes 8 x.commitLsn.toNat ++ toBeBytes 8 endLsn)) (.commit endLsn) :=
  (exact_u8 _).bind ((exact_unsigned x.commitLsn.toNat_lt).bind ((exact_unsigned h).bind_pure _))

theorem exact_relation {oid : Nat} {r : Relation} (hoid : oid < 2 ^ 32) (hschema : NulFree r.schema)
    (hname : NulFree r.name) (hcount : r.columns.length ≤ 65535)
    (hcolumns : ∀ c ∈ r.columns, FitsColumn c) :
    Exact Halt.isErr relation (toBeBytes 4 oid ++ (cString r.schema ++ (cString r.name ++
      ([x.replicaIdentity] ++ (toBeBytes 2 r.columns.length ++
        r.columns.flatMap (encodeColumn x)))))) (asRead (.relation oid r)) := by
  have hread : Exact Halt.isErr (times column r.columns.length)
      (r.columns.flatMap (encodeColumn x)) r.columns :=
    exact_times fun c hc => exact_column (hcolumns c hc)
  exact (exact_unsigned hoid).bind ((exact_string hschema).bind ((exact_string hname).bind
    ((exact_u8 _).bind ((exact_unsigned (Nat.lt_succ_of_le hcount)).bind (hread.bind_pure _)))))

theorem exact_insert {oid : Nat} {new : List Datum} (hoid : oid < 2 ^ 32) (hnew : FitsTuple new) :
    Exact Halt.isErr insert (toBeBytes 4 oid ++ ([78] ++ encodeTuple new)) (.insert oid new) :=
  (exact_unsigned hoid).bind ((exact_u8 78).bind ((exact_tuple hnew).bind_pure _))

theorem exact_newTuple {oid : Nat} {old : Option (List Datum × Bool)} {new : List Datum}
    (hnew : FitsTuple new) :
    Exact Halt.isErr (newTuple oid old 78) (encodeTuple new) (.update oid old new) := by
  rw [newTuple, if_neg (by decide)]
  exact (exact_tuple hnew).bind_pure _

theorem exact_update {oid : Nat} {old : Option (List Datum × Bool)} {new : List Datum}
    (hoid : oid < 2 ^ 32) (hold : ∀ tuple full, old = some (tuple, full) → FitsTuple tuple)
    (hnew : FitsTuple new) :
    Exact Halt.isErr update (toBeBytes 4 oid ++ (encodeOld old ++ ([78] ++ encodeTuple new)))
      (.update oid old new) := by
  unfold update
  refine (exact_unsigned hoid).bind ?_
  cases old with
  | none => exact (exact_u8 78).bind (exact_newTuple hnew)
  | some old =>
    obtain ⟨old, full⟩ := old
    obtain ⟨hkind, hfull⟩ := oldKind_isOld full
    rw [encodeOld, List.append_assoc]
    refine (exact_u8 (oldKind full)).bind ?_
    rw [if_pos hkind, hfull]
    exact (exact_tuple (hold old full rfl)).bind ((exact_u8 78).bind (exact_newTuple hnew))

theorem exact_delete {oid : Nat} {old : List Datum} {full : Bool} (hoid : oid < 2 ^ 32)
    (hold : FitsTuple old) :
    Exact Halt.isErr delete (toBeBytes 4 oid ++ ([oldKind full] ++ encodeTuple old))
      (.delete oid old full) := by
  obtain ⟨hkind, hfull⟩ := oldKind_isOld full
  refine (exact_unsigned hoid).bind ((exact_u8 (oldKind full)).bind ?_)
  rw [if_pos hkind, hfull]
  exact (exact_tuple hold).bind_pure _

theorem exact_truncate {oids : List Nat} {cascade restartIdentity : Bool}
    (hcount : oids.length < 2 ^ 32) (hoids : ∀ oid ∈ oids, oid < 2 ^ 32) :
    Exact Halt.isErr truncate (toBeBytes 4 oids.length ++
      ([truncateOptions cascade restartIdentity] ++ oids.flatMap (toBeBytes 4)))
      (.truncate oids cascade restartIdentity) := by
  have hoptions : decide (truncateOptions cascade restartIdentity &&& 1 = 1) = cascade ∧
      decide (truncateOptions cascade restartIdentity &&& 2 = 2) = restartIdentity := by
    cases cascade <;> cases restartIdentity <;> decide
  have hread : Exact Halt.isErr (times u32 oids.length) (oids.flatMap (toBeBytes 4)) oids :=
    exact_times fun oid hoid => exact_unsigned (hoids oid hoid)
  refine (exact_unsigned hcount).bind ((exact_u8 _).bind ?_)
  rw [hoptions.1, hoptions.2]
  exact hread.bind_pure _

/-- A message that is not a Commit is read as it is, and to its end. -/
theorem exact_message {m : Message} (h : Fits m) (hcommit : ∀ endLsn, m ≠ .commit endLsn) :
    Exact Halt.isErr message (encode x m) (asRead m) := by
  cases m with
  | begin => exact exact_kind (exact_begin h.1 h.2.1 h.2.2) rfl
  | commit endLsn => exact absurd rfl (hcommit endLsn)
  | relation =>
    obtain ⟨hoid, hschema, hname, hcount, hcolumns⟩ := h
    exact exact_kind (exact_relation hoid hschema hname hcount hcolumns) rfl
  | insert => exact exact_kind (exact_insert h.1 h.2) rfl
  | update => exact exact_kind (exact_update h.1 h.2.1 h.2.2) rfl
  | delete => exact exact_kind (exact_delete h.1 h.2) rfl
  | truncate => exact exact_kind (exact_truncate h.1 h.2) rfl
  | other => cases h

end

end PgReader

open PgReader

theorem decode_of_exact {code : List UInt8} {m : Message} (h : Exact Halt.isErr message code m)
    (rest : List UInt8) : decode (code ++ rest) = .ok m := by
  have hrun := h.reads [] rest
  rw [decode]
  exact congrArg (Except.map Prod.fst) hrun

/-- The decoder reads the encoding of every message that has one as that message, and it
fails on every proper prefix of it, but for a Commit, of which it reads the end LSN. -/
theorem decode_inverts (x : Unread) (m : Message) (h : Fits m) :
    decode (encode x m) = .ok (asRead m) ∧
      ((∀ endLsn, m ≠ .commit endLsn) → ∀ part, part <+: encode x m → part ≠ encode x m →
        ∃ e, decode part = .error (.err e)) := by
  by_cases hcommit : ∃ endLsn, m = .commit endLsn
  · obtain ⟨endLsn, rfl⟩ := hcommit
    have hread : Exact Halt.isErr message ([67] ++ _) _ := exact_kind (exact_commit (x := x) h) rfl
    exact ⟨decode_of_exact hread _, fun hnot => absurd rfl (hnot endLsn)⟩
  · have hexact := exact_message (x := x) h fun endLsn heq => hcommit ⟨endLsn, heq⟩
    refine ⟨?_, fun _ part hpart hne => ?_⟩
    · have hread := decode_of_exact hexact []
      rwa [List.append_nil] at hread
    · obtain ⟨e, hrun, herr⟩ := hexact.ends [] part hpart hne
      cases e with
      | panic => cases herr
      | err e => exact ⟨e, congrArg (Except.map Prod.fst) hrun⟩

/-- What a sample message has besides. -/
def sampleUnread : Unread where
  commitFlags := 0
  commitLsn := 80
  commitTime := 0
  replicaIdentity := 100
  modifier _ := -1

/-- An update with its old key. -/
def sampleUpdate : Message :=
  .update 16384 (some ([.text "é"], false)) [.text "é", .null, .unchanged]

theorem sampleUpdate_fits : Fits sampleUpdate := by
  have htext : (utf8 "é").length < 2 ^ 31 := by decide
  refine ⟨by decide, ?_, by decide, ?_⟩
  · rintro tuple full ⟨⟩
    refine ⟨by decide, fun d hd => ?_⟩
    rw [List.mem_singleton.mp hd]
    exact htext
  · intro d hd
    simp only [List.mem_cons, List.not_mem_nil, or_false] at hd
    obtain rfl | rfl | rfl := hd
    · exact htext
    · trivial
    · trivial

/-- The theorem at that update. -/
theorem sampleUpdate_decodes : decode (encode sampleUnread sampleUpdate) = .ok sampleUpdate ∧
    ∃ e, decode ((encode sampleUnread sampleUpdate).take 7) = .error (.err e) := by
  have h := decode_inverts sampleUnread sampleUpdate sampleUpdate_fits
  refine ⟨h.1, h.2 (fun endLsn heq => ?_) _ (List.take_prefix 7 _) fun heq => ?_⟩
  · cases heq
  · exact absurd (congrArg List.length heq) (by decide)

end McpgSql.Cdc
