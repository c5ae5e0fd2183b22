import McpgSql.Cdc.Peek
import McpgSql.Cdc.Wire

/-!
# Where the decoder stops

`decode` panics on no bytes. Of the functions that make a message's events, `row_of` pairs
columns and values without an index and `lsn_text` shifts by less than the width; the one
step that can leave its type is the sum of `commit_time`, which a time of PostgreSQL's
epoch near `i64::MAX` overflows (a panic with overflow checks, a wrong time without).

`changeEventsRun_panics_iff`: the commit times for which it does.
-/

namespace McpgSql.Cdc

open Library PgReader

/-- `+` on `i64`, with an overflow as a panic. -/
def addI64 (a b : Int) : Except Halt Int :=
  if -2 ^ 63 ≤ a + b ∧ a + b < 2 ^ 63 then .ok (a + b) else .error .panic

/-- `commit_time`, with its sum in `i64`. -/
def commitTimeRun (lib : Codec) (micros : Int) : Except Halt (Option String) := do
  let unixMicros ← addI64 micros pgEpochMicros
  pure (lib.occurredAtFromMillis (unixMicros.tdiv 1000))

/-- The events of one change message; the commit time comes first. -/
def changeEventsRun (lib : Codec) (slot : String) (lsn : Lsn) (begin : Option (Nat × Int))
    (relations : Relations) (change : Message) : Except Halt (List WatchEvent) := do
  if let some (_, micros) := begin then
    let _committed ← commitTimeRun lib micros
  (changeEvents lib slot lsn begin relations change).mapError .err

variable {lib : Codec} {slot : String} {lsn : Lsn} {relations : Relations} {change : Message}
  {micros : Int} {xid : Nat}

/-- A time whose sum is an `i64` is the commit time of the events. -/
theorem commitTimeRun_eq (h : -2 ^ 63 ≤ micros + pgEpochMicros ∧ micros + pgEpochMicros < 2 ^ 63) :
    commitTimeRun lib micros = .ok (commitTime lib micros) := by
  rw [commitTimeRun, addI64, if_pos h]
  rfl

theorem commitTimeRun_panics
    (h : ¬(-2 ^ 63 ≤ micros + pgEpochMicros ∧ micros + pgEpochMicros < 2 ^ 63)) :
    commitTimeRun lib micros = .error .panic := by
  rw [commitTimeRun, addI64, if_neg h]
  rfl

theorem mapError_ne_panic {α : Type} (result : Except String α) :
    result.mapError .err ≠ .error Halt.panic := by
  cases result <;> rintro ⟨⟩

/-- Without a Begin there is no time to compute. -/
theorem changeEventsRun_none : changeEventsRun lib slot lsn none relations change ≠ .error .panic :=
  mapError_ne_panic _

theorem changeEventsRun_some : changeEventsRun lib slot lsn (some (xid, micros)) relations change ≠
    .error .panic ↔ -2 ^ 63 ≤ micros + pgEpochMicros ∧ micros + pgEpochMicros < 2 ^ 63 := by
  by_cases h : -2 ^ 63 ≤ micros + pgEpochMicros ∧ micros + pgEpochMicros < 2 ^ 63
  · refine ⟨fun _ => h, fun _ => ?_⟩
    simp only [changeEventsRun, commitTimeRun_eq h]
    exact mapError_ne_panic _
  · refine ⟨fun hne => absurd ?_ hne, fun hin => absurd hin h⟩
    simp only [changeEventsRun, commitTimeRun_panics h]
    rfl

/-- What the watch has of the transaction is from a Begin that was decoded. -/
def Begun (begin : Option (Nat × Int)) : Prop :=
  ∀ xid micros, begin = some (xid, micros) →
    ∃ bytes finalLsn, decode bytes = .ok (.begin finalLsn micros xid)

/-- The time of a decoded Begin is an `i64`. -/
theorem begun_micros {begin : Option (Nat × Int)} (h : Begun begin) (hbegin : begin = some (xid, micros)) :
    -2 ^ 63 ≤ micros ∧ micros < 2 ^ 63 := by
  obtain ⟨bytes, finalLsn, hdecode⟩ := h xid micros hbegin
  rcases decode_cases bytes with ⟨e, he⟩ | ⟨m, hm, hrange⟩
  · rw [he] at hdecode
    cases hdecode
  · rw [hm] at hdecode
    obtain rfl := Except.ok.inj hdecode
    exact hrange

theorem decode_ne_panic (bytes : List UInt8) : decode bytes ≠ .error .panic := by
  intro hpanic
  rcases decode_cases bytes with ⟨e, he⟩ | ⟨m, hm, -⟩
  · rw [he] at hpanic
    cases hpanic
  · rw [hm] at hpanic
    cases hpanic

/-- The decoder does not panic. The events of a message do not either, but for the times
of a Begin whose sum with PostgreSQL's epoch is above `i64::MAX`. -/
theorem changeEventsRun_panics_iff (lib : Codec) (slot : String) (lsn : Lsn) (begin : Option (Nat × Int))
    (relations : Relations) (change : Message) (hbegun : Begun begin) :
    (∀ bytes, decode bytes ≠ .error .panic) ∧
      (changeEventsRun lib slot lsn begin relations change ≠ .error .panic ↔
        ∀ xid micros, begin = some (xid, micros) → micros ≤ 2 ^ 63 - 1 - pgEpochMicros) := by
  refine ⟨decode_ne_panic, ?_⟩
  cases begin with
  | none =>
    refine ⟨fun _ _ _ hbegin => ?_, fun _ => changeEventsRun_none⟩
    cases hbegin
  | some begin =>
    obtain ⟨xid, micros⟩ := begin
    have hrange := begun_micros hbegun rfl
    rw [changeEventsRun_some]
    unfold pgEpochMicros
    constructor
    · rintro ⟨-, hsum⟩ _ _ ⟨⟩
      omega
    · intro hle
      have hmicros := hle xid micros rfl
      omega

def sampleRelations : Relations := OrdMap.empty.insert 5 sampleRelation

/-- A Begin at the last time of an `i64`. -/
def lastBegin : List UInt8 := [66, 0, 0, 0, 0, 0, 0, 0, 80, 127, 255, 255, 255, 255, 255, 255, 255, 0, 0, 0, 7]

/-- It is decoded, and every change of its transaction overflows. -/
theorem lastBegin_panics : decode lastBegin = .ok (.begin 80 (2 ^ 63 - 1) 7) ∧
    changeEventsRun sampleCodec "mcpg" 80 (some (7, 2 ^ 63 - 1)) sampleRelations
      (.insert 5 [.text "a"]) = .error .panic := by
  refine ⟨by decide, ?_⟩
  have hpanics : commitTimeRun sampleCodec (2 ^ 63 - 1) = .error .panic :=
    commitTimeRun_panics (by decide)
  simp only [changeEventsRun, hpanics]
  rfl

/-- The theorem at a Begin of PostgreSQL's epoch. -/
theorem epochBegin_runs : changeEventsRun sampleCodec "mcpg" 80 (some (7, 0)) sampleRelations
    (.insert 5 [.text "a"]) ≠ .error .panic := by
  refine (changeEventsRun_panics_iff _ _ _ (some (7, 0)) _ _ ?_).2.mpr ?_
  · rintro _ _ ⟨⟩
    exact ⟨[66, 0, 0, 0, 0, 0, 0, 0, 80, 0, 0, 0, 0, 0, 0, 0, 0, 0, 0, 0, 7], 80, by decide⟩
  · rintro _ _ ⟨⟩
    decide

end McpgSql.Cdc
