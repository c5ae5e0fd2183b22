import McpgSql.Cdc.Output
import McpgSql.Cdc.Source
import McpgSql.Library.Radix
import McpgSql.Stream.Cursor

/-!
# Where an LSN is written

The watch writes an LSN into the ids and cursors of its events and into the
statement that advances the slot (`advanceArgument`), and reads one from each row
of a peek (`parseLsn`).

* `parseLsn_lsnText`: a text is read as the LSN it was written from;
* `changeEvent_names`, `changeEvents_names`: the events of a change name its LSN;
* `peek_names`: each delivery of a peek names the LSN of one of its rows.
-/

namespace McpgSql.Cdc

open Library

open McpgSql.Stream (splitOnce splitOnce_append)

/-- An LSN from PostgreSQL's `X/Y`. -/
def parseLsn (text : String) : Option Lsn := do
  let (high, low) ← splitOnce '/' text.toList
  let high ← readRadix 16 (2 ^ 64) high
  let low ← readRadix 16 (2 ^ 64) low
  return (high <<< 32) % 2 ^ 64 ||| low

/-- What `settle` binds as the position to advance the slot to. -/
def PostgresCdc.advanceArgument (cdc : PostgresCdc) : Option String :=
  cdc.settleTarget.map lsnText

/-- The LSN an event id of `slot` names: the `X/Y` after the slot's name. -/
def eventIdLsn (slot id : String) : Option Lsn := do
  let (high, rest) ← splitOnce '/' (id.toList.drop (slot.toList.length + 1))
  parseLsn (String.ofList (high ++ '/' :: rest.takeWhile (· ≠ '/')))

/-- The LSN a cursor names. -/
def cursorLsn (cursor : Value) : Option Lsn :=
  (cursor.get "lsn").bind fun lsn => lsn.asStr.bind parseLsn

/-- The event's id and cursor name `lsn`. -/
structure Names (slot : String) (event : WatchEvent) (lsn : Lsn) : Prop where
  id : event.eventId.bind (eventIdLsn slot) = some lsn
  cursor : event.upstreamCursor.bind cursorLsn = some lsn

/-! ## The text of an LSN -/

theorem slash_notMem_upperHex (n : Nat) : '/' ∉ (upperHex n).toList := by
  rw [upperHex, String.toList_ofList]
  exact notMem_toDigits (by decide) (by decide) rfl n

theorem readRadix_upperHex {n : Nat} (h : n < 2 ^ 64) :
    readRadix 16 (2 ^ 64) (upperHex n).toList = some n := by
  rw [upperHex, String.toList_ofList]
  exact readRadix_toDigits (by decide) (by decide) h

theorem lsnText_toList (lsn : Lsn) : (lsnText lsn).toList =
    (upperHex (lsn >>> 32)).toList ++ '/' :: (upperHex (lsn &&& 0xFFFFFFFF)).toList := by
  simp [lsnText]

/-- The two halves of a `u64` make it up again. -/
theorem halves_or {x : Nat} (h : x < 2 ^ 64) :
    ((x >>> 32) <<< 32) % 2 ^ 64 ||| (x &&& 0xFFFFFFFF) = x := by
  have hlow : x &&& 0xFFFFFFFF = x % 2 ^ 32 := Nat.and_two_pow_sub_one_eq_mod x 32
  have hhigh : ((x >>> 32) <<< 32) % 2 ^ 64 = (x / 2 ^ 32) <<< 32 := by
    rw [Nat.shiftRight_eq_div_pow, Nat.shiftLeft_eq, Nat.mod_eq_of_lt (by omega)]
  rw [hlow, hhigh, ← Nat.shiftLeft_add_eq_or_of_lt (Nat.mod_lt _ (by decide)), Nat.shiftLeft_eq]
  omega

theorem parseLsn_lsnText {x : Lsn} (h : x < 2 ^ 64) : parseLsn (lsnText x) = some x := by
  have hhigh : x >>> 32 < 2 ^ 64 := by
    rw [Nat.shiftRight_eq_div_pow]
    exact lt_of_le_of_lt (Nat.div_le_self x _) h
  have hlow : x &&& 0xFFFFFFFF < 2 ^ 64 := lt_of_le_of_lt Nat.and_le_left h
  rw [parseLsn, lsnText_toList, splitOnce_append (slash_notMem_upperHex _)]
  simp only [Option.bind_eq_bind, Option.bind_some, readRadix_upperHex hhigh,
    readRadix_upperHex hlow, halves_or h]
  rfl

/-! ## Ids and cursors -/

/-- An id is read up to what follows its LSN. -/
theorem eventIdLsn_append (slot : String) {x : Lsn} (h : x < 2 ^ 64) {rest : List Char}
    (hrest : rest = [] ∨ ∃ rest', rest = '/' :: rest') :
    eventIdLsn slot (slot ++ "/" ++ lsnText x ++ String.ofList rest) = some x := by
  have hdrop : (slot ++ "/" ++ lsnText x ++ String.ofList rest).toList.drop
      (slot.toList.length + 1) = (upperHex (x >>> 32)).toList ++
        '/' :: ((upperHex (x &&& 0xFFFFFFFF)).toList ++ rest) := by
    simp [lsnText_toList, List.drop_append]
  have hstop : rest.takeWhile (· ≠ '/') = [] := by
    rcases hrest with rfl | ⟨rest', rfl⟩ <;> simp
  have htake : ((upperHex (x &&& 0xFFFFFFFF)).toList ++ rest).takeWhile (· ≠ '/') =
      (upperHex (x &&& 0xFFFFFFFF)).toList := by
    rw [List.takeWhile_append_of_pos, hstop, List.append_nil]
    intro c hc
    have := slash_notMem_upperHex (x &&& 0xFFFFFFFF)
    simp only [decide_eq_true_eq]
    rintro rfl
    exact this hc
  rw [eventIdLsn, hdrop, splitOnce_append (slash_notMem_upperHex _)]
  simp only [Option.bind_eq_bind, Option.bind_some, htake, ← lsnText_toList, String.ofList_toList]
  exact parseLsn_lsnText h

theorem changeEvent_names (lib : Codec) (slot : String) {x : Lsn} (h : x < 2 ^ 64)
    (begin : Option (Nat × Int)) (eventType : String) {id : String}
    (hid : eventIdLsn slot id = some x) (data : List (String × Value)) :
    Names slot (changeEvent lib x begin eventType id data) x where
  id := hid
  cursor := by
    have hget : (Value.object [("v", .ofNat cursorVersion), ("lsn", .str (lsnText x))]).get "lsn" =
        some (.str (lsnText x)) := by
      rw [Value.object, Value.get, Assoc.get?_ofList]
      rfl
    simp only [changeEvent, Option.bind_some, cursorLsn, hget, Value.asStr, parseLsn_lsnText h]

theorem rowEvent_names (lib : Codec) (slot : String) {x : Lsn} (h : x < 2 ^ 64)
    (begin : Option (Nat × Int)) (op : String) (relation : Relation) (row : List (String × Value))
    (old : Option (List (String × Value))) (unchanged : List String) :
    Names slot (rowEvent lib slot x begin op relation row old unchanged) x := by
  have hid := eventIdLsn_append slot h (.inl rfl)
  rw [String.ofList_nil, String.append_empty] at hid
  exact changeEvent_names lib slot h begin _ hid _

theorem truncateEvent_names (lib : Codec) (slot : String) {x : Lsn} (h : x < 2 ^ 64)
    (begin : Option (Nat × Int)) (oid : Nat) (relation : Relation)
    (cascade restartIdentity : Bool) :
    Names slot (truncateEvent lib slot x begin oid relation cascade restartIdentity) x := by
  have hid := eventIdLsn_append slot h (.inr ⟨(toString oid).toList, rfl⟩)
  have hslash : String.ofList ('/' :: (toString oid).toList) = "/" ++ toString oid := by
    rw [← String.toList_inj]
    simp
  rw [hslash, ← String.append_assoc] at hid
  exact changeEvent_names lib slot h begin _ hid _

/-- Every event of the change at `x` names `x`. -/
theorem changeEvents_names (lib : Codec) (slot : String) {x : Lsn} (h : x < 2 ^ 64)
    {begin : Option (Nat × Int)} {relations : Relations} {change : Message}
    {events : List WatchEvent}
    (he : changeEvents lib slot x begin relations change = .ok events) :
    ∀ event ∈ events, Names slot event x := by
  cases change with
  | insert oid new | update oid old new | delete oid new full =>
    obtain ⟨relation, _, he⟩ := bind_eq_ok.mp he
    rw [pure_eq_ok] at he
    subst he
    intro event hmem
    rw [List.mem_singleton.mp hmem]
    obtain ⟨row, unchanged⟩ := rowOf lib relation new _
    exact rowEvent_names lib slot h begin _ relation _ _ _
  | truncate oids cascade restartIdentity =>
    intro event hmem
    obtain ⟨oid, _, hevent⟩ := exists_of_mem_mapM he hmem
    obtain ⟨relation, _, hevent⟩ := bind_eq_ok.mp hevent
    rw [pure_eq_ok] at hevent
    rw [← hevent]
    exact truncateEvent_names lib slot h begin oid relation cascade restartIdentity
  | begin | commit | relation | other =>
    cases he
    simp

/-- Every delivery of a peek is of a row of the peek, and names its LSN. -/
theorem peek_names (lib : Codec) (slot : String) (max : Nat) (progress : Progress) {rows : Rows}
    (h : ∀ row ∈ rows, row.1 < 2 ^ 64) :
    ∀ delivery ∈ (peekLoop lib slot max { progress } rows).1.deliveries,
      ∃ row ∈ rows, Names slot delivery.event row.1 := by
  intro delivery hd
  obtain ⟨row, hrow, -, ⟨begin, relations, events, he, hevent⟩, -⟩ := peekLoop_deliveries hd
  exact ⟨row, hrow, changeEvents_names lib slot (h row hrow) he _ hevent⟩

/-! ## What names an LSN -/

theorem lsnText_injective {x y : Lsn} (hx : x < 2 ^ 64) (hy : y < 2 ^ 64)
    (h : lsnText x = lsnText y) : x = y := by
  have hparse := parseLsn_lsnText hx
  rw [h, parseLsn_lsnText hy] at hparse
  exact (Option.some.inj hparse).symm

/-- The text of an LSN is read back and no other LSN has it; the events of a change
and the statement that advances the slot name the LSN they were made from. -/
theorem lsnText_keeps_identity (lib : Codec) (slot : String) (x : Lsn) (h : x < 2 ^ 64) :
    parseLsn (lsnText x) = some x ∧
    (∀ y < 2 ^ 64, lsnText x = lsnText y → x = y) ∧
    (∀ begin relations change events,
      changeEvents lib slot x begin relations change = .ok events →
      ∀ event ∈ events, Names slot event x) ∧
    (∀ cdc : PostgresCdc, cdc.settleTarget = some x →
      cdc.advanceArgument.bind parseLsn = some x) := by
  refine ⟨parseLsn_lsnText h, fun y hy => lsnText_injective h hy, ?_, ?_⟩
  · intro begin relations change events he
    exact changeEvents_names lib slot h he
  · intro cdc htarget
    rw [PostgresCdc.advanceArgument, htarget, Option.map_some, Option.bind_some,
      parseLsn_lsnText h]

theorem lsnText_keeps_identity_example :
    parseLsn (lsnText 0x16B374D848) = some 0x16B374D848 ∧
    ∀ y < 2 ^ 64, lsnText 0x16B374D848 = lsnText y → 0x16B374D848 = y :=
  have h := lsnText_keeps_identity ⟨fun _ => none, fun _ => none, fun _ => none⟩ "orders"
    0x16B374D848 (by decide)
  ⟨h.1, h.2.1⟩

example : lsnText 0x16B374D848 = "16/B374D848" ∧ parseLsn "nope" = none := by decide

end McpgSql.Cdc
