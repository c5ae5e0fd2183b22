import McpgSql.Changes.Poll

/-!
# What a `sql_changes` watch has emitted

At every point of every run the watch has emitted, in key order and once each,
the events of the rows from its start key to its key, but of those that have no
event (`emits_each_row_once`). Every row moves the key and the events together
(`Reads.row`); a restart takes the key back to the last row that has an event,
and the rows passed over since have none (`Reads.resume`).
-/

namespace McpgSql.Changes

open Library

section

variable {κ : Type} [LinearOrder κ] {plan : Plan} {rank : List Value → κ} (lib : Lib) (uri : String)

/-- The event emitted for a row of the table. -/
def KeyedRow.event (r : KeyedRow plan) : Option WatchEvent := emittedEvent plan lib uri r.row r.key

/-- The rows from `start` to `key`. -/
def Table.passed (table : Table plan rank) (start key : List Value) : List (KeyedRow plan) :=
  between (fun r => rank r.key) table.rows (rank start) (rank key)

/-- The watch has read the table from `start` to `key` and emitted `events`. -/
structure Reads (table : Table plan rank) (start key : List Value) (events : List WatchEvent) :
    Prop where
  le : rank start ≤ rank key
  place : key = start ∨ ∃ r ∈ table.rows, r.key = key
  keyed : plan.Keyed key
  events : events = (table.passed start key).filterMap (KeyedRow.event lib uri)

variable {lib uri}

theorem KeyedRow.key_keyed (r : KeyedRow plan) : plan.Keyed r.key := rowKey_keyed r.keyed

/-- A watch that has just started. -/
theorem Reads.start {table : Table plan rank} {start : List Value} (h : plan.Keyed start) :
    Reads lib uri table start start [] where
  le := le_rfl
  place := .inl rfl
  keyed := h
  events := by rw [Table.passed, between_self]; rfl

/-- The next row: it is passed, and its event emitted if it has one. -/
theorem Reads.row {table : Table plan rank} {start key : List Value} {events : List WatchEvent}
    (h : Reads lib uri table start key events) {r : KeyedRow plan} {rest : List (KeyedRow plan)}
    (hleft : above (fun r => rank r.key) table.rows (rank key) = r :: rest) :
    Reads lib uri table start r.key (events ++ (r.event lib uri).toList) := by
  obtain ⟨hread, -⟩ := table.increasing.between_read h.le hleft
  have hmem : r ∈ above (fun r => rank r.key) table.rows (rank key) := by
    rw [hleft]
    exact List.mem_cons_self
  obtain ⟨hrow, hlt⟩ := List.mem_filter.mp hmem
  refine ⟨le_trans h.le (le_of_lt (by simpa using hlt)), .inr ⟨r, hrow, rfl⟩, r.key_keyed, ?_⟩
  have hpassed : table.passed start r.key = table.passed start key ++ [r] := hread
  rw [hpassed, List.filterMap_append, ← h.events]
  cases hev : r.event lib uri <;> simp [hev]

/-- Rows that commit above the others were not passed. -/
theorem Reads.commit {table table' : Table plan rank} {start key : List Value}
    {events : List WatchEvent} (h : Reads lib uri table start key events)
    {more : List (KeyedRow plan)} (hmore : table'.rows = table.rows ++ more) :
    Reads lib uri table' start key events := by
  refine ⟨h.le, h.place.imp_right fun ⟨r, hr, hkey⟩ => ⟨r, ?_, hkey⟩, h.keyed, ?_⟩
  case refine_2 =>
    rw [hmore]
    exact List.mem_append_left _ hr
  · rw [h.events, Table.passed, Table.passed, hmore]
    rcases h.place with rfl | ⟨r, hr, rfl⟩
    · rw [between_self, between_self]
    · have hinc := table'.increasing
      rw [hmore] at hinc
      have habove : ∀ b ∈ more, rank r.key < rank b.key := fun b hb =>
        (List.pairwise_append.mp hinc).2.2 r hr b hb
      rw [between_append habove]

/-- The last event is that of a row passed, and the rows passed after it have
none: reading up to that row has emitted the same. -/
theorem Reads.resume {table : Table plan rank} {start key : List Value} {events : List WatchEvent}
    (h : Reads lib uri table start key events) {event : WatchEvent}
    (hlast : events.getLast? = some event) :
    ∃ r : KeyedRow plan, r.event lib uri = some event ∧ Reads lib uri table start r.key events := by
  rw [h.events] at hlast
  obtain ⟨front, r, back, hsplit, hr, hback⟩ := exists_of_getLast?_filterMap hlast
  have hmem : r ∈ table.passed start key := by
    rw [hsplit]
    simp
  obtain ⟨hrow, hlt, -⟩ := mem_between.mp hmem
  have hpassed : table.passed start r.key = front ++ [r] :=
    table.increasing.between_of_split hsplit
  refine ⟨r, hr, hlt.le, .inr ⟨r, hrow, rfl⟩, r.key_keyed, ?_⟩
  rw [h.events, hsplit, hpassed]
  simp [hr, hback]

/-! ## Along a run -/

variable (lib uri)

/-- The loop over rows that come next in the table: it does not fail. -/
theorem emitRows_reads {table : Table plan rank} {start : List Value} (rows : List (KeyedRow plan))
    {st : Emitting} (h : Reads lib uri table start st.key st.events)
    (hrows : rows <+: above (fun r => rank r.key) table.rows (rank st.key)) :
    ∃ st', emitRows plan lib uri st (rows.map KeyedRow.row) = (st', none) ∧
      Reads lib uri table start st'.key st'.events := by
  induction rows generalizing st with
  | nil => exact ⟨st, rfl, h⟩
  | cons r rows ih =>
    obtain ⟨suffix, hsuffix⟩ := hrows
    rw [List.cons_append] at hsuffix
    have hrow := h.row hsuffix.symm
    obtain ⟨-, hleft⟩ := table.increasing.between_read h.le hsuffix.symm
    -- The state after the row `r`.
    obtain ⟨st₁, hst₁, hkey, hevents⟩ : ∃ st₁, emitRow plan lib uri st r.row = .ok st₁ ∧
        st₁.key = r.key ∧ st₁.events = st.events ++ (r.event lib uri).toList := by
      simp only [emitRow, r.keyed, KeyedRow.event]
      cases emittedEvent plan lib uri r.row r.key with
      | none => exact ⟨_, rfl, rfl, (List.append_nil _).symm⟩
      | some event => exact ⟨_, rfl, rfl, rfl⟩
    rw [← hkey, ← hevents] at hrow
    obtain ⟨st', hst', hreads⟩ := ih hrow (by rw [hkey, hleft]; exact ⟨suffix, rfl⟩)
    refine ⟨st', ?_, hreads⟩
    rw [List.map_cons, emitRows, hst₁]
    exact hst'

/-- A page of a compiled plan is the first rows above the key. -/
theorem keysetRows_pageArgs (hplan : plan.Compiled) (table : Table plan rank) {key : List Value}
    (hkey : plan.Keyed key) (nowSecs : Int) :
    ∃ args, pageArgs plan key nowSecs = some args ∧ keysetRows rank table args =
      ((above (fun r => rank r.key) table.rows (rank key)).take plan.batchSize).map KeyedRow.row := by
  obtain ⟨value, rfl⟩ := hkey
  obtain ⟨args, hargs, hafter, hlimit, -⟩ := pageArgs_bind hplan value nowSecs
  refine ⟨args, hargs, ?_⟩
  rw [keysetRows, mapM_some_of_forall hafter, hlimit]
  rfl

/-- Some rows of a page, from its first on. -/
theorem page_reads (st : Emitting) {table : Table plan rank} {start : List Value}
    (h : Reads lib uri table start st.key st.events) {page : List Value}
    (hpage : page = ((above (fun r => rank r.key) table.rows (rank st.key)).take
      plan.batchSize).map KeyedRow.row) (n m : Nat) :
    let st' := (emitRows plan lib uri st ((page.take n).take m)).1
    Reads lib uri table start st'.key st'.events := by
  have hpre := ((List.take_prefix m _).trans (List.take_prefix n _)).trans
    (List.take_prefix plan.batchSize (above (fun r => rank r.key) table.rows (rank st.key)))
  obtain ⟨st', hst', hreads⟩ := emitRows_reads lib uri _ h hpre
  rw [List.map_take, List.map_take, ← hpage] at hst'
  rw [hst']
  exact hreads

theorem pollPage_fst (st : Emitting) (rows : List Value) (cancelled : Bool) :
    (pollPage plan lib uri st rows cancelled).1 =
      (emitRows plan lib uri st (rows.take plan.batchSize)).1 := by
  unfold pollPage
  cases emitRows plan lib uri st (rows.take plan.batchSize) with
  | mk st err =>
    cases err with
    | some e => rfl
    | none =>
      simp only
      split <;> rfl

/-- A cursor reads back as its key. -/
theorem resumeKey_cursorValue (reason : Value → String) {key : List Value} (h : plan.Keyed key) :
    resumeKey reason plan (cursorValue key) = .ok key := by
  have hread : readCursor (cursorValue key) = some (cursorVersion, key) := by
    simp [cursorValue, Value.object, Assoc.ofList, readCursor, Assoc.get?_insert, Value.ofNat,
      Value.asU64]
  obtain ⟨value, rfl⟩ := h
  simp [resumeKey, hread]

theorem emittedEvent_cursor {row : Value} {key : List Value} {event : WatchEvent}
    (h : emittedEvent plan lib uri row key = some event) :
    event.upstreamCursor = some (cursorValue key) := by
  obtain ⟨op, -, rfl⟩ := Option.map_eq_some_iff.mp (Option.filter_eq_some_iff.mp h).1
  rfl

/-- The watch has read its table from its start key to its key. -/
def Watch.Reading (w : Watch plan rank) : Prop := Reads lib uri w.table w.start w.key w.events

/-- A watch always resumes, where it has read up to the row of its last event. -/
theorem Watch.Reading.resume (reason : Value → String) (hplan : plan.Compiled)
    {w : Watch plan rank} (hw : w.Reading lib uri) (latest : List Value) :
    ∃ w', w.resume reason latest = .ok w' ∧ w'.Reading lib uri := by
  unfold Watch.resume
  cases hlast : w.events.getLast? with
  | none =>
    refine ⟨_, rfl, ?_⟩
    have hnil : w.events = [] := List.getLast?_eq_none_iff.mp hlast
    simp only [Watch.Reading, hnil]
    exact Reads.start (startKey_keyed hplan latest)
  | some event =>
    obtain ⟨r, hr, hreads⟩ := Reads.resume hw hlast
    have hcursor : event.upstreamCursor = some (cursorValue r.key) :=
      emittedEvent_cursor lib uri hr
    simp only [hcursor, resumeKey_cursorValue reason r.key_keyed]
    exact ⟨_, rfl, hreads⟩

theorem Watch.Reading.next {reason : Value → String} (hplan : plan.Compiled)
    {w w' : Watch plan rank} {a : Action plan} (hw : w.Reading lib uri)
    (h : w.next lib uri reason a = some w') : w'.Reading lib uri := by
  cases a with
  | commit rows =>
    simp only [Watch.next] at h
    split at h
    · cases h
      exact Reads.commit hw rfl
    · cases h
  | tick | failed e =>
    simp only [Watch.next] at h
    split at h
    · cases h
      exact hw
    · cases h
  | cancel =>
    cases h
    exact hw
  | page nowSecs cancelled =>
    simp only [Watch.next] at h
    split at h
    · rename_i emitted hphase
      obtain ⟨args, hargs, hrows⟩ := keysetRows_pageArgs hplan w.table hw.keyed nowSecs
      have hreads := page_reads lib uri ⟨w.key, w.events, emitted⟩ hw hrows plan.batchSize
        plan.batchSize
      rw [List.take_take, min_self, ← pollPage_fst lib uri _ _ cancelled] at hreads
      rw [hargs] at h
      cases h
      exact hreads
    · cases h
  | kill nowSecs rows =>
    simp only [Watch.next] at h
    split at h
    · rename_i emitted hphase
      obtain ⟨args, hargs, hrows⟩ := keysetRows_pageArgs hplan w.table hw.keyed nowSecs
      have hreads := page_reads lib uri ⟨w.key, w.events, emitted⟩ hw hrows plan.batchSize
        rows
      rw [hargs] at h
      cases h
      exact hreads
    · cases h
  | restart latest =>
    simp only [Watch.next] at h
    split at h
    · obtain ⟨w₁, hw₁, hreads⟩ := hw.resume lib uri reason hplan latest
      rw [hw₁] at h
      cases h
      exact hreads
    · cases h

end

/-- The events of the whole run are, in key order and once each, those of the
rows above the start key up to the key of the watch; and the key is above no row
that was not emitted, but for those whose `op_column` names no change and those
whose event is too large. -/
theorem emits_each_row_once {κ : Type} [LinearOrder κ] (rank : List Value → κ)
    (spec : SqlChangesWatchSpec) (guards : Guards) (plan : Plan)
    (hplan : spec.compile guards = .ok plan) (lib : Lib) (uri : String) (reason : Value → String)
    (w : Watch plan rank)
    (h : (changesMachine lib uri reason).Reach (fun _ _ => True) w) :
    w.events = (w.table.rows.filter fun r => rank w.start < rank r.key ∧ rank r.key ≤ rank w.key
      ).filterMap (fun r => emittedEvent plan lib uri r.row r.key) ∧
    ∀ r ∈ w.table.rows, rank w.start < rank r.key → rank r.key ≤ rank w.key →
      (∃ event ∈ w.events, rowEvent plan lib uri r.row r.key = some event) ∨
      rowOp plan r.row = none ∨
      ∃ event, rowEvent plan lib uri r.row r.key = some event ∧ maxEventBytes < lib.eventSize event := by
  have hcompiled := (compile_ok hplan).1
  have hreads : w.Reading lib uri := by
    refine h.invariant (fun {w} h₀ => ?_) fun _ hst hw => hw.next lib uri hcompiled hst
    obtain ⟨⟨latest, hstart⟩, hkey, hevents, -⟩ := h₀
    rw [Watch.Reading, hkey, hevents]
    exact .start (hstart ▸ startKey_keyed hcompiled latest)
  refine ⟨hreads.events, fun r hr hlt hle => ?_⟩
  cases hev : rowEvent plan lib uri r.row r.key with
  | none => exact .inr (.inl (Option.map_eq_none_iff.mp hev))
  | some event =>
    by_cases hsize : lib.eventSize event ≤ maxEventBytes
    · refine .inl ⟨event, ?_, rfl⟩
      rw [hreads.events]
      refine List.mem_filterMap.mpr ⟨r, mem_between.mpr ⟨hr, hlt, hle⟩, ?_⟩
      simp [KeyedRow.event, emittedEvent, hev, hsize]
    · exact .inr (.inr ⟨event, rfl, not_le.mp hsize⟩)

/-! ### A run -/

/-- A watch on a table with an integer key. -/
def sampleSpec : SqlChangesWatchSpec where
  connection :=
    { driver := .sqlite
      query :=
        { body := .sql "SELECT * FROM t WHERE id > :_after_id ORDER BY id LIMIT :_limit"
          rowMode := .many } }
  keyColumns := ["id"]
  initial := [("id", .ofNat 0)]
  start := .beginning
  opColumn := some "op"
  batchSize := 2

def samplePlan : Plan where
  stmt :=
    { sql := "SELECT * FROM t WHERE id > ? ORDER BY id LIMIT ?"
      paramOrder := ["_after_id", "_limit"]
      driver := .sqlite }
  latest := none
  keyColumns := ["id"]
  initial := [.ofNat 0]
  start := .beginning
  batchSize := 2
  intervalMs := 1000
  timeoutMs := 30000
  occurredAtColumn := none
  opColumn := some "op"
  settleMs := none

theorem samplePlan_compiled : sampleSpec.compile sampleGuards = .ok samplePlan := by rfl

/-- The integer of a key. -/
def sampleRank : List Value → Nat
  | [.num (.pos n)] => n
  | _ => 0

def sampleRow (id : Nat) (op : String) : KeyedRow samplePlan where
  row := .obj [("id", .ofNat id), ("op", .str op)]
  key := [.ofNat id]
  keyed := rfl

/-- Three rows; the second names no change. -/
def sampleTable : Table samplePlan sampleRank where
  rows := [sampleRow 1 "INSERT", sampleRow 2 "none", sampleRow 3 "delete"]
  increasing := by decide

def sampleWatch : Watch samplePlan sampleRank where
  table := sampleTable
  start := [.ofNat 0]
  key := [.ofNat 0]

/-- The theorem on a run that is killed after its first two rows and resumes:
the events of rows 1 and 3 are emitted, once each. -/
theorem sampleWatch_emits_once : ∃ w : Watch samplePlan sampleRank,
    w.events.map (·.upstreamCursor) = [some (cursorValue [.ofNat 1]), some (cursorValue [.ofNat 3])] ∧
    w.events = (w.table.rows.filter fun r =>
      sampleRank w.start < sampleRank r.key ∧ sampleRank r.key ≤ sampleRank w.key).filterMap
        (fun r => emittedEvent samplePlan sampleLib "mcpg-event://t" r.row r.key) := by
  obtain ⟨w, hrun, hevents⟩ : ∃ w ∈ Machine.run
      (Watch.next sampleLib "mcpg-event://t" fun _ => "") sampleWatch
      [.tick, .kill 0 2, .restart [], .tick, .failed (.timeout 30000), .tick, .page 0 false],
      w.events.map (·.upstreamCursor) =
        [some (cursorValue [.ofNat 1]), some (cursorValue [.ofNat 3])] := by
    decide
  have hinit : (changesMachine sampleLib "mcpg-event://t" fun _ => "").init sampleWatch :=
    ⟨⟨[], rfl⟩, rfl, rfl, rfl⟩
  have h : (changesMachine sampleLib "mcpg-event://t" fun _ => "").Reach (fun _ _ => True) w :=
    (Machine.Reach.init hinit).run (fun _ hnext => hnext) (fun _ _ _ => trivial) hrun
  exact ⟨w, hevents, (emits_each_row_once sampleRank sampleSpec sampleGuards samplePlan
    samplePlan_compiled sampleLib "mcpg-event://t" (fun _ => "") w h).1⟩

end McpgSql.Changes
