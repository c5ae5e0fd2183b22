import McpgSql.Changes.Binding
import McpgSql.Changes.Poll
import McpgSql.Library.Budget

/-!
# How many events a tick emits

`poll` reads pages until one is not full or the events of this call reach the budget of a
tick. The budget is tested after a page, so the page that reaches it may pass it: two pages
of 300 rows are 600 events (`poll_exceeds_budget`).

* `poll`: one call, over what its queries answer;
* `pageEvents`, `pollCounts`: how many events the pages have;
* `poll_emitted`: the call spends them;
* `poll_within_budget_iff`: where it stays in the budget.
-/

namespace McpgSql.Changes

open Library

section

variable (plan : Plan) (lib : Lib) (uri : String)

/-- What a round of `poll`'s loop meets: the time, what the query answers, none when the
watch is cancelled before, and whether it is cancelled when its rows are emitted. -/
structure Round where
  nowSecs : Int
  answer : Option (Except SqlError (List Value))
  cancelled : Bool := false

inductive PollEnd where
  | done
  | failed (e : SqlError)
  /-- The arguments index outside the key. -/
  | panicked
  /-- The query has not answered yet. -/
  | waiting

/-- The rounds of one call of `poll`. -/
def poll : Emitting → List Round → Emitting × PollEnd
  | st, [] => (st, .waiting)
  | st, round :: rounds =>
    match pageArgs plan st.key round.nowSecs with
    | none => (st, .panicked)
    | some _ => match round.answer with
      | none => (st, .done)
      | some (.error e) => (st, .failed e)
      | some (.ok rows) => match pollPage plan lib uri st rows round.cancelled with
        | (st, .more) => poll st rounds
        | (st, .done) => (st, .done)
        | (st, .failed e) => (st, .failed e)

/-! ## The events of the pages -/

/-- A row with a value for every key column. -/
def hasKey (row : Value) : Bool := (rowKey plan row).isSome

/-- A row that has an event. -/
def hasEvent (row : Value) : Bool :=
  match rowKey plan row with
  | some key => (emittedEvent plan lib uri row key).isSome
  | none => false

/-- How many rows of a page have events, up to one without its key. -/
def pageEvents (rows : List Value) : Nat :=
  ((rows.take plan.batchSize).takeWhile (hasKey plan)).countP (hasEvent plan lib uri)

/-- The page is full, its rows have their keys and the watch is not cancelled: only the
budget can end the call. -/
def goesOn (rows : List Value) (cancelled : Bool) : Bool :=
  plan.batchSize ≤ rows.length && (rows.take plan.batchSize).all (hasKey plan) && !cancelled

/-- The events of the pages, up to the one that ends the call in any case. -/
def pollCounts : List Round → List Nat
  | [] => []
  | round :: rounds => match round.answer with
    | some (.ok rows) =>
      pageEvents plan lib uri rows :: if goesOn plan rows round.cancelled then pollCounts rounds else []
    | some (.error _) | none => []

variable {plan}

/-- What a call has done: its events are counted, and its key is one of the plan. -/
structure Counts (plan : Plan) (st : Emitting) (n : Nat) : Prop where
  emitted : st.emitted = n
  events : st.events.length = n
  key : st.key.length = plan.keyColumns.length

/-- A row with its key is counted when it has an event. -/
theorem emitRow_counts {st : Emitting} {n : Nat} (h : Counts plan st n) {row : Value}
    (hkey : hasKey plan row = true) : ∃ st', emitRow plan lib uri st row = .ok st' ∧
      Counts plan st' (n + [row].countP (hasEvent plan lib uri)) := by
  obtain ⟨next, hnext⟩ := Option.isSome_iff_exists.mp hkey
  have hlength := (rowKey_keyed hnext).length
  simp only [emitRow, List.countP_singleton, hasEvent, hnext]
  cases hevent : emittedEvent plan lib uri row next with
  | none => exact ⟨_, rfl, h.emitted, h.events, hlength⟩
  | some event =>
    refine ⟨_, rfl, congrArg (· + 1) h.emitted, ?_, hlength⟩
    rw [List.length_append, h.events]
    rfl

/-- The rows of a page: its events are emitted, and it fails at a row without its key. -/
theorem emitRows_counts {st : Emitting} {n : Nat} (h : Counts plan st n) (rows : List Value) :
    ∃ st' failure, emitRows plan lib uri st rows = (st', failure) ∧
      Counts plan st' (n + (rows.takeWhile (hasKey plan)).countP (hasEvent plan lib uri)) ∧
      (failure = none ↔ rows.all (hasKey plan) = true) := by
  induction rows generalizing st n with
  | nil => exact ⟨st, none, rfl, h, by simp⟩
  | cons row rows ih =>
    rw [emitRows]
    by_cases hkey : hasKey plan row = true
    · obtain ⟨st₁, hst₁, hcounts⟩ := emitRow_counts lib uri h hkey
      obtain ⟨st', failure, hrows, hcounts', hfails⟩ := ih hcounts
      rw [hst₁, List.takeWhile_cons_of_pos hkey, ← List.singleton_append, List.countP_append,
        ← Nat.add_assoc, List.all_cons, hkey]
      exact ⟨st', failure, hrows, hcounts', hfails⟩
    · have hnone : rowKey plan row = none := by simpa [hasKey] using hkey
      rw [emitRow, hnone, List.takeWhile_cons_of_neg hkey, List.all_cons, Bool.eq_false_iff.mpr hkey]
      exact ⟨st, _, rfl, h, by simp⟩

/-! ## A call -/

/-- A page: its events are counted, and the call goes on unless the page or the budget
ends it. -/
theorem pollPage_counts {st : Emitting} {n : Nat} (h : Counts plan st n) (rows : List Value)
    (cancelled : Bool) : ∃ st' ended, pollPage plan lib uri st rows cancelled = (st', ended) ∧
      Counts plan st' (n + pageEvents plan lib uri rows) ∧
      (ended = .more ↔ goesOn plan rows cancelled = true ∧
        n + pageEvents plan lib uri rows < maxRowsPerTick) := by
  obtain ⟨st', failure, hrows, hcounts, hfails⟩ :=
    emitRows_counts lib uri h (rows.take plan.batchSize)
  rw [pollPage, hrows]
  refine ⟨st', ?_⟩
  cases failure with
  | some e =>
    refine ⟨_, rfl, hcounts, ?_⟩
    have hkeyless : (rows.take plan.batchSize).all (hasKey plan) = false := by
      simpa using hfails.not.mp (by simp)
    simp [goesOn, hkeyless]
  | none =>
    have hends : (decide (rows.length < plan.batchSize) || decide (maxRowsPerTick ≤ st'.emitted) ||
        cancelled) = true ↔ ¬(goesOn plan rows cancelled = true ∧
          n + pageEvents plan lib uri rows < maxRowsPerTick) := by
      have hemitted : st'.emitted = n + pageEvents plan lib uri rows := hcounts.emitted
      simp only [goesOn, hfails.mp rfl, hemitted, Bool.or_eq_true, Bool.and_eq_true, decide_eq_true_eq,
        Bool.not_eq_true', and_true]
      cases cancelled <;> simp only [Bool.false_eq_true, Bool.true_eq_false, and_true, and_false,
        or_true, or_false, false_and, not_false_eq_true]
      omega
    dsimp only
    split
    · rename_i hstops
      exact ⟨_, rfl, hcounts, nofun, fun h => absurd h (hends.mp hstops)⟩
    · rename_i hgoes
      exact ⟨_, rfl, hcounts, fun _ => not_not.mp (hends.not.mp hgoes), fun _ => rfl⟩

/-- A page that ends the call is the last that is spent. -/
theorem spend_ended {goes : Bool} {max n : Nat} (h : ¬(goes = true ∧ n < max)) (costs : List Nat) :
    spend max n (if goes then costs else []) = n := by
  cases goes with
  | false => rfl
  | true => exact spend_of_le (not_lt.mp fun hlt => h ⟨rfl, hlt⟩) _

/-- A call spends the events of its pages, one page after the other. -/
theorem poll_counts {spec : SqlChangesWatchSpec} {guards : Guards} (hplan : spec.compile guards = .ok plan)
    {st : Emitting} {n : Nat} (h : Counts plan st n) (hn : n < maxRowsPerTick) (rounds : List Round) :
    Counts plan (poll plan lib uri st rounds).1
      (spend maxRowsPerTick n (pollCounts plan lib uri rounds)) := by
  induction rounds generalizing st n with
  | nil => exact h
  | cons round rounds ih =>
    obtain ⟨args, hargs, -⟩ := pageArgs_binds hplan h.key round.nowSecs
    rw [poll, hargs, pollCounts]
    cases hanswer : round.answer with
    | none => exact h
    | some answer =>
      cases answer with
      | error e => exact h
      | ok rows =>
        obtain ⟨st', ended, hpage, hcounts, hmore⟩ :=
          pollPage_counts lib uri h rows round.cancelled
        dsimp only
        rw [hpage, spend, if_neg (not_le.mpr hn)]
        cases ended with
        | more =>
          obtain ⟨hgoes, hlt⟩ := hmore.mp rfl
          rw [if_pos hgoes]
          exact ih hcounts hlt
        | done =>
          rw [spend_ended (hmore.not.mp (by simp))]
          exact hcounts
        | failed e =>
          rw [spend_ended (hmore.not.mp (by simp))]
          exact hcounts

end

/-- A call of `poll` emits at most the rows of a tick iff the events of its pages, up to the
page that ends the call in any case, are fewer, or some leading ones of them are just as
many. -/
theorem poll_within_budget_iff (spec : SqlChangesWatchSpec) (guards : Guards) (plan : Plan) (lib : Lib)
    (uri : String) (key : List Value) (rounds : List Round) (h : spec.compile guards = .ok plan)
    (hkey : plan.Obtained key) :
    (poll plan lib uri ⟨key, [], 0⟩ rounds).1.events.length ≤ maxRowsPerTick ↔
      (pollCounts plan lib uri rounds).sum < maxRowsPerTick ∨
        ∃ k, ((pollCounts plan lib uri rounds).take k).sum = maxRowsPerTick := by
  have hstart : Counts plan ⟨key, [], 0⟩ 0 := ⟨rfl, rfl, hkey.length (compile_ok h).1⟩
  have hcounts := poll_counts lib uri h hstart (by decide) rounds
  have hle := spend_le_iff maxRowsPerTick 0 (pollCounts plan lib uri rounds)
  simp only [Nat.zero_add] at hle
  rw [hcounts.events, hle]

/-! ### Two pages of a tick -/

/-- A watch whose pages have 300 rows. -/
def pagesSpec : SqlChangesWatchSpec where
  connection :=
    { driver := .sqlite
      query := { body := .sql "SELECT id FROM t WHERE id > :_after_id LIMIT :_limit", rowMode := .many } }
  keyColumns := ["id"]
  initial := [("id", .ofNat 0)]
  start := .beginning
  batchSize := 300

def pagesPlan : Plan where
  stmt :=
    { sql := "SELECT id FROM t WHERE id > ? LIMIT ?"
      paramOrder := ["_after_id", "_limit"]
      driver := .sqlite }
  latest := none
  keyColumns := ["id"]
  initial := [.ofNat 0]
  start := .beginning
  batchSize := 300
  intervalMs := 1000
  timeoutMs := 30000
  occurredAtColumn := none
  opColumn := none
  settleMs := none

theorem pagesPlan_compiled : pagesSpec.compile sampleGuards = .ok pagesPlan := by rfl

/-- A page of `n` rows after the row `id`. -/
def pageAfter (id n : Nat) : Round where
  nowSecs := 0
  answer := some (.ok ((List.range n).map fun i => .obj [("id", .ofNat (id + i + 1))]))

/-- Two full pages are emitted, 600 events for a budget of 500. -/
theorem poll_exceeds_budget : (poll pagesPlan sampleLib "mcpg-event://t" ⟨[.ofNat 0], [], 0⟩
    [pageAfter 0 300, pageAfter 300 300]).1.events.length = 600 ∧ maxRowsPerTick < 600 := by
  have hstart : Counts pagesPlan ⟨[.ofNat 0], [], 0⟩ 0 := ⟨rfl, rfl, rfl⟩
  have hcounts := poll_counts sampleLib "mcpg-event://t" pagesPlan_compiled hstart
    (by decide) [pageAfter 0 300, pageAfter 300 300]
  have hpages : pollCounts pagesPlan sampleLib "mcpg-event://t" [pageAfter 0 300, pageAfter 300 300] =
      [300, 300] := by
    decide +kernel
  rw [hcounts.events, hpages]
  decide

/-- The theorem at a full page and one of the 200 rows that are left in the budget. -/
theorem poll_within_budget : (poll pagesPlan sampleLib "mcpg-event://t" ⟨[.ofNat 0], [], 0⟩
    [pageAfter 0 300, pageAfter 300 200]).1.events.length ≤ maxRowsPerTick := by
  have hkey : pagesPlan.Obtained [.ofNat 0] := .start []
  have hpages : ((pollCounts pagesPlan sampleLib "mcpg-event://t"
      [pageAfter 0 300, pageAfter 300 200]).take 2).sum = maxRowsPerTick := by
    decide +kernel
  exact (poll_within_budget_iff pagesSpec sampleGuards pagesPlan sampleLib "mcpg-event://t" [.ofNat 0]
    [pageAfter 0 300, pageAfter 300 200] pagesPlan_compiled hkey).mpr (.inr ⟨2, hpages⟩)

end McpgSql.Changes
