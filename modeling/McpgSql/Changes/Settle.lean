import McpgSql.Changes.Emitted
import Mathlib.Data.Rat.Cast.Order
import Mathlib.Tactic.Linarith
import Mathlib.Tactic.FieldSimp
import Mathlib.Tactic.Ring

/-!
# Late commits

`settle_ms` holds back the rows that are younger than a window, so that a row
that commits late with a lower key is not passed over. Writers stamp each row
and commit it within the window; the query returns visible rows stamped before
`:_settle_before`. The bound is the whole seconds of now less the whole seconds
of the window, so that it is late by the window's rest: the key passes no late
row exactly when the window is in whole seconds (`settle_keeps_late_iff`).
-/

namespace McpgSql.Changes

open Library

/-- The bound of a page read at `nowMs`, in Unix seconds. -/
def settleBound (settle : Nat) (nowMs : Int) : Int := nowMs / 1000 - (settle / 1000 : Nat)

/-- The bound holds back the whole window exactly when the rest of the window is
within the running second. -/
theorem settleBound_le_iff (settle : Nat) (nowMs : Int) :
    (settleBound settle nowMs : ℚ) ≤ (nowMs - settle) / 1000 ↔
      ((settle % 1000 : Nat) : Int) ≤ nowMs % 1000 := by
  have hint : (settleBound settle nowMs : ℚ) * 1000 ≤ nowMs - settle ↔
      settleBound settle nowMs * 1000 ≤ nowMs - settle := by
    norm_cast
  rw [le_div_iff₀ (by norm_num), hint, settleBound]
  omega

section

variable (plan : Plan)

/-- A row with its stamp, in Unix seconds, and when it becomes visible, in
milliseconds. -/
structure StampedRow extends KeyedRow plan where
  stamp : ℚ
  committed : ℚ

variable {κ : Type} [LinearOrder κ] (rank : List Value → κ) (settle : Nat)

/-- What the writers write, in key order: keys are unique and ordered as the
stamps, and a row commits within the window after its stamp. -/
structure Writers where
  rows : List (StampedRow plan)
  increasing : Increasing (fun r => rank r.key) rows
  ordered : ∀ a ∈ rows, ∀ b ∈ rows, a.stamp < b.stamp → rank a.key < rank b.key
  prompt : ∀ r ∈ rows, r.committed ≤ 1000 * r.stamp + settle

/-- The integer a value is. -/
def asInt : Value → Option Int
  | .num (.pos n) => some n
  | .num (.neg n) => some (.negSucc n)
  | _ => none

variable {plan rank settle}

/-- The rows the query returns at a time: visible, above the key, and stamped
before the bound. -/
def Writers.page (writers : Writers plan rank settle) (time : Int) (args : List BoundParam) :
    List (StampedRow plan) :=
  match plan.keyColumns.mapM fun column => argument args (afterPrefix ++ column),
      (argument args limitPlaceholder).bind Value.asU64,
      (argument args settlePlaceholder).bind asInt with
  | some after, some limit, some bound =>
    (writers.rows.filter fun r =>
      rank after < rank r.key ∧ r.committed ≤ (time : ℚ) ∧ r.stamp < (bound : ℚ)).take limit
  | _, _, _ => []

/-- A watch that holds a key, and the clock in milliseconds. -/
structure SettledWatch where
  now : Int
  start : List Value
  key : List Value

/-- Time passes, or a page is read: its arguments are those of now, and the query
runs `delay` later. -/
inductive SettledAction where
  | wait (ms : Nat)
  | page (delay : Nat)

variable (lib : Lib) (uri : String)

def SettledWatch.next (writers : Writers plan rank settle) (w : SettledWatch) :
    SettledAction → Option SettledWatch
  | .wait ms => some { w with now := w.now + ms }
  | .page delay => (pageArgs plan w.key (w.now / 1000)).map fun args =>
    let rows := (writers.page (w.now + delay) args).map fun r => r.row
    { w with
      now := w.now + delay
      key := (emitRows plan lib uri ⟨w.key, [], 0⟩ (rows.take plan.batchSize)).1.key }

/-- The runs of the watch from any key it may start or resume from. -/
def settledMachine (writers : Writers plan rank settle) : Machine SettledWatch SettledAction where
  init w := plan.Keyed w.start ∧ w.key = w.start
  step w a w' := w.next lib uri writers a = some w'

/-- The key is below every row above the start key that is still to become
visible. -/
def SettledWatch.KeepsLate (writers : Writers plan rank settle) (w : SettledWatch) : Prop :=
  ∀ r ∈ writers.rows, rank w.start < rank r.key → (w.now : ℚ) < r.committed →
    rank w.key < rank r.key

/-! ## Windows in whole seconds -/

@[simp] theorem asInt_ofInt (i : Int) : asInt (.ofInt i) = some i := by
  cases i <;> rfl

/-- The key after a page is that of a row of the page, unless it has none. -/
theorem emitRows_key (rows : List (StampedRow plan)) (st : Emitting) :
    rows = [] ∧ (emitRows plan lib uri st (rows.map fun r => r.row)).1.key = st.key ∨
      ∃ r ∈ rows, (emitRows plan lib uri st (rows.map fun r => r.row)).1.key = r.key := by
  induction rows generalizing st with
  | nil => exact .inl ⟨rfl, rfl⟩
  | cons r rows ih =>
    right
    obtain ⟨st₁, hst₁, hkey⟩ : ∃ st₁, emitRow plan lib uri st r.row = .ok st₁ ∧ st₁.key = r.key := by
      simp only [emitRow, r.keyed]
      cases emittedEvent plan lib uri r.row r.key with
      | none => exact ⟨_, rfl, rfl⟩
      | some event => exact ⟨_, rfl, rfl⟩
    rw [List.map_cons, emitRows, hst₁]
    rcases ih st₁ with ⟨-, heq⟩ | ⟨r', hr', heq⟩
    · exact ⟨r, List.mem_cons_self, heq.trans hkey⟩
    · exact ⟨r', List.mem_cons_of_mem _ hr', heq⟩

/-- The rows of a page of a compiled plan: above the key, visible, stamped before
the bound. -/
theorem Writers.page_eq (hplan : plan.Compiled) (hsettle : plan.settleMs = some settle)
    (writers : Writers plan rank settle) {key : List Value} (hkey : plan.Keyed key)
    (now time : Int) :
    ∃ args, pageArgs plan key (now / 1000) = some args ∧ writers.page time args =
      (writers.rows.filter fun r => rank key < rank r.key ∧ r.committed ≤ (time : ℚ) ∧
        r.stamp < (settleBound settle now : ℚ)).take plan.batchSize := by
  obtain ⟨value, rfl⟩ := hkey
  obtain ⟨args, hargs, hafter, hlimit, hbound⟩ := pageArgs_bind hplan value (now / 1000)
  refine ⟨args, hargs, ?_⟩
  rw [Writers.page, mapM_some_of_forall hafter, hlimit, hbound settle hsettle]
  simp only [Option.bind_some, asInt_ofInt]
  rfl

/-- The key is the start key, or that of a row stamped before the bound of a page
read by now. -/
structure SettledWatch.Settled (writers : Writers plan rank settle) (w : SettledWatch) : Prop where
  keyed : plan.Keyed w.key
  stamped : w.key = w.start ∨ ∃ r ∈ writers.rows, r.key = w.key ∧
    ∃ t ≤ w.now, r.stamp < (settleBound settle t : ℚ)

theorem SettledWatch.Settled.next (hplan : plan.Compiled) (hsettle : plan.settleMs = some settle)
    {writers : Writers plan rank settle} {w w' : SettledWatch} {a : SettledAction}
    (hw : w.Settled writers) (h : w.next lib uri writers a = some w') : w'.Settled writers := by
  cases a with
  | wait ms =>
    cases h
    refine ⟨hw.keyed, hw.stamped.imp_right ?_⟩
    rintro ⟨r, hr, hkey, t, ht, hstamp⟩
    exact ⟨r, hr, hkey, t, ht.trans (by simp), hstamp⟩
  | page delay =>
    obtain ⟨args, hargs, hpage⟩ := writers.page_eq hplan hsettle hw.keyed w.now (w.now + delay)
    simp only [SettledWatch.next, hargs, Option.map_some, ← List.map_take] at h
    cases h
    rcases emitRows_key lib uri ((writers.page (w.now + delay) args).take plan.batchSize)
        ⟨w.key, [], 0⟩ with ⟨-, heq⟩ | ⟨r, hr, heq⟩
    · refine ⟨by rw [heq]; exact hw.keyed, ?_⟩
      rw [heq]
      refine hw.stamped.imp_right ?_
      rintro ⟨r, hr, hkey, t, ht, hstamp⟩
      exact ⟨r, hr, hkey, t, ht.trans (by simp), hstamp⟩
    · rw [hpage] at hr
      obtain ⟨hrow, hcond⟩ := List.mem_filter.mp (List.mem_of_mem_take (List.mem_of_mem_take hr))
      simp only [decide_eq_true_eq] at hcond
      refine ⟨by rw [heq]; exact rowKey_keyed r.keyed, .inr ⟨r, hrow, heq.symm, w.now, by simp, ?_⟩⟩
      exact hcond.2.2

/-- Where the bound holds back the whole window, no late row is passed. -/
theorem SettledWatch.Settled.keepsLate (hwhole : settle % 1000 = 0)
    {writers : Writers plan rank settle} {w : SettledWatch} (hw : w.Settled writers) :
    w.KeepsLate writers := by
  intro b hb hstart hlate
  rcases hw.stamped with heq | ⟨a, ha, heq, t, ht, hstamp⟩
  · rwa [heq]
  · rw [← heq]
    refine writers.ordered a ha b hb (hstamp.trans ?_)
    -- The late row is younger than the window at every time up to now.
    have hbound : (settleBound settle t : ℚ) ≤ (t - settle) / 1000 :=
      (settleBound_le_iff settle t).mpr (by omega)
    have hprompt := writers.prompt b hb
    have htime : (t : ℚ) ≤ w.now := by exact_mod_cast ht
    have hnow : ((t : ℚ) - settle) / 1000 < b.stamp := by
      rw [div_lt_iff₀ (by norm_num)]
      linarith
    exact lt_of_le_of_lt hbound hnow

/-! ## Windows with a rest -/

/-- The integer a key starts with. -/
def headRank : List Value → Nat
  | .num (.pos n) :: _ => n
  | _ => 0

variable (plan)

/-- The key that is `n` in every column. -/
def constKey (n : Nat) : List Value := plan.keyColumns.map fun _ => .ofNat n

theorem get?_map_const {α : Type} {names : List String} {v : α} {name : String} (h : name ∈ names) :
    Assoc.get? (names.map fun name => (name, v)) name = some v := by
  induction names with
  | nil => cases h
  | cons other names ih =>
    by_cases heq : other = name
    · simp [Assoc.get?, heq]
    · rcases List.mem_cons.mp h with rfl | hmem
      · exact absurd rfl heq
      · simpa [Assoc.get?, heq] using ih hmem

/-- The row that is `n` in every key column. -/
def constRow (n : Nat) (stamp committed : ℚ) : StampedRow plan where
  row := .obj (plan.keyColumns.map fun column => (column, .ofNat n))
  key := constKey plan n
  keyed := mapM_some_of_forall fun column hcolumn => by
    simp [Value.get, get?_map_const hcolumn, Value.ofNat, Value.isNull]
  stamp := stamp
  committed := committed

variable {plan}

theorem headRank_constKey (h : plan.keyColumns ≠ []) (n : Nat) : headRank (constKey plan n) = n := by
  unfold constKey
  cases hc : plan.keyColumns with
  | nil => exact absurd hc h
  | cons column columns => rfl

variable (plan settle) in
/-- Two rows stamped in the rest of the window before the bound: the first, with
the lower key, commits at the end of its window, the second at once. -/
def lateWriters (h : plan.keyColumns ≠ []) : Writers plan headRank settle where
  rows :=
    [constRow plan 1 (1 - (settle % 1000 : Nat) / 2000)
        (1000 * (1 - (settle % 1000 : Nat) / 2000) + settle),
      constRow plan 2 (1 - (settle % 1000 : Nat) / 4000) (1000 * (1 - (settle % 1000 : Nat) / 4000))]
  increasing := by
    simp [Increasing, constRow, headRank_constKey h]
  ordered := by
    have hrest : (0 : ℚ) ≤ (settle % 1000 : Nat) := Nat.cast_nonneg _
    simp only [List.mem_cons, List.not_mem_nil, or_false]
    rintro a (rfl | rfl) b (rfl | rfl) hlt <;> simp only [constRow] at hlt
    · exact absurd hlt (lt_irrefl _)
    · simp [constRow, headRank_constKey h]
    · exact absurd hlt (by linarith)
    · exact absurd hlt (lt_irrefl _)
  prompt := by
    have hsettle : (0 : ℚ) ≤ settle := Nat.cast_nonneg _
    simp only [List.mem_cons, List.not_mem_nil, or_false]
    rintro r (rfl | rfl) <;> simp only [constRow] <;> linarith

/-- A window with a rest: a page at the start of a second passes the late row. -/
theorem passes_late (hplan : plan.Compiled) (hsettle : plan.settleMs = some settle)
    (hrest : settle % 1000 ≠ 0) :
    ∃ w, (settledMachine lib uri (lateWriters plan settle hplan.keyColumns)).Reach
      (fun _ _ => True) w ∧ ¬ w.KeepsLate (lateWriters plan settle hplan.keyColumns) := by
  have hcols := hplan.keyColumns
  have hpos : (0 : ℚ) < (settle % 1000 : Nat) := by exact_mod_cast Nat.pos_of_ne_zero hrest
  have hdiv : (settle : ℚ) = 1000 * (settle / 1000 : Nat) + (settle % 1000 : Nat) := by
    exact_mod_cast (Nat.div_add_mod settle 1000).symm
  let now : Int := 1000 * (settle / 1000 : Nat) + 1000
  let w₀ : SettledWatch := ⟨now, constKey plan 0, constKey plan 0⟩
  have hbound : settleBound settle now = 1 := by
    simp only [settleBound, now]
    omega
  obtain ⟨args, hargs, hpage⟩ := (lateWriters plan settle hcols).page_eq hplan hsettle
    ⟨fun _ => .ofNat 0, rfl⟩ now now
  have hnow : ((now : Int) : ℚ) = 1000 * (settle / 1000 : Nat) + 1000 := by
    simp only [now, Int.cast_add, Int.cast_mul, Int.cast_natCast, Int.cast_ofNat]
  have hq : (0 : ℚ) ≤ (settle / 1000 : Nat) := Nat.cast_nonneg _
  -- The first row is not visible yet; the second is, and it is stamped before the bound.
  have hfirst : ¬ (1000 * (1 - (settle % 1000 : Nat) / 2000 : ℚ) + settle ≤ (now : Int)) := by
    rw [hnow, hdiv]
    linarith
  have hsecond : (1000 * (1 - (settle % 1000 : Nat) / 4000 : ℚ) ≤ (now : Int)) ∧
      (1 - (settle % 1000 : Nat) / 4000 : ℚ) < 1 := by
    rw [hnow]
    constructor <;> linarith
  have hrows : (lateWriters plan settle hcols).page now args =
      [constRow plan 2 (1 - (settle % 1000 : Nat) / 4000)
        (1000 * (1 - (settle % 1000 : Nat) / 4000))] := by
    have hkey := headRank_constKey hcols
    have h0 : headRank (plan.keyColumns.map fun _ => Value.ofNat 0) = 0 := hkey 0
    rw [hpage, hbound]
    simp only [lateWriters, List.filter_cons, List.filter_nil, constRow, hkey, h0, hfirst, hsecond,
      Int.cast_one, and_true, and_false, false_and, decide_false, Bool.false_eq_true, ↓reduceIte,
      Nat.lt_add_one, Nat.zero_lt_succ, decide_true]
    exact List.take_of_length_le hplan.batchSize.1
  refine ⟨{ w₀ with key := constKey plan 2 }, ?_, ?_⟩
  · have hinit : (settledMachine lib uri (lateWriters plan settle hcols)).init w₀ :=
      ⟨⟨fun _ => .ofNat 0, rfl⟩, rfl⟩
    refine (Machine.Reach.init hinit).step (a := .page 0) trivial ?_
    have hkey : (emitRows plan lib uri ⟨constKey plan 0, [], 0⟩
        ((((lateWriters plan settle hcols).page now args).take plan.batchSize).map
          fun r => r.row)).1.key = constKey plan 2 := by
      rw [hrows, List.take_of_length_le hplan.batchSize.1]
      obtain ⟨h, -⟩ | ⟨r, hr, heq⟩ := emitRows_key lib uri
        [constRow plan 2 (1 - (settle % 1000 : Nat) / 4000)
          (1000 * (1 - (settle % 1000 : Nat) / 4000))] ⟨constKey plan 0, [], 0⟩
      · cases h
      · rw [heq, List.mem_singleton.mp hr]
        rfl
    show SettledWatch.next lib uri _ w₀ (.page 0) = _
    have hargs' : pageArgs plan w₀.key (w₀.now / 1000) = some args := hargs
    simp only [SettledWatch.next, hargs', Option.map_some, ← List.map_take, Nat.cast_zero, add_zero]
    rw [← hkey]
  · intro hkeeps
    have hlt := hkeeps _ List.mem_cons_self (by simp [constRow, headRank_constKey hcols, w₀])
      (not_le.mp hfirst)
    simp [constRow, headRank_constKey hcols] at hlt

end

/-- In every run of writers and pages, with keys in any order type. -/
def AlwaysKeepsLate (plan : Plan) (settle : Nat) (lib : Lib) (uri : String) : Prop :=
  ∀ (κ : Type) [LinearOrder κ] (rank : List Value → κ) (writers : Writers plan rank settle)
    (w : SettledWatch), (settledMachine lib uri writers).Reach (fun _ _ => True) w →
      w.KeepsLate writers

/-- What `:_settle_before` is bound to is never above now less the window. -/
def AlwaysBelowWindow (plan : Plan) (settle : Nat) : Prop :=
  ∀ (key : List Value) (nowMs bound : Int),
    placeholderValue plan key (nowMs / 1000) settlePlaceholder = some (.ofInt bound) →
      (bound : ℚ) ≤ (nowMs - settle) / 1000

theorem alwaysBelowWindow_iff {plan : Plan} {settle : Nat} (hsettle : plan.settleMs = some settle) :
    AlwaysBelowWindow plan settle ↔ settle % 1000 = 0 := by
  have hvalue : ∀ key nowMs, placeholderValue plan key (nowMs / 1000) settlePlaceholder =
      some (.ofInt (settleBound settle nowMs)) := by
    intro key nowMs
    rw [placeholderValue_settle, hsettle]
    rfl
  constructor
  · intro h
    have := (settleBound_le_iff settle 0).mp (by simpa using h [] 0 _ (hvalue [] 0))
    omega
  · intro hwhole key nowMs bound hbound
    rw [hvalue] at hbound
    have heq : settleBound settle nowMs = bound := by
      have := congrArg asInt (Option.some.inj hbound)
      simpa using this
    rw [← heq]
    exact (settleBound_le_iff settle nowMs).mpr (by omega)

/-- The window keeps late commits exactly when it is in whole seconds; and so
does the bound stay below now less the window. -/
theorem settle_keeps_late_iff (spec : SqlChangesWatchSpec) (guards : Guards) (plan : Plan)
    (hplan : spec.compile guards = .ok plan) (settle : Nat) (hsettle : spec.settleMs = some settle)
    (lib : Lib) (uri : String) :
    (AlwaysKeepsLate plan settle lib uri ↔ settle % 1000 = 0) ∧
    (AlwaysBelowWindow plan settle ↔ settle % 1000 = 0) := by
  obtain ⟨hcompiled, hms, -⟩ := compile_ok hplan
  rw [hsettle] at hms
  refine ⟨⟨fun h => ?_, fun hwhole κ _ rank writers w hreach => ?_⟩, alwaysBelowWindow_iff hms⟩
  · by_contra hrest
    obtain ⟨w, hreach, hnot⟩ := passes_late lib uri hcompiled hms hrest
    exact hnot (h Nat headRank _ w hreach)
  · have hsettled : w.Settled writers := by
      refine hreach.invariant (fun {w} h₀ => ⟨?_, .inl h₀.2⟩) fun _ hst hw =>
        hw.next lib uri hcompiled hms hst
      rw [h₀.2]
      exact h₀.1
    exact hsettled.keepsLate hwhole

/-- A spec with a settle window. -/
def sampleSettleSpec (settle : Nat) : SqlChangesWatchSpec where
  connection :=
    { driver := .sqlite
      query :=
        { body := .sql "SELECT * FROM t WHERE id > :_after_id AND at < :_settle_before LIMIT :_limit"
          rowMode := .many } }
  keyColumns := ["id"]
  initial := [("id", .ofNat 0)]
  start := .beginning
  settleMs := some settle

/-- The theorem at a window of two seconds. -/
theorem two_second_window_keeps_late : ∃ plan,
    (sampleSettleSpec 2000).compile sampleGuards = .ok plan ∧
    AlwaysKeepsLate plan 2000 sampleLib "mcpg-event://t" ∧ AlwaysBelowWindow plan 2000 := by
  obtain ⟨plan, hplan⟩ : ∃ plan, (sampleSettleSpec 2000).compile sampleGuards = .ok plan :=
    ⟨_, rfl⟩
  obtain ⟨hkeeps, hbelow⟩ := settle_keeps_late_iff _ _ plan hplan 2000 rfl sampleLib "mcpg-event://t"
  exact ⟨plan, hplan, hkeeps.mpr rfl, hbelow.mpr rfl⟩

/-- With a window of one and a half seconds, a row that commits within it is
passed over, and the bound is half a second late. -/
theorem half_second_window_passes_late : ∃ plan,
    (sampleSettleSpec 1500).compile sampleGuards = .ok plan ∧
    ¬ AlwaysKeepsLate plan 1500 sampleLib "mcpg-event://t" ∧ ¬ AlwaysBelowWindow plan 1500 := by
  obtain ⟨plan, hplan⟩ : ∃ plan, (sampleSettleSpec 1500).compile sampleGuards = .ok plan :=
    ⟨_, rfl⟩
  obtain ⟨hcompiled, hms, -⟩ := compile_ok hplan
  obtain ⟨w, hreach, hnot⟩ := passes_late sampleLib "mcpg-event://t" hcompiled hms (by decide)
  refine ⟨plan, hplan, fun h => hnot (h Nat headRank _ w hreach), fun h => ?_⟩
  exact absurd ((alwaysBelowWindow_iff hms).mp h) (by decide)

end McpgSql.Changes
