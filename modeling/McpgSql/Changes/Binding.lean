import McpgSql.Changes.Plan
import McpgSql.Sql.Placeholders

/-!
# What a page binds

The keys of a plan come from its start, from a stored cursor and from its rows
(`Plan.Obtained`); each has one value for each key column. So the arguments of a page
exist, one for each placeholder of the query and in its order (`page_binds`).
-/

namespace McpgSql.Changes

open Library

variable {spec : SqlChangesWatchSpec} {guards : Guards} {plan : Plan} {key : List Value}

/-- The keys that a watch of the plan works with. -/
inductive Plan.Obtained (plan : Plan) : List Value → Prop
  | start (rows : List Value) : Obtained plan (startKey plan rows)
  | resume {reason : Value → String} {cursor : Value} {key : List Value}
      (h : resumeKey reason plan cursor = .ok key) : Obtained plan key
  | row {row : Value} {key : List Value} (h : rowKey plan row = some key) : Obtained plan key

theorem Plan.Keyed.length (h : plan.Keyed key) : key.length = plan.keyColumns.length := by
  obtain ⟨value, rfl⟩ := h
  exact List.length_map _

theorem resumeKey_length {reason : Value → String} {cursor : Value}
    (h : resumeKey reason plan cursor = .ok key) : key.length = plan.keyColumns.length := by
  unfold resumeKey at h
  split at h
  · cases h
  · split at h
    · cases h
    · rename_i hfits
      cases h
      simpa using (not_or.mp hfits).2

theorem Plan.Obtained.length (hplan : plan.Compiled) (h : plan.Obtained key) :
    key.length = plan.keyColumns.length := by
  cases h with
  | start rows => exact (startKey_keyed hplan rows).length
  | resume h => exact resumeKey_length h
  | row h => exact (rowKey_keyed h).length

/-- The statement of a plan is that of the query. -/
theorem compile_stmt (h : spec.compile guards = .ok plan) :
    plan.batchSize = spec.batchSize ∧ ∃ sql, spec.connection.query.body = .sql sql ∧
      plan.stmt.sql = (rewritePlaceholders sql spec.connection.driver).1 ∧
      plan.stmt.paramOrder = (rewritePlaceholders sql spec.connection.driver).2 := by
  unfold SqlChangesWatchSpec.compile at h
  simp only [bind_eq_ok, pure_eq_ok] at h
  obtain ⟨_, -, _, -, sql, hsql, _, -, _, -, initial, -, _, -, _, -, _, -, _, -,
    _, -, _, -, _, -, _, -, _, -, latest, -, rfl⟩ := h
  refine ⟨rfl, sql, ?_, rfl, rfl⟩
  unfold SqlChangesWatchSpec.sql at hsql
  split at hsql
  · rename_i body hbody
    cases hsql
    exact hbody
  · cases hsql
  · cases hsql

/-- What an argument of a page is: the value of a key column at the column's first place,
the batch size, or with a settle window its bound. -/
inductive Binds (spec : SqlChangesWatchSpec) (key : List Value) (nowSecs : Int) : BoundParam → Prop
  | after {column : String} {value : Value} (hcolumn : column ∈ spec.keyColumns)
      (hvalue : key[spec.keyColumns.idxOf column]? = some value) :
      Binds spec key nowSecs ⟨afterPrefix ++ column, value⟩
  | limit : Binds spec key nowSecs ⟨limitPlaceholder, .ofNat spec.batchSize⟩
  | settle {settle : Nat} (h : spec.settleMs = some settle) :
      Binds spec key nowSecs ⟨settlePlaceholder, .ofInt (nowSecs - (settle / 1000 : Nat))⟩

/-- Every placeholder of the query has its value. -/
theorem placeholder_binds (h : spec.compile guards = .ok plan) (hlength : key.length = plan.keyColumns.length)
    (nowSecs : Int) {name : String} (hname : name ∈ plan.stmt.paramOrder) :
    ∃ value, placeholderValue plan key nowSecs name = some value ∧ Binds spec key nowSecs ⟨name, value⟩ := by
  obtain ⟨hplan, hsettle, hcolumns⟩ := compile_ok h
  obtain ⟨hbatch, -⟩ := compile_stmt h
  rcases List.mem_append.mp ((hplan.bound name).mp hname) with hmem | hmem
  · rcases List.mem_append.mp hmem with hmem | hmem
    · obtain ⟨column, hcolumn, rfl⟩ := List.mem_map.mp hmem
      have hlt : plan.keyColumns.idxOf column < key.length :=
        hlength ▸ List.idxOf_lt_length_of_mem hcolumn
      obtain ⟨value, hvalue⟩ : ∃ value, key[plan.keyColumns.idxOf column]? = some value :=
        ⟨_, List.getElem?_eq_getElem hlt⟩
      refine ⟨_, (placeholderValue_key key nowSecs hcolumn).trans hvalue, ?_⟩
      rw [hcolumns] at hcolumn hvalue
      exact .after hcolumn hvalue
    · obtain rfl := List.mem_singleton.mp hmem
      refine ⟨_, placeholderValue_limit plan key nowSecs, ?_⟩
      rw [hbatch]
      exact .limit
  · split at hmem
    · rename_i hsome
      obtain ⟨settle, hms⟩ := Option.isSome_iff_exists.mp hsome
      obtain rfl := List.mem_singleton.mp hmem
      refine ⟨_, placeholderValue_settle plan key nowSecs, ?_⟩
      rw [hms]
      exact .settle (hsettle.symm.trans hms)
    · cases hmem

/-- The arguments of a page exist for every key of the right length. -/
theorem pageArgs_binds (h : spec.compile guards = .ok plan)
    (hlength : key.length = plan.keyColumns.length) (nowSecs : Int) :
    ∃ args, pageArgs plan key nowSecs = some args ∧
      args.map BoundParam.name = plan.stmt.paramOrder ∧ ∀ arg ∈ args, Binds spec key nowSecs arg := by
  have hbinds := fun name (hname : name ∈ plan.stmt.paramOrder) =>
    placeholder_binds h hlength nowSecs hname
  let bound (name : String) : Value := (placeholderValue plan key nowSecs name).getD .null
  refine ⟨plan.stmt.paramOrder.map fun name => { name, value := bound name },
    mapM_some_of_forall fun name hname => ?_, ?_, fun arg harg => ?_⟩
  · obtain ⟨value, hvalue, -⟩ := hbinds name hname
    simp only [bound, hvalue, Option.map_some, Option.getD_some]
  · rw [List.map_map]
    exact List.map_id _
  · obtain ⟨name, hname, rfl⟩ := List.mem_map.mp harg
    obtain ⟨value, hvalue, harg⟩ := hbinds name hname
    simp only [bound, hvalue, Option.getD_some]
    exact harg

/-- Every key of a compiled plan has one value for each key column, and its page binds the
placeholders of the query, in their order, to the values they stand for. -/
theorem page_binds (spec : SqlChangesWatchSpec) (guards : Guards) (plan : Plan) (key : List Value)
    (nowSecs : Int) (h : spec.compile guards = .ok plan) (hkey : plan.Obtained key) :
    key.length = spec.keyColumns.length ∧
    ∃ sql args, spec.connection.query.body = .sql sql ∧
      plan.stmt.sql =
        String.ofList (Sql.filled spec.connection.driver Sql.copied 0 (Sql.partsOf sql)) ∧
      pageArgs plan key nowSecs = some args ∧
      args.map BoundParam.name = Sql.names (Sql.partsOf sql) ∧
      ∀ arg ∈ args, Binds spec key nowSecs arg := by
  obtain ⟨hplan, -, hcolumns⟩ := compile_ok h
  obtain ⟨-, sql, hsql, htext, horder⟩ := compile_stmt h
  have hlength := hkey.length hplan
  obtain ⟨args, hargs, hnames, hbinds⟩ := pageArgs_binds h hlength nowSecs
  rw [Sql.rewritePlaceholders_eq] at htext horder
  exact ⟨hcolumns ▸ hlength, sql, args, hsql, htext, hargs, hnames.trans horder, hbinds⟩

/-- A watch whose key columns are named like placeholders, one of them twice. -/
def lookalikeSpec : SqlChangesWatchSpec where
  connection :=
    { driver := .postgres
      query :=
        { body := .sql "(_limit, _after_x) > (:_after__limit, :_after__after_x) LIMIT :_limit"
          rowMode := .many } }
  keyColumns := ["_limit", "_after_x", "_limit"]
  initial := [("_after_x", .str "a"), ("_limit", .ofNat 7)]
  start := .beginning

def lookalikePlan : Plan where
  stmt :=
    { sql := "(_limit, _after_x) > ($1, $2) LIMIT $3"
      paramOrder := ["_after__limit", "_after__after_x", "_limit"]
      driver := .postgres }
  latest := none
  keyColumns := ["_limit", "_after_x", "_limit"]
  initial := [.ofNat 7, .str "a", .ofNat 7]
  start := .beginning
  batchSize := 100
  intervalMs := 1000
  timeoutMs := 30000
  occurredAtColumn := none
  opColumn := none
  settleMs := none

theorem lookalikePlan_compiled : lookalikeSpec.compile sampleGuards = .ok lookalikePlan := by rfl

/-- The theorem at a cursor that has two values for one column: the first is bound. -/
theorem lookalike_binds : ∃ args, pageArgs lookalikePlan [.ofNat 8, .str "b", .ofNat 9] 100 = some args ∧
    args.map BoundParam.name = ["_after__limit", "_after__after_x", "_limit"] ∧
    ∀ arg ∈ args, Binds lookalikeSpec [.ofNat 8, .str "b", .ofNat 9] 100 arg := by
  have hresume : resumeKey (fun _ => "") lookalikePlan (cursorValue [.ofNat 8, .str "b", .ofNat 9]) =
      .ok [.ofNat 8, .str "b", .ofNat 9] := by rfl
  obtain ⟨-, sql, args, hsql, -, hargs, hnames, hbinds⟩ := page_binds lookalikeSpec sampleGuards
    lookalikePlan _ 100 lookalikePlan_compiled (.resume hresume)
  refine ⟨args, hargs, hnames.trans ?_, hbinds⟩
  cases hsql
  decide

end McpgSql.Changes
