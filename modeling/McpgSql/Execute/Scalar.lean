import McpgSql.Cache.Freshness
import McpgSql.Execute.Entries

/-!
# The scalar of a batch

`scalar` calls, `scalar` steps of a transaction and the tracking queries of the watch and
of the cache take the first member of the first row. A row is a map in the order of its
keys, so that is the column whose name is least, not the one the query selects first.

`scalar_first_iff`: where the four give the first column that is selected.
-/

namespace McpgSql.Execute

open Library

/-- A batch of these columns and these cells. -/
def selectedBatch (columns : List String) (cells : List (List Value)) : RowBatch where
  columns
  rows := cells.map fun row => .object (columns.zip row)

/-- The four give `value`. -/
structure ScalarIs (batch : RowBatch) (maxRows : Nat) (value : Value) : Prop where
  response : ∃ truncated, shapeResponse batch .scalar maxRows = .ok (value, truncated)
  step : txFirstScalar batch = value
  tracking : Cache.firstScalar batch.rows = some value

/-- The least column has the value of the first one, which is `value`. -/
def LeastHas (columns : List String) (row : List Value) (value : Value) : Prop :=
  ∀ cell ∈ columns.zip row, (∀ other ∈ columns, cell.1 ≤ other) → cell.2 = value

variable {columns : List String} {row : List Value}

/-- The first member of a row is the cell of its least column. -/
theorem row_head (hnames : columns.Nodup) (hcolumns : columns ≠ []) (hrow : row.length = columns.length) :
    ∃ cell ∈ columns.zip row, (∀ other ∈ columns, cell.1 ≤ other) ∧
      (Assoc.ofList (columns.zip row)).head? = some cell := by
  have hkeys : (columns.zip row).map Prod.fst = columns := List.map_fst_zip hrow.ge
  obtain ⟨cell, hcell, hleast, hhead⟩ := Assoc.head?_ofList
    (show ((columns.zip row).map Prod.fst).Nodup by rwa [hkeys]) fun hnil => hcolumns (by rw [← hkeys, hnil]; rfl)
  refine ⟨cell, hcell, fun other hother => ?_, hhead⟩
  rw [← hkeys] at hother
  obtain ⟨member, hmember, rfl⟩ := List.mem_map.mp hother
  exact hleast member hmember

/-- The least cell is one. -/
theorem leastHas_iff (hnames : columns.Nodup) (hrow : row.length = columns.length)
    {cell : String × Value} (hcell : cell ∈ columns.zip row) (hleast : ∀ other ∈ columns, cell.1 ≤ other)
    (value : Value) : LeastHas columns row value ↔ cell.2 = value := by
  have hkeys : (columns.zip row).map Prod.fst = columns := List.map_fst_zip hrow.ge
  refine ⟨fun h => h cell hcell hleast, fun h member hmember hall => ?_⟩
  have hname : member.1 = cell.1 :=
    le_antisymm (hall _ (List.of_mem_zip hcell).1) (hleast _ (List.of_mem_zip hmember).1)
  rw [List.inj_on_of_nodup_map (by rwa [hkeys]) hmember hcell hname]
  exact h

/-- What the four give of a batch whose first row begins with `cell`. -/
theorem scalarIs_iff {first : List Value} {rest : List (List Value)} {cell : String × Value}
    (hhead : (Assoc.ofList (columns.zip first)).head? = some cell) (maxRows : Nat) (value : Value) :
    ScalarIs (selectedBatch columns (first :: rest)) maxRows value ↔
      cell.2 = value ∧ (0 < maxRows ∨ value = .null) := by
  have hscalar : scalarOf (.object (columns.zip first)) = cell.2 := by
    rw [Value.object, scalarOf, hhead]
    rfl
  have htracking : Cache.firstScalar (selectedBatch columns (first :: rest)).rows = some cell.2 :=
    congrArg (Option.map Prod.snd) hhead
  constructor
  · rintro ⟨⟨truncated, hresponse⟩, -, hrows⟩
    rw [htracking] at hrows
    refine ⟨Option.some.inj hrows, ?_⟩
    cases maxRows with
    | zero => exact .inr (congrArg Prod.fst (Except.ok.inj hresponse)).symm
    | succ maxRows => exact .inl (Nat.succ_pos maxRows)
  · rintro ⟨rfl, hmax⟩
    refine ⟨?_, hscalar, htracking⟩
    cases maxRows with
    | zero =>
      obtain hnull := hmax.resolve_left (Nat.lt_irrefl 0)
      rw [hnull]
      exact ⟨_, rfl⟩
    | succ maxRows =>
      rw [← hscalar]
      exact ⟨_, rfl⟩

/-- The scalar of a batch is its first row's value of the first column, wherever it is
taken, iff the column whose name is least has the same value in that row, and the call may
return a row or the value is null. -/
theorem scalar_first_iff (columns : List String) (first : List Value) (rest : List (List Value))
    (maxRows : Nat) (value : Value) (hnames : columns.Nodup) (hfirst : first.length = columns.length)
    (hvalue : columns.head?.bind (Value.object (columns.zip first)).get = some value) :
    ScalarIs (selectedBatch columns (first :: rest)) maxRows value ↔
      LeastHas columns first value ∧ (0 < maxRows ∨ value = .null) := by
  have hcolumns : columns ≠ [] := by
    rintro rfl
    cases hvalue
  obtain ⟨cell, hcell, hleast, hhead⟩ := row_head hnames hcolumns hfirst
  rw [leastHas_iff hnames hfirst hcell hleast, scalarIs_iff hhead]

/-- `SELECT total, id`: the scalar is the id. -/
theorem total_not_scalar :
    ["total", "id"].head?.bind (Value.object (["total", "id"].zip [.ofNat 90, .ofNat 7])).get =
        some (.ofNat 90) ∧
      ¬ScalarIs (selectedBatch ["total", "id"] [[.ofNat 90, .ofNat 7]]) 100 (.ofNat 90) ∧
      ScalarIs (selectedBatch ["total", "id"] [[.ofNat 90, .ofNat 7]]) 100 (.ofNat 7) := by
  refine ⟨by decide, fun h => absurd h.step (by decide), ⟨_, rfl⟩, by decide, by decide⟩

/-- `SELECT id, total`: the theorem where the first column is the least. -/
theorem id_scalar : ScalarIs (selectedBatch ["id", "total"] [[.ofNat 7, .ofNat 90]]) 100 (.ofNat 7) := by
  refine (scalar_first_iff ["id", "total"] [.ofNat 7, .ofNat 90] [] 100 (.ofNat 7) (by decide) rfl
    (by decide)).mpr ⟨fun cell hcell hleast => ?_, .inl (by decide)⟩
  simp only [List.zip_cons_cons, List.zip_nil_right, List.mem_cons, List.not_mem_nil, or_false] at hcell
  obtain rfl | rfl := hcell
  · rfl
  · exact absurd (hleast "id" List.mem_cons_self) (by decide)

end McpgSql.Execute
