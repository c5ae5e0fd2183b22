import McpgSql.Execute.Entries
import McpgSql.Library.Keyset

/-!
# What a listing covers

A listing is read by calling `list_resources` with no cursor and then with each
`next_cursor` until a page has none.

* `offset_covers_iff`: in offset mode the next cursor is the size of the page and
  not the offset after it, so the third page is the second one again. The run ends,
  with every row, exactly where the table has fewer rows than two pages.
* `keyset_covers_iff`: in keyset mode a page without resources has no next cursor
  even where it is full. The run has every row with a `uri` exactly where no page
  of rows without one comes before a row that has one.
-/

namespace McpgSql.Listing

open Library McpgSql.Execute
open McpgSql.Changes (ensure_eq_ok)

/-! ## Runs -/

/-- The pages of a caller that passes each `next_cursor` back until there is none. -/
def listAll (call : Nat → Option String → Except Stop ResourcePage) :
    Nat → Nat → Option String → Option (List ResourcePage)
  | 0, _, _ => none
  | fuel + 1, n, cursor => match call n cursor with
    | .error _ => none
    | .ok page => match page.nextCursor with
      | none => some [page]
      | some c => (listAll call fuel (n + 1) (some c)).map (page :: ·)

/-- The run from this cursor on ends, and its pages have the resources of these rows, each
once and in order. -/
def CoversFrom (call : Nat → Option String → Except Stop ResourcePage) (n : Nat)
    (cursor : Option String) (rows : List Value) : Prop :=
  ∃ fuel pages, listAll call fuel n cursor = some pages ∧
    pages.flatMap ResourcePage.resources = rows.filterMap listedResource

def Covers (call : Nat → Option String → Except Stop ResourcePage) (rows : List Value) : Prop :=
  CoversFrom call 0 none rows

section

variable {call : Nat → Option String → Except Stop ResourcePage} {n : Nat} {cursor : Option String}
  {page : ResourcePage}

theorem coversFrom_last (hcall : call n cursor = .ok page) (hlast : page.nextCursor = none)
    (rows : List Value) :
    CoversFrom call n cursor rows ↔ page.resources = rows.filterMap listedResource := by
  have hrun : ∀ fuel, listAll call (fuel + 1) n cursor = some [page] := fun fuel => by
    simp only [listAll, hcall, hlast]
  constructor
  · rintro ⟨fuel, pages, hpages, hrows⟩
    cases fuel with
    | zero => cases hpages
    | succ fuel =>
      rw [hrun] at hpages
      cases hpages
      simpa using hrows
  · intro hrows
    exact ⟨1, [page], hrun 0, by simpa using hrows⟩

theorem coversFrom_next {c : String} (hcall : call n cursor = .ok page)
    (hnext : page.nextCursor = some c) {front : List Value}
    (hpage : page.resources = front.filterMap listedResource) (back : List Value) :
    CoversFrom call n cursor (front ++ back) ↔ CoversFrom call (n + 1) (some c) back := by
  have hrun : ∀ fuel, listAll call (fuel + 1) n cursor =
      (listAll call fuel (n + 1) (some c)).map (page :: ·) := fun fuel => by
    simp only [listAll, hcall, hnext]
  constructor
  · rintro ⟨fuel, pages, hpages, hrows⟩
    cases fuel with
    | zero => cases hpages
    | succ fuel =>
      rw [hrun, Option.map_eq_some_iff] at hpages
      obtain ⟨more, hmore, rfl⟩ := hpages
      rw [List.flatMap_cons, List.filterMap_append, hpage] at hrows
      exact ⟨fuel, more, hmore, List.append_cancel_left hrows⟩
  · rintro ⟨fuel, more, hmore, hrows⟩
    refine ⟨fuel + 1, page :: more, by rw [hrun, hmore]; rfl, ?_⟩
    rw [List.flatMap_cons, List.filterMap_append, hpage, hrows]

end

variable {δ : Type}

/-- The `n`-th call of a listing, in an environment of its own. -/
def listCall (lib : CallLib δ) (rt : Runtime) (envs : Nat → Nat → (q : Question δ) → Answer q)
    (n : Nat) (cursor : Option String) : Except Stop ResourcePage :=
  Prog.result (envs n) 0 (listResources lib rt cursor)

/-- The arguments of a listing statement where `:cursor` is `v`. -/
def boundArgs (cfg : ListQueryConfig) (order : List String) (v : Value) : List BoundParam :=
  order.map fun name => { name, value := if name = "cursor" then v else .ofNat cfg.pageSize }

/-- A binding with a listing, whose statement the driver answers by what `:cursor` is
bound to. -/
structure Listed (rt : Runtime) (envs : Nat → Nat → (q : Question δ) → Answer q)
    (cfg : ListQueryConfig) (query : Value → List Value) : Prop where
  valid : cfg.validate = .ok ()
  registered : ∃ stmt, rt.list = some (stmt, cfg) ∧ cfg.prepare rt.driverKind = .ok stmt ∧
    ∀ n i v, ∃ batch : RowBatch, batch.rows = query v ∧
      envs n i (.submit ⟨.pool .registered, .execute, stmt, boundArgs cfg stmt.paramOrder v,
        rt.sessionVars⟩) = (.ok batch : Except SqlError RowBatch)

/-! ## One page -/

section

variable {rt : Runtime} {envs : Nat → Nat → (q : Question δ) → Answer q}
  {cfg : ListQueryConfig} {query : Value → List Value}

theorem pageSize_of_validate (h : cfg.validate = .ok ()) : 1 ≤ cfg.pageSize ∧ cfg.pageSize ≤ 1000 := by
  simp only [ListQueryConfig.validate, bind_eq_ok] at h
  obtain ⟨_, -, _, -, _, -, _, hsize, -⟩ := h
  have := ensure_eq_ok.mp hsize
  simp only [ne_eq, decide_not, Bool.and_eq_true, Bool.not_eq_eq_eq_not, Bool.not_true,
    decide_eq_false_iff_not, decide_eq_true_eq] at this
  omega

/-- A registered statement binds the cursor and the page size only. -/
theorem listArgs_of_prepare {stmt : PreparedStmt} {driver : DriverKind}
    (h : cfg.prepare driver = .ok stmt) {cursor : Option String} {v : Value}
    (hv : cursorValue cfg.mode cursor = .ok v) :
    listArgs cfg stmt.paramOrder cursor = .ok (boundArgs cfg stmt.paramOrder v) := by
  have hnames : ∀ name ∈ stmt.paramOrder, name = "cursor" ∨ name = "page_size" := by
    simp only [ListQueryConfig.prepare] at h
    split at h
    · cases h
    · rename_i hfind
      cases h
      intro name hname
      have := List.find?_eq_none.mp hfind name hname
      simp only [ne_eq, decide_not, Bool.and_eq_true, Bool.not_eq_eq_eq_not, Bool.not_true,
        decide_eq_false_iff_not, not_and, not_not] at this
      exact or_iff_not_imp_left.mpr this
  simp only [listArgs, hv]
  refine mapM_ok_of_forall fun name hname => ?_
  rcases hnames name hname with rfl | rfl
  · simp
  · simp

/-- A call at a cursor answers with the page of the rows of the query. -/
theorem Listed.call (lib : CallLib δ) (h : Listed rt envs cfg query) (n : Nat)
    {cursor : Option String} {v : Value}
    (hv : cursorValue cfg.mode cursor = .ok v) :
    ∃ batch : RowBatch, batch.rows = query v ∧
      listCall lib rt envs n cursor = .ok (batchToResourcePage lib.text batch cfg) := by
  obtain ⟨stmt, hlist, hprep, hans⟩ := h.registered
  have hargs := listArgs_of_prepare hprep hv
  obtain ⟨batch, hrows, hbatch⟩ := hans n 0 v
  refine ⟨batch, hrows, ?_⟩
  simp only [listCall, listResources, hlist, hargs, submitRegistered, ofSql, ofBackend]
  show Prog.result (envs n) 0 (Prog.ask _ _) = _
  rw [Prog.result, Prog.run]
  simp only [hbatch]
  rfl

end

/-! ## Concrete listings -/

/-- What the arguments of a page bind `:cursor` to. -/
def boundCursor (args : List BoundParam) : Value :=
  ((args.find? (·.name = "cursor")).map (·.value)).getD .null

/-- A binding with this listing, and no session variables. -/
def docsRuntime (stmt : PreparedStmt) (cfg : ListQueryConfig) : Runtime :=
  { ordersRuntime ⟨"postgres://app@db/docs", .empty, Pool.CredConfig.identifiers_empty⟩ with list := some (stmt, cfg) }

/-- A driver that answers the query of a listing. -/
def docsEnv (query : Value → List Value) (_ _ : Nat) : (q : Question String) → Answer q :=
  answering fun args => query (boundCursor args)

theorem boundCursor_boundArgs {cfg : ListQueryConfig} {order : List String}
    (h : "cursor" ∈ order) (v : Value) : boundCursor (boundArgs cfg order v) = v := by
  induction order with
  | nil => cases h
  | cons name order ih =>
    by_cases hname : name = "cursor"
    · simp [boundCursor, boundArgs, hname]
    · have hmem : "cursor" ∈ order := (List.mem_cons.mp h).resolve_left fun h => hname h.symm
      have hrest := ih hmem
      simp only [boundCursor, boundArgs, List.map_cons] at hrest ⊢
      rw [List.find?_cons_of_neg (by simpa using hname)]
      exact hrest

theorem listed_docs {stmt : PreparedStmt} {cfg : ListQueryConfig} (query : Value → List Value)
    (hvalid : cfg.validate = .ok ()) (hprep : cfg.prepare .postgres = .ok stmt)
    (horder : "cursor" ∈ stmt.paramOrder) :
    Listed (docsRuntime stmt cfg) (docsEnv query) cfg query where
  valid := hvalid
  registered := by
    refine ⟨stmt, rfl, hprep, fun n i v => ⟨{ rows := query v }, rfl, ?_⟩⟩
    show Except.ok { rows := query (boundCursor (boundArgs cfg stmt.paramOrder v)) : RowBatch } = _
    rw [boundCursor_boundArgs horder]

/-- A row with a `uri`. -/
def docRow (uri : String) : Value := .object [("uri", .str uri)]

/-! ## Offsets -/

section

variable {lib : CallLib δ} {rt : Runtime} {envs : Nat → Nat → (q : Question δ) → Answer q}
  {cfg : ListQueryConfig} {query : Value → List Value} {rows : List Value}

/-- The page at an offset. A full one has the page size as its next cursor. -/
theorem offset_page (lib : CallLib δ) (h : Listed rt envs cfg query) (hmode : cfg.mode = .offset)
    (hquery : ∀ o, query (.ofNat o) = (rows.drop o).take cfg.pageSize) (n : Nat)
    {cursor : Option String} {o : Nat} (hv : cursorValue .offset cursor = .ok (.ofNat o)) :
    ∃ page, listCall lib rt envs n cursor = .ok page ∧
      page.resources = ((rows.drop o).take cfg.pageSize).filterMap listedResource ∧
      page.nextCursor = if rows.length < o + cfg.pageSize then none
        else some (Nat.repr cfg.pageSize) := by
  obtain ⟨batch, hrows, hcall⟩ := h.call lib n (by rw [hmode]; exact hv)
  have hsize := (pageSize_of_validate h.valid).1
  have hlen : batch.rows.length = min cfg.pageSize (rows.length - o) := by
    rw [hrows, hquery, List.length_take, List.length_drop]
  refine ⟨_, hcall, by rw [batchToResourcePage_resources, hrows, hquery], ?_⟩
  rw [batchToResourcePage_nextCursor, hmode, hlen]
  by_cases hlast : rows.length < o + cfg.pageSize
  · rw [if_pos hlast, if_pos (by omega)]
  · rw [if_neg hlast, if_neg (by omega), Nat.min_eq_left (by omega)]

theorem cursorValue_pageSize (h : Listed rt envs cfg query) :
    cursorValue .offset (some (Nat.repr cfg.pageSize)) = .ok (.ofNat cfg.pageSize) := by
  have hsize := (pageSize_of_validate h.valid).2
  rw [cursorValue, parseU64_repr (by omega)]

/-- A table of a page and more: what is left is read at the page size. -/
theorem offset_covers_rest (h : Listed rt envs cfg query) (hmode : cfg.mode = .offset)
    (hquery : ∀ o, query (.ofNat o) = (rows.drop o).take cfg.pageSize)
    (hfull : cfg.pageSize ≤ rows.length) :
    Covers (listCall lib rt envs) rows ↔ CoversFrom (listCall lib rt envs) 1
      (some (Nat.repr cfg.pageSize)) (rows.drop cfg.pageSize) := by
  obtain ⟨first, hfirst, hres, hnext⟩ :=
    offset_page lib h hmode hquery 0 (show cursorValue .offset none = .ok (.ofNat 0) from rfl)
  rw [List.drop_zero] at hres
  rw [if_neg (by omega)] at hnext
  rw [← coversFrom_next hfirst hnext hres, List.take_append_drop, Covers]

/-- A table of two pages and more: the second page has the cursor that it was read with. -/
theorem offset_never_ends (h : Listed rt envs cfg query) (hmode : cfg.mode = .offset)
    (hquery : ∀ o, query (.ofNat o) = (rows.drop o).take cfg.pageSize)
    (hlong : 2 * cfg.pageSize ≤ rows.length) (fuel n : Nat) :
    listAll (listCall lib rt envs) fuel n (some (Nat.repr cfg.pageSize)) = none := by
  induction fuel generalizing n with
  | zero => rfl
  | succ fuel ih =>
    obtain ⟨page, hcall, -, hnext⟩ := offset_page lib h hmode hquery n (cursorValue_pageSize h)
    rw [if_neg (by omega)] at hnext
    simp only [listAll, hcall, hnext, ih, Option.map_none]

theorem not_offset_covers (h : Listed rt envs cfg query) (hmode : cfg.mode = .offset)
    (hquery : ∀ o, query (.ofNat o) = (rows.drop o).take cfg.pageSize)
    (hlong : 2 * cfg.pageSize ≤ rows.length) : ¬Covers (listCall lib rt envs) rows := by
  rw [offset_covers_rest h hmode hquery (by omega)]
  rintro ⟨fuel, pages, hpages, -⟩
  rw [offset_never_ends h hmode hquery hlong] at hpages
  cases hpages

theorem offset_covers (h : Listed rt envs cfg query) (hmode : cfg.mode = .offset)
    (hquery : ∀ o, query (.ofNat o) = (rows.drop o).take cfg.pageSize)
    (hshort : rows.length < 2 * cfg.pageSize) : Covers (listCall lib rt envs) rows := by
  by_cases hone : rows.length < cfg.pageSize
  · obtain ⟨page, hcall, hres, hnext⟩ :=
      offset_page lib h hmode hquery 0 (show cursorValue .offset none = .ok (.ofNat 0) from rfl)
    rw [if_pos (by omega)] at hnext
    rw [List.drop_zero, List.take_of_length_le (by omega)] at hres
    exact (coversFrom_last hcall hnext rows).mpr hres
  · rw [offset_covers_rest h hmode hquery (by omega)]
    obtain ⟨page, hcall, hres, hnext⟩ := offset_page lib h hmode hquery 1 (cursorValue_pageSize h)
    rw [if_pos (by omega)] at hnext
    rw [List.take_of_length_le (by rw [List.length_drop]; omega)] at hres
    exact (coversFrom_last hcall hnext _).mpr hres

/-- An offset listing covers its table exactly where that has fewer rows than two pages. -/
theorem offset_covers_iff (h : Listed rt envs cfg query) (hmode : cfg.mode = .offset)
    (hquery : ∀ o, query (.ofNat o) = (rows.drop o).take cfg.pageSize) :
    Covers (listCall lib rt envs) rows ↔ rows.length < 2 * cfg.pageSize := by
  constructor
  · intro hcovers
    by_contra hlong
    exact not_offset_covers h hmode hquery (by omega) hcovers
  · exact offset_covers h hmode hquery

end

/-- Documents by offset. -/
def docsByOffset (pageSize : Nat) : ListQueryConfig where
  sql := "SELECT uri FROM docs ORDER BY uri LIMIT :page_size OFFSET :cursor"
  mode := .offset
  pageSize := pageSize

def docsByOffsetStmt : PreparedStmt :=
  ⟨"SELECT uri FROM docs ORDER BY uri LIMIT $1 OFFSET $2", ["page_size", "cursor"], .postgres⟩

/-- The statement is the same for every page size. -/
theorem docsByOffset_prepare (pageSize : Nat) :
    (docsByOffset pageSize).prepare .postgres = .ok docsByOffsetStmt := by
  have hsame : (docsByOffset pageSize).prepare .postgres = (docsByOffset 1).prepare .postgres := rfl
  rw [hsame]
  decide

/-- The rows of a page from an offset on. -/
def offsetQuery (rows : List Value) (pageSize : Nat) : Value → List Value
  | .num (.pos o) => (rows.drop o).take pageSize
  | _ => []

/-- Three documents in pages of two. -/
theorem three_docs_covered :
    Covers (listCall scanLib (docsRuntime docsByOffsetStmt (docsByOffset 2))
      (docsEnv (offsetQuery [docRow "a", docRow "b", docRow "c"] 2)))
      [docRow "a", docRow "b", docRow "c"] :=
  (offset_covers_iff (listed_docs _ (by decide) (docsByOffset_prepare 2) (by decide)) rfl
    fun _ => rfl).mpr (by decide)

/-- Two documents in pages of one: the run does not end. -/
theorem two_docs_repeat :
    Listed (docsRuntime docsByOffsetStmt (docsByOffset 1))
        (docsEnv (offsetQuery [docRow "a", docRow "b"] 1)) (docsByOffset 1)
        (offsetQuery [docRow "a", docRow "b"] 1) ∧
      (∀ row ∈ [docRow "a", docRow "b"], (listedResource row).isSome) ∧
      (∀ o, offsetQuery [docRow "a", docRow "b"] 1 (.ofNat o) =
        ([docRow "a", docRow "b"].drop o).take 1) ∧
      ¬Covers (listCall scanLib (docsRuntime docsByOffsetStmt (docsByOffset 1))
        (docsEnv (offsetQuery [docRow "a", docRow "b"] 1))) [docRow "a", docRow "b"] := by
  have hlisted := listed_docs (offsetQuery [docRow "a", docRow "b"] 1)
    (show (docsByOffset 1).validate = .ok () by decide)
    (docsByOffset_prepare 1) (by decide)
  exact ⟨hlisted, by decide, fun _ => rfl,
    not_offset_covers hlisted rfl (fun _ => rfl) (by decide)⟩

/-! ## Keysets -/

section

variable {lib : CallLib δ} {rt : Runtime} {envs : Nat → Nat → (q : Question δ) → Answer q}
  {cfg : ListQueryConfig} {query : Value → List Value} {rows : List Value}

/-- The cursor column of a row, as a cursor has it. -/
def cursorText (lib : TextLib) (cfg : ListQueryConfig) (row : Value) : String :=
  ((cfg.cursorColumn.bind row.get).map (cursorValueToString lib)).getD ""

/-- The query goes on after the cursor column of every row. -/
def Resumes (lib : TextLib) (cfg : ListQueryConfig) (query : Value → List Value)
    (rows : List Value) : Prop :=
  ∀ front a back, rows = front ++ a :: back →
    query (.str (cursorText lib cfg a)) = back.take cfg.pageSize

theorem Resumes.of_append {front : List Value} {a : Value} {back : List Value}
    (h : Resumes lib.text cfg query (front ++ a :: back)) : Resumes lib.text cfg query back := by
  intro front' a' back' hback
  exact h (front ++ a :: front') a' back' (by rw [hback]; simp)

/-- Rows with a cursor column have a cursor where they have a resource. -/
theorem rowCursor_of_column {row : Value} (hcol : (cfg.cursorColumn.bind row.get).isSome) :
    rowCursor lib.text cfg.cursorColumn row =
      (listedResource row).map fun _ => cursorText lib.text cfg row := by
  obtain ⟨v, hv⟩ := Option.isSome_iff_exists.mp hcol
  rw [rowCursor, cursorText, hv]
  cases listedResource row with
  | none => rfl
  | some listed => rfl

theorem filterMap_rowCursor_eq_nil {l : List Value}
    (hcol : ∀ row ∈ l, (cfg.cursorColumn.bind row.get).isSome)
    (h : l.filterMap (rowCursor lib.text cfg.cursorColumn) = []) : l.filterMap listedResource = [] := by
  rw [List.filterMap_eq_nil_iff] at h ⊢
  intro row hrow
  have := h row hrow
  rw [rowCursor_of_column (hcol row hrow)] at this
  exact Option.map_eq_none_iff.mp this

/-- The run over what is left of a table. The induction is on its length: a full page with
a resource leaves what comes after the last row that has one. -/
theorem keyset_run (h : Listed rt envs cfg query) (hmode : cfg.mode = .keyset) :
    ∀ (rest : List Value) (n : Nat) (cursor : Option String) (v : Value),
      (∀ row ∈ rest, (cfg.cursorColumn.bind row.get).isSome) →
      cursorValue .keyset cursor = .ok v → query v = rest.take cfg.pageSize →
      Resumes lib.text cfg query rest →
      (CoversFrom (listCall lib rt envs) n cursor rest ↔
        Gapless listedResource cfg.pageSize rest) := by
  intro rest
  induction hk : rest.length using Nat.strong_induction_on generalizing rest with
  | _ k ih =>
    intro n cursor v hcol hv hquery hres
    obtain ⟨batch, hrows, hcall⟩ := h.call lib n (by rw [hmode]; exact hv)
    have hpage := batchToResourcePage_resources lib.text batch cfg
    have hnext := batchToResourcePage_nextCursor lib.text batch cfg
    rw [hrows, hquery] at hpage hnext
    rw [hmode, List.length_take] at hnext
    have htakecol : ∀ row ∈ rest.take cfg.pageSize, (cfg.cursorColumn.bind row.get).isSome :=
      fun row hrow => hcol row (List.mem_of_mem_take hrow)
    by_cases hshort : rest.length < cfg.pageSize
    · rw [if_pos (by omega)] at hnext
      rw [coversFrom_last hcall hnext, hpage, List.take_of_length_le (by omega)]
      exact ⟨fun _ => gapless_of_length_lt hshort, fun _ => rfl⟩
    · rw [if_neg (by omega)] at hnext
      cases hlast : ((rest.take cfg.pageSize).filterMap
          (rowCursor lib.text cfg.cursorColumn)).getLast? with
      | none =>
        -- A full page without resources: the run ends here.
        rw [hlast] at hnext
        have hnone := filterMap_rowCursor_eq_nil htakecol (List.getLast?_eq_none_iff.mp hlast)
        rw [coversFrom_last hcall hnext, hpage, hnone, gapless_iff_of_gap hnone (by omega)]
        nth_rewrite 1 [← List.take_append_drop cfg.pageSize rest]
        rw [List.filterMap_append, hnone, List.nil_append]
        exact eq_comm
      | some c =>
        rw [hlast] at hnext
        obtain ⟨front, a, more, hsplit, hc, hmore⟩ := exists_of_getLast?_filterMap hlast
        have hacol : (cfg.cursorColumn.bind a.get).isSome := htakecol a (by rw [hsplit]; simp)
        rw [rowCursor_of_column hacol, Option.map_eq_some_iff] at hc
        obtain ⟨listed, hlisted, rfl⟩ := hc
        have hrest : rest = front ++ a :: (more ++ rest.drop cfg.pageSize) := by
          conv_lhs => rw [← List.take_append_drop cfg.pageSize rest, hsplit]
          simp
        have hfront : front.length < cfg.pageSize := by
          have := congrArg List.length hsplit
          simp only [List.length_take, List.length_append, List.length_cons] at this
          omega
        have hmore : more.filterMap listedResource = [] :=
          filterMap_rowCursor_eq_nil (fun row hrow => htakecol row (by rw [hsplit]; simp [hrow])) hmore
        generalize more ++ rest.drop cfg.pageSize = back at hrest
        have hpage : (batchToResourcePage lib.text batch cfg).resources =
            (front ++ [a]).filterMap listedResource := by
          rw [hpage, hsplit, List.filterMap_append, List.filterMap_append, List.filterMap_cons,
            List.filterMap_cons, hmore]
          rfl
        rw [hrest, List.append_cons, coversFrom_next hcall hnext hpage, ← List.append_cons,
          gapless_iff_of_split (by rw [hlisted]; rfl) hfront]
        refine ih back.length ?_ back rfl (n + 1) _ (.str (cursorText lib.text cfg a)) ?_ rfl ?_ ?_
        · rw [← hk, hrest, List.length_append, List.length_cons]
          omega
        · exact fun row hrow => hcol row (by rw [hrest]; simp [hrow])
        · exact hres front a back hrest
        · rw [hrest] at hres
          exact hres.of_append

/-- A table in the strict order of its cursor column, and a query that reads it from a cursor
on. `rank` orders the texts of cursors. -/
structure KeysetTable {κ : Type} [LinearOrder κ] (lib : TextLib) (cfg : ListQueryConfig)
    (rank : String → κ) (query : Value → List Value) (rows : List Value) : Prop where
  column : ∀ row ∈ rows, ∃ v, cfg.cursorColumn.bind row.get = some v ∧ v ≠ .null
  order : Increasing (fun row => rank (cursorText lib cfg row)) rows
  start : query .null = rows.take cfg.pageSize
  resume : ∀ c, query (.str c) =
    (above (fun row => rank (cursorText lib cfg row)) rows (rank c)).take cfg.pageSize

variable {κ : Type} [LinearOrder κ] {rank : String → κ}

theorem KeysetTable.resumes (h : KeysetTable lib.text cfg rank query rows) :
    Resumes lib.text cfg query rows := by
  rintro front a back rfl
  rw [h.resume]
  exact congrArg (List.take cfg.pageSize) h.order.above_item

theorem KeysetTable.isSome_column (h : KeysetTable lib.text cfg rank query rows) :
    ∀ row ∈ rows, (cfg.cursorColumn.bind row.get).isSome := by
  intro row hrow
  obtain ⟨v, hv, -⟩ := h.column row hrow
  exact Option.isSome_iff_exists.mpr ⟨v, hv⟩

/-- A keyset listing covers its table exactly where no page of rows without a `uri` comes
before a row that has one. -/
theorem keyset_covers_iff (h : Listed rt envs cfg query) (hmode : cfg.mode = .keyset)
    (htable : KeysetTable lib.text cfg rank query rows) :
    Covers (listCall lib rt envs) rows ↔ Gapless listedResource cfg.pageSize rows :=
  keyset_run h hmode rows 0 none .null htable.isSome_column rfl htable.start htable.resumes

end

/-- Documents in the order of their names. -/
def docsByName (pageSize : Nat) : ListQueryConfig where
  sql := "SELECT name, uri FROM docs WHERE :cursor IS NULL OR name > :cursor LIMIT :page_size"
  cursorColumn := some "name"
  pageSize := pageSize

def docsByNameStmt : PreparedStmt :=
  ⟨"SELECT name, uri FROM docs WHERE $1 IS NULL OR name > $2 LIMIT $3",
    ["cursor", "cursor", "page_size"], .postgres⟩

def namedRow (name : String) (uri : Value) : Value := .object [("name", .str name), ("uri", uri)]

/-- The rows of a page after a name. -/
def nameQuery (rows : List Value) (pageSize : Nat) : Value → List Value
  | .null => rows.take pageSize
  | .str c => (above (fun row => cursorText scanLib.text (docsByName pageSize) row) rows c).take pageSize
  | _ => []

theorem docsByName_prepare (pageSize : Nat) :
    (docsByName pageSize).prepare .postgres = .ok docsByNameStmt := by
  have hsame : (docsByName pageSize).prepare .postgres = (docsByName 1).prepare .postgres := rfl
  rw [hsame]
  decide

theorem docsByName_listed (rows : List Value) {pageSize : Nat}
    (hvalid : (docsByName pageSize).validate = .ok ()) :
    Listed (docsRuntime docsByNameStmt (docsByName pageSize)) (docsEnv (nameQuery rows pageSize))
      (docsByName pageSize) (nameQuery rows pageSize) :=
  listed_docs _ hvalid (docsByName_prepare pageSize) (by decide)

theorem docsByName_table {rows : List Value} {pageSize : Nat}
    (hcol : ∀ row ∈ rows, ∃ v, row.get "name" = some v ∧ v ≠ .null)
    (horder : Increasing (fun row => cursorText scanLib.text (docsByName pageSize) row) rows) :
    KeysetTable scanLib.text (docsByName pageSize) id (nameQuery rows pageSize) rows where
  column := hcol
  order := horder
  start := rfl
  resume _ := rfl

/-- One row of two in a page has no `uri`. -/
theorem mixed_docs_covered :
    Covers (listCall scanLib (docsRuntime docsByNameStmt (docsByName 2))
      (docsEnv (nameQuery [namedRow "a" .null, namedRow "b" (.str "b"), namedRow "c" .null] 2)))
      [namedRow "a" .null, namedRow "b" (.str "b"), namedRow "c" .null] := by
  have htable : KeysetTable scanLib.text (docsByName 2) id
      (nameQuery [namedRow "a" .null, namedRow "b" (.str "b"), namedRow "c" .null] 2)
      [namedRow "a" .null, namedRow "b" (.str "b"), namedRow "c" .null] := by
    refine docsByName_table (fun row hrow => ?_) (by decide)
    simp only [List.mem_cons, List.not_mem_nil, or_false] at hrow
    rcases hrow with rfl | rfl | rfl
    · exact ⟨.str "a", rfl, by simp⟩
    · exact ⟨.str "b", rfl, by simp⟩
    · exact ⟨.str "c", rfl, by simp⟩
  refine (keyset_covers_iff (docsByName_listed _ (by decide)) rfl
    htable).mpr ?_
  rw [show [namedRow "a" .null, namedRow "b" (.str "b"), namedRow "c" .null] =
    [namedRow "a" .null] ++ namedRow "b" (.str "b") :: [namedRow "c" .null] from rfl,
    gapless_iff_of_split (by decide) (by decide)]
  exact gapless_of_length_lt (by decide)

/-- A row without a `uri` before one that has it, in pages of one: the run ends with the
first. -/
theorem second_doc_missed :
    Listed (docsRuntime docsByNameStmt (docsByName 1))
        (docsEnv (nameQuery [namedRow "a" .null, namedRow "b" (.str "b")] 1)) (docsByName 1)
        (nameQuery [namedRow "a" .null, namedRow "b" (.str "b")] 1) ∧
      KeysetTable scanLib.text (docsByName 1) id
        (nameQuery [namedRow "a" .null, namedRow "b" (.str "b")] 1)
        [namedRow "a" .null, namedRow "b" (.str "b")] ∧
      ¬Covers (listCall scanLib (docsRuntime docsByNameStmt (docsByName 1))
        (docsEnv (nameQuery [namedRow "a" .null, namedRow "b" (.str "b")] 1)))
        [namedRow "a" .null, namedRow "b" (.str "b")] := by
  have htable : KeysetTable scanLib.text (docsByName 1) id
      (nameQuery [namedRow "a" .null, namedRow "b" (.str "b")] 1)
      [namedRow "a" .null, namedRow "b" (.str "b")] := by
    refine docsByName_table (fun row hrow => ?_) (by decide)
    simp only [List.mem_cons, List.not_mem_nil, or_false] at hrow
    rcases hrow with rfl | rfl
    · exact ⟨.str "a", rfl, by simp⟩
    · exact ⟨.str "b", rfl, by simp⟩
  have hlisted := docsByName_listed [namedRow "a" .null, namedRow "b" (.str "b")]
    (show (docsByName 1).validate = .ok () by decide)
  refine ⟨hlisted, htable, ?_⟩
  rw [Covers, keyset_run hlisted rfl _ 0 none .null htable.isSome_column rfl htable.start
    htable.resumes, gapless_iff_of_gap (by decide) (by decide)]
  decide

end McpgSql.Listing
