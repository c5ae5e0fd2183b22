import McpgSql.Execute.Shape
import McpgSql.Library.Keyset
import McpgSql.Stream.Cursor

/-!
# Paging through a stream

A stream is read by calling without a token and then with the token of each page,
until a page has none. What the query is taken to do: it answers at least one and
any number of the rows after the bound `:_after_*` values, in key order, and none
where there are none. The order of keys is the database's: `rank` embeds them in a
linear order.

* `streamCall_page`: a page is the next rows, and its token names the last of them;
* `follow_above`: the pages from a position on are the rows above it;
* `stream_complete`: the run ends, with every row above the initial position once.
-/

namespace McpgSql.Stream

open Library

/-! ## Calls -/

/-- The response with the token of its last row. -/
def addCursor (lib : CursorLib) (rt : StreamRuntime) (backendName : String) : Value → Value
  | .obj obj => .obj (Assoc.insert obj "next_cursor" (mintNextCursor lib (.obj obj) rt backendName))
  | payload => payload

/-- A call of a stream binding: the position is bound, the query's rows are cut at
`max_rows`, and the token of the last one is added. -/
def streamCall (redact : String → String) (lib : CursorLib) (rt : StreamRuntime)
    (backendName : String) (paramOrder : List String) (maxRows : Nat)
    (query : List BoundParam → List Value) (args : Value) : Except BackendError Value := do
  let args ← (applyStreamCursor lib args rt backendName).mapError (BackendError.ofSql redact)
  let bound ← (collectBoundParams args paramOrder).mapError (BackendError.ofSql redact)
  let (payload, _) ← shapeResponse { rows := query bound } .stream maxRows
  .ok (addCursor lib rt backendName payload)

/-- The arguments of the caller with the token of the last page. -/
def withCursor (base : OrdMap String Value) : Option String → Value
  | none => .obj base.entries
  | some token => .obj (base.insert "_cursor" (.str token)).entries

/-- The pages a caller gets that passes each `next_cursor` back until it is null. -/
def follow (call : Nat → Value → Except BackendError Value) (base : OrdMap String Value) :
    Nat → Nat → Option String → Option (List (List Value))
  | 0, _, _ => none
  | fuel + 1, n, cursor =>
    match call n (withCursor base cursor) with
    | .error _ => none
    | .ok payload => match payload.get "rows", payload.get "next_cursor" with
      | some (.arr rows), some .null => some [rows]
      | some (.arr rows), some (.str token) =>
        (follow call base fuel (n + 1) (some token)).map (rows :: ·)
      | _, _ => none

/-! ## The table -/

/-- A row with a value for every cursor column. -/
structure StreamRow (columns : List String) where
  row : List (String × Value)
  key : List Value
  keyed : columns.mapM (Assoc.get? row) = some key

/-- The rows in key order; the key is unique. -/
structure Table {κ : Type} [LinearOrder κ] (columns : List String) (rank : List Value → κ) where
  rows : List (StreamRow columns)
  increasing : Increasing (fun r => rank r.key) rows

/-- The rows above a position. -/
def Table.above {κ : Type} [LinearOrder κ] {columns : List String} {rank : List Value → κ}
    (table : Table columns rank) (position : List Value) : List (StreamRow columns) :=
  Library.above (fun r => rank r.key) table.rows (rank position)

/-- The position a stream starts from. -/
def StreamConfig.start (cfg : StreamConfig) : List Value :=
  cfg.cursorColumns.map fun col => (cfg.initial.get? col).getD .null

/-! ## A page -/

section

variable {lib : CursorLib} {rt : StreamRuntime} {name : String}

theorem StreamRow.key_eq (r : StreamRow rt.cfg.cursorColumns) :
    r.key = rt.cfg.cursorColumns.map fun col => (Assoc.get? r.row col).getD .null :=
  mapM_eq_some _ (fun col v hv => by rw [hv]; rfl) r.keyed

/-- The token of a row is accepted and gives the row's position. -/
theorem keysetValues_minted {r : StreamRow rt.cfg.cursorColumns}
    (h : lib.Faithful rt.key ⟨1, name, "", r.key⟩) :
    keysetValues lib rt name (some (.str (encodeCursor lib ⟨1, name, "", r.key⟩ rt.key))) =
      .ok r.key := by
  have hne : (encodeCursor lib ⟨1, name, "", r.key⟩ rt.key).isEmpty = false := by
    rw [String.isEmpty_eq_false_iff]
    intro hempty
    have := congrArg String.toList hempty
    simp [encodeCursor, tokenOf] at this
  have hlen : r.key.length = rt.cfg.cursorColumns.length := by
    rw [r.key_eq, List.length_map]
  simp [keysetValues, hne, decode_encode h rfl, hlen]

theorem streamCall_eq {redact : String → String} {order : List String} {maxRows : Nat}
    {query : List BoundParam → List Value} {args args' : Value} {bound : List BoundParam}
    (happly : applyStreamCursor lib args rt name = .ok args')
    (hcollect : collectBoundParams args' order = .ok bound) :
    streamCall redact lib rt name order maxRows query args =
      .ok (addCursor lib rt name (.object [("rows", .arr ((query bound).take maxRows)),
        ("truncated", .bool (maxRows < (query bound).length))])) := by
  rw [streamCall, happly]
  show ((collectBoundParams args' order).mapError (BackendError.ofSql redact) >>= _) = _
  rw [hcollect]
  rfl

theorem get_rows (rows truncated : Value) :
    (Value.object [("rows", rows), ("truncated", truncated)]).get "rows" = some rows := by
  simp [Value.object, Value.get, Assoc.ofList, Assoc.get?_insert]

theorem addCursor_get (members : List (String × Value)) :
    (addCursor lib rt name (.object members)).get "rows" = (Value.object members).get "rows" ∧
      (addCursor lib rt name (.object members)).get "next_cursor" =
        some (mintNextCursor lib (.object members) rt name) := by
  constructor
  · exact (Assoc.get?_insert _ _ _ _).trans (if_neg (by decide))
  · exact (Assoc.get?_insert _ _ _ _).trans (if_pos rfl)

/-- The token of a page names its last row. -/
theorem mintNextCursor_rows {payload : Value} {rows : List (StreamRow rt.cfg.cursorColumns)}
    (h : payload.get "rows" = some (.arr (rows.map fun r => .obj r.row))) :
    mintNextCursor lib payload rt name = match rows.getLast? with
      | none => .null
      | some r => .str (encodeCursor lib ⟨1, name, "", r.key⟩ rt.key) := by
  rw [mintNextCursor, h]
  simp only [List.getLast?_map]
  cases rows.getLast? with
  | none => rfl
  | some r => simp only [Option.map_some, r.keyed]

section

variable {κ : Type} [LinearOrder κ] {rank : List Value → κ}
  {table : Table rt.cfg.cursorColumns rank} {redact : String → String} {order : List String}
  {maxRows : Nat} {query : Nat → List BoundParam → List Value} {base : OrdMap String Value}

/-- The query answers at least one and any number of the rows after the bound
position, over the other arguments of `base`. -/
def Answers (query : Nat → List BoundParam → List Value) (order : List String)
    (base : OrdMap String Value) (table : Table rt.cfg.cursorColumns rank) : Prop :=
  ∀ n (value : String → Value),
    (∀ p ∈ order, p ∉ rt.cfg.placeholderNames → base.get? p = some (value p)) →
    ∃ k, 0 < k ∧ query n (order.map fun p => ⟨p, value p⟩) =
      ((table.above (rt.cfg.cursorColumns.map fun col => value (StreamConfig.placeholder col))).take
        k).map fun r => .obj r.row

/-- A token leaves the other arguments. -/
theorem withCursor_obj (base : OrdMap String Value) (cursor : Option String) :
    ∃ obj, withCursor base cursor = .obj obj ∧
      ∀ k, k ≠ "_cursor" → Assoc.get? obj k = base.get? k := by
  cases cursor with
  | none => exact ⟨_, rfl, fun k _ => rfl⟩
  | some token =>
    refine ⟨_, rfl, fun k hk => ?_⟩
    exact (OrdMap.get?_insert base "_cursor" k _).trans (if_neg (Ne.symm hk))

variable (redact) in
/-- A page is the next rows after the position, and its token names the last one. -/
theorem streamCall_page (hmax : 0 < maxRows) (hbase : base.get? "_cursor" = none)
    (horder : ∀ p ∈ order, p ∈ rt.cfg.placeholderNames ∨ base.get? p ≠ none)
    (hquery : Answers query order base table) {n : Nat} {cursor : Option String}
    {g : String → Value}
    (h : keysetValues lib rt name ((withCursor base cursor).get "_cursor") =
      .ok (rt.cfg.cursorColumns.map g)) :
    ∃ m payload, 0 < m ∧
      streamCall redact lib rt name order maxRows (query n) (withCursor base cursor) = .ok payload ∧
      payload.get "rows" = some (.arr
        (((table.above (rt.cfg.cursorColumns.map g)).take m).map fun r => .obj r.row)) ∧
      payload.get "next_cursor" = some
        (match ((table.above (rt.cfg.cursorColumns.map g)).take m).getLast? with
          | none => .null
          | some r => .str (encodeCursor lib ⟨1, name, "", r.key⟩ rt.key)) := by
  obtain ⟨obj, hargs, hobj⟩ := withCursor_obj base cursor
  rw [hargs] at h ⊢
  obtain ⟨obj', happly, hbound, hother⟩ := applyStreamCursor_obj h
  have hbase' : ∀ p, base.get? p ≠ none → p ≠ "_cursor" := by
    rintro p hp rfl
    exact hp hbase
  let value : String → Value := fun p => (Assoc.get? obj' p).getD .null
  have hcollect : collectBoundParams (.obj obj') order =
      .ok (order.map fun p => ⟨p, value p⟩) := by
    refine collectBoundParams_obj.mpr ⟨fun p hp => ?_, rfl⟩
    by_cases hplace : p ∈ rt.cfg.placeholderNames
    · obtain ⟨col, hcol, rfl⟩ := List.mem_map.mp hplace
      rw [hbound col hcol]
      nofun
    · have hin := (horder p hp).resolve_left hplace
      rwa [hother p hplace (hbase' p hin), hobj p (hbase' p hin)]
  obtain ⟨k, hk, hrows⟩ := hquery n value fun p hp hcol => by
    have hin : base.get? p ≠ none := (horder p hp).resolve_left hcol
    obtain ⟨v, hv⟩ := Option.ne_none_iff_exists'.mp hin
    simp only [value, hother p hcol (hbase' p hin), hobj p (hbase' p hin), hv, Option.getD_some]
  have hposition : (rt.cfg.cursorColumns.map fun col => value (StreamConfig.placeholder col)) =
      rt.cfg.cursorColumns.map g :=
    List.map_congr_left fun col hcol => by simp only [value, hbound col hcol, Option.getD_some]
  rw [hposition] at hrows
  have hpage : (query n (order.map fun p => ⟨p, value p⟩)).take maxRows =
      ((table.above (rt.cfg.cursorColumns.map g)).take (min maxRows k)).map fun r => .obj r.row := by
    rw [hrows, ← List.map_take, List.take_take]
  have hget := get_rows (.arr ((query n (order.map fun p => ⟨p, value p⟩)).take maxRows))
    (.bool (maxRows < (query n (order.map fun p => ⟨p, value p⟩)).length))
  rw [hpage] at hget
  refine ⟨min maxRows k, _, by omega, streamCall_eq happly hcollect, ?_, ?_⟩
  · rw [(addCursor_get _).1, hpage, hget]
  · rw [(addCursor_get _).2, hpage, mintNextCursor_rows hget]

/-- The pages from a position on are the rows above it. -/
theorem follow_above (hlib : ∀ r ∈ table.rows, lib.Faithful rt.key ⟨1, name, "", r.key⟩)
    (hmax : 0 < maxRows) (hbase : base.get? "_cursor" = none)
    (horder : ∀ p ∈ order, p ∈ rt.cfg.placeholderNames ∨ base.get? p ≠ none)
    (hquery : Answers query order base table) {fuel n : Nat} {cursor : Option String}
    {g : String → Value}
    (h : keysetValues lib rt name ((withCursor base cursor).get "_cursor") =
      .ok (rt.cfg.cursorColumns.map g))
    (hfuel : (table.above (rt.cfg.cursorColumns.map g)).length < fuel) :
    ∃ pages, follow (fun n => streamCall redact lib rt name order maxRows (query n)) base fuel n
        cursor = some pages ∧
      pages.flatten = (table.above (rt.cfg.cursorColumns.map g)).map fun r => .obj r.row := by
  induction fuel generalizing n cursor g with
  | zero => omega
  | succ fuel ih =>
    obtain ⟨m, payload, hm, hcall, hrows, hnext⟩ :=
      streamCall_page redact (n := n) hmax hbase horder hquery h
    rw [follow, hcall]
    simp only [hrows, hnext]
    cases hlast : ((table.above (rt.cfg.cursorColumns.map g)).take m).getLast? with
    | none =>
      -- The first page without rows is the last one.
      have hnil := List.getLast?_eq_none_iff.mp hlast
      have habove : table.above (rt.cfg.cursorColumns.map g) = [] :=
        (List.take_eq_nil_iff.mp hnil).resolve_left (by omega)
      exact ⟨_, rfl, by simp [habove]⟩
    | some r =>
      obtain ⟨front, hfront⟩ := List.getLast?_eq_some_iff.mp hlast
      have hsplit : table.above (rt.cfg.cursorColumns.map g) =
          front ++ r :: (table.above (rt.cfg.cursorColumns.map g)).drop m := by
        conv => lhs; rw [← List.take_append_drop m (table.above _), hfront]
        rw [List.append_assoc, List.singleton_append]
      have hmem : r ∈ table.rows := by
        have hr : r ∈ table.above (rt.cfg.cursorColumns.map g) := by rw [hsplit]; simp
        exact (List.mem_filter.mp hr).1
      have hrest := table.increasing.above_of_split hsplit
      have hlen := congrArg List.length hsplit
      simp only [List.length_append, List.length_cons] at hlen
      -- The next call starts after `r`, with the rows that are left.
      have hkey : keysetValues lib rt name ((withCursor base
          (some (encodeCursor lib ⟨1, name, "", r.key⟩ rt.key))).get "_cursor") =
          .ok (rt.cfg.cursorColumns.map fun col => (Assoc.get? r.row col).getD .null) := by
        rw [← r.key_eq, ← keysetValues_minted (hlib r hmem)]
        exact congrArg _ ((OrdMap.get?_insert base "_cursor" "_cursor" _).trans (if_pos rfl))
      have habove : table.above (rt.cfg.cursorColumns.map fun col =>
          (Assoc.get? r.row col).getD .null) =
          (table.above (rt.cfg.cursorColumns.map g)).drop m := by
        rw [← r.key_eq]
        exact hrest
      obtain ⟨pages, hpages, hflat⟩ := ih (n := n + 1) hkey (by rw [habove]; omega)
      refine ⟨_, congrArg (Option.map (List.cons _)) hpages, ?_⟩
      rw [List.flatten_cons, hflat, habove, ← List.map_append, List.take_append_drop]

end

end

/-- A caller that starts without a token and passes each one back reads every row
above the initial position once, in key order, and the run ends. -/
theorem stream_complete {κ : Type} [LinearOrder κ] {rank : List Value → κ}
    {lib : CursorLib} {rt : StreamRuntime} {name : String} {redact : String → String}
    {table : Table rt.cfg.cursorColumns rank} {order : List String} {maxRows : Nat}
    {query : Nat → List BoundParam → List Value} {base : OrdMap String Value}
    (hlib : ∀ r ∈ table.rows, lib.Faithful rt.key ⟨1, name, "", r.key⟩)
    (hmax : 0 < maxRows) (hbase : base.get? "_cursor" = none)
    (horder : ∀ p ∈ order, p ∈ rt.cfg.placeholderNames ∨ base.get? p ≠ none)
    (hquery : Answers query order base table) :
    ∃ fuel pages, follow (fun n => streamCall redact lib rt name order maxRows (query n)) base fuel
        0 none = some pages ∧
      pages.flatten = (table.above rt.cfg.start).map fun r => .obj r.row := by
  refine ⟨(table.above rt.cfg.start).length + 1, ?_⟩
  refine follow_above hlib hmax hbase horder hquery ?_ (Nat.lt_succ_self _)
  show keysetValues lib rt name (base.get? "_cursor") = _
  rw [hbase]
  rfl

/-! ## Two orders -/

/-- The cursor of `orders` after the row with `id` 8. -/
def orderEight : SampleToken where
  payload := ⟨1, "orders", "", [.num (.pos 8)]⟩
  json := "\x7b\"v\":1,\"b\":\"orders\",\"p\":\"\",\"k\":[8]\x7d"
  payloadB64 := "eyJ2IjoxLCJiIjoib3JkZXJzIiwicCI6IiIsImsiOls4XX0"
  mac := [65, 221, 104, 211, 11, 172, 84, 192, 216, 85, 78, 227, 88, 88, 64, 91, 189, 74, 185, 238,
    202, 56, 120, 142, 152, 228, 77, 211, 207, 188, 120, 248]
  macB64 := "Qd1o0wusVMDYVU7jWFhAW71Kue7KOHiOmORN08-8ePg"

def orderRow (id : Nat) : StreamRow ["id"] :=
  ⟨[("id", .num (.pos id))], [.num (.pos id)], rfl⟩

/-- Orders by their number, NULL before them. -/
def orderRank : List Value → Nat
  | [.num (.pos id)] => id + 1
  | _ => 0

def orders : Table ["id"] orderRank := ⟨[orderRow 7, orderRow 8], by decide⟩

/-- All the orders after the bound `id`. -/
def ordersQuery (_ : Nat) (bound : List BoundParam) : List Value :=
  (orders.above (bound.map BoundParam.value)).map fun r => .obj r.row

/-- Two orders, a row a page. -/
theorem orders_complete :
    ∃ fuel pages, follow (fun n => streamCall id (sampleLib [orderSeven, orderEight]) ordersStream
        "orders" ["_after_id"] 1 (ordersQuery n)) .empty fuel 0 none = some pages ∧
      pages.flatten = [.obj [("id", .num (.pos 7))], .obj [("id", .num (.pos 8))]] := by
  have hlib : ∀ r ∈ orders.rows, (sampleLib [orderSeven, orderEight]).Faithful ordersStream.key
      ⟨1, "orders", "", r.key⟩ := by
    have hseven : (sampleLib [orderSeven, orderEight]).Faithful sampleKey orderSeven.payload :=
      ⟨by decide, by decide, by decide, by decide⟩
    have height : (sampleLib [orderSeven, orderEight]).Faithful sampleKey orderEight.payload :=
      ⟨by decide, by decide, by decide, by decide⟩
    intro r hr
    rcases List.mem_cons.mp hr with rfl | hr
    · exact hseven
    · obtain rfl := List.mem_singleton.mp hr
      exact height
  have hcomplete : ∃ fuel pages, follow (fun n => streamCall id (sampleLib [orderSeven, orderEight])
        ordersStream "orders" ["_after_id"] 1 (ordersQuery n)) .empty fuel 0 none = some pages ∧
      pages.flatten = (orders.above ordersStream.cfg.start).map fun r => .obj r.row := by
    refine stream_complete hlib (by decide) rfl (by decide) fun n value _ => ?_
    refine ⟨2, by decide, ?_⟩
    have hlen : (orders.above [value "_after_id"]).length ≤ 2 := List.length_filter_le _ _
    show (orders.above [value "_after_id"]).map _ = ((orders.above [value "_after_id"]).take 2).map _
    rw [List.take_of_length_le hlen]
    rfl
  exact hcomplete

end McpgSql.Stream
