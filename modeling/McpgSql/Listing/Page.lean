import McpgSql.Changes.Plan
import McpgSql.Execute.Shape
import McpgSql.Guards

/-!
# Pages of a listing

The `list_query` of a binding: its configuration, the arguments of one page
(`listArgs`) and the page that the rows of a batch make (`batchToResourcePage`).

A page is as full as its batch had rows, those without a `uri` included; its next
cursor is the number of rows of the batch in offset mode, and in keyset mode the
cursor column of the last row that has a `uri`.
-/

namespace McpgSql.Listing

open Library
open McpgSql.Changes (ensure ensure_eq_ok)

/-! ## Configuration -/

inductive ListQueryMode where
  | keyset
  | offset
deriving DecidableEq, Repr

structure ListQueryConfig where
  sql : String
  mode : ListQueryMode := .keyset
  cursorColumn : Option String := none
  pageSize : Nat := 100
deriving DecidableEq, Repr

/-- `str::trim`. -/
def trim (s : String) : String :=
  String.ofList ((s.toList.dropWhile isWhiteSpace).reverse.dropWhile isWhiteSpace).reverse

namespace ListQueryConfig

/-- The column that a keyset cursor tracks. -/
def validateKeyset (cfg : ListQueryConfig) : Except SqlError Unit := do
  let col := trim (cfg.cursorColumn.getD "")
  ensure (!col.isEmpty) (.invalidSpec "list_query.cursor_column is required for mode: keyset")
  ensure (isSafeSqlIdentifier col)
    (.invalidSpec ("list_query.cursor_column '" ++ col ++ "' is not a safe SQL identifier"))

def validate (cfg : ListQueryConfig) : Except SqlError Unit := do
  ensure (!(trim cfg.sql).isEmpty) (.invalidSpec "list_query.sql must not be empty")
  rejectMultiStatement cfg.sql
  rejectPrivilegedDdl cfg.sql
  ensure (cfg.pageSize ≠ 0 && cfg.pageSize ≤ 1000)
    (.invalidSpec ("list_query.page_size (" ++ toString cfg.pageSize ++ ") must be in 1..=1000"))
  if cfg.mode = .keyset then cfg.validateKeyset else .ok ()

/-- The statement that `register_profile` makes of the query: it may bind the cursor and
the page size. -/
def prepare (cfg : ListQueryConfig) (driver : DriverKind) : Except BackendError PreparedStmt :=
  let (sql, order) := rewritePlaceholders cfg.sql driver
  match order.find? fun name => name ≠ "cursor" && name ≠ "page_size" with
  | some name => .error (.invalidSpec ("list_query references ':" ++ name ++
      "' but only ':cursor' and ':page_size' are bound by the plugin"))
  | none => .ok { sql, paramOrder := order, driver }

end ListQueryConfig

/-! ## The arguments of a page -/

/-- `str::parse::<u64>`: digits, with a `+` before them at most. -/
def parseU64 (s : String) : Option Nat :=
  let digits := match s.toList with
    | '+' :: digits => digits
    | digits => digits
  if digits.isEmpty || !digits.all Char.isDigit then none
  else
    let n := Nat.ofDigitChars 10 digits 0
    if n < 2 ^ 64 then some n else none

example : parseU64 "+12" = some 12 ∧ parseU64 "+" = none ∧ parseU64 "-1" = none := by decide

/-- What `:cursor` is bound to. -/
def cursorValue : ListQueryMode → Option String → Except SqlError Value
  | .keyset, none => .ok .null
  | .keyset, some c => .ok (.str c)
  | .offset, none => .ok (.ofNat 0)
  | .offset, some c => match parseU64 c with
    | some n => .ok (.ofNat n)
    | none => .error (.invalidSpec
        ("offset-mode cursor '" ++ c ++ "' is not a non-negative integer"))

/-- The arguments of the page at `cursor`, as the statement binds them. -/
def listArgs (cfg : ListQueryConfig) (order : List String) (cursor : Option String) :
    Except SqlError (List BoundParam) := do
  let cursorValue ← cursorValue cfg.mode cursor
  order.mapM fun name =>
    if name = "cursor" then .ok { name, value := cursorValue }
    else if name = "page_size" then .ok { name, value := .ofNat cfg.pageSize }
    else .error (.invalidSpec ("list_query references unsupported placeholder ':" ++ name ++ "'"))

/-! ## Pages -/

structure ListedResource where
  uri : String
  name : Option String := none
  description : Option String := none
  mimeType : Option String := none
deriving DecidableEq, Repr

structure ResourcePage where
  resources : List ListedResource := []
  nextCursor : Option String := none
deriving DecidableEq, Repr

/-- `serde_json`'s text of a double, and of a list or an object. -/
structure TextLib where
  floatText : BitVec 64 → String
  valueText : Value → String

/-- A value of the cursor column as the text of a cursor. -/
def cursorValueToString (lib : TextLib) : Value → String
  | .str s => s
  | .num (.pos n) => Nat.repr n
  | .num (.neg n) => "-" ++ Nat.repr (n + 1)
  | .num (.float bits) => lib.floatText bits
  | .bool b => if b then "true" else "false"
  | .null => ""
  | v => lib.valueText v

/-- The resource of a row; a row with no `uri` has none. -/
def listedResource (row : Value) : Option ListedResource :=
  ((row.get "uri").bind Value.asStr).map fun uri =>
    { uri
      name := (row.get "name").bind Value.asStr
      description := (row.get "description").bind Value.asStr
      mimeType := (row.get "mime_type").bind Value.asStr }

/-- The loop over the rows of a batch: the resources, and the cursor of the last row that
had one. -/
def pageLoop (lib : TextLib) (cursorColumn : Option String) :
    List Value → List ListedResource → Option String → List ListedResource × Option String
  | [], resources, last => (resources, last)
  | row :: rows, resources, last => match listedResource row with
    | none => pageLoop lib cursorColumn rows resources last
    | some listed =>
      let last := match cursorColumn.bind row.get with
        | some v => some (cursorValueToString lib v)
        | none => last
      pageLoop lib cursorColumn rows (resources ++ [listed]) last

/-- The page of a batch. Fewer rows than a page has are the last ones. -/
def batchToResourcePage (lib : TextLib) (batch : RowBatch) (cfg : ListQueryConfig) : ResourcePage :=
  let (resources, last) := pageLoop lib cfg.cursorColumn batch.rows [] none
  let nextCursor :=
    if batch.rows.length < cfg.pageSize then none
    else match cfg.mode with
      | .keyset => last
      -- The source expects its host to add the offset of the page.
      | .offset => some (Nat.repr batch.rows.length)
  { resources, nextCursor }

/-! ## What a page holds -/

section

variable (lib : TextLib)

/-- The cursor of a row that has a resource. -/
def rowCursor (cursorColumn : Option String) (row : Value) : Option String :=
  (listedResource row).bind fun _ => (cursorColumn.bind row.get).map (cursorValueToString lib)

theorem pageLoop_eq (cursorColumn : Option String) (rows : List Value)
    (resources : List ListedResource) (last : Option String) :
    pageLoop lib cursorColumn rows resources last =
      (resources ++ rows.filterMap listedResource,
        ((rows.filterMap (rowCursor lib cursorColumn)).getLast?).or last) := by
  induction rows generalizing resources last with
  | nil => simp [pageLoop]
  | cons row rows ih =>
    rw [pageLoop]
    cases hrow : listedResource row with
    | none => simp [ih, hrow, rowCursor]
    | some listed =>
      cases hcol : cursorColumn.bind row.get with
      | none => simp [ih, hrow, rowCursor, hcol]
      | some v => simp [ih, hrow, rowCursor, hcol, List.getLast?_cons]

/-- A page has the resources of its rows, in order. -/
theorem batchToResourcePage_resources (batch : RowBatch) (cfg : ListQueryConfig) :
    (batchToResourcePage lib batch cfg).resources = batch.rows.filterMap listedResource := by
  simp [batchToResourcePage, pageLoop_eq]

theorem batchToResourcePage_nextCursor (batch : RowBatch) (cfg : ListQueryConfig) :
    (batchToResourcePage lib batch cfg).nextCursor =
      if batch.rows.length < cfg.pageSize then none
      else match cfg.mode with
        | .keyset => (batch.rows.filterMap (rowCursor lib cfg.cursorColumn)).getLast?
        | .offset => some (Nat.repr batch.rows.length) := by
  simp [batchToResourcePage, pageLoop_eq]

end

/-- A number is read back from its text. -/
theorem parseU64_repr {n : Nat} (h : n < 2 ^ 64) : parseU64 (Nat.repr n) = some n := by
  have hdigits : ∀ c ∈ (Nat.repr n).toList, c.isDigit = true := fun c hc => by
    rw [Nat.toList_repr] at hc
    exact Nat.isDigit_of_mem_toDigits (by decide) (by decide) hc
  have hplus : ∀ digits, (Nat.repr n).toList ≠ '+' :: digits := fun digits heq => by
    have := hdigits '+' (by rw [heq]; exact List.mem_cons_self)
    exact absurd this (by decide)
  have hval : Nat.ofDigitChars 10 (Nat.repr n).toList 0 = n := by
    rw [Nat.toList_repr, Nat.ofDigitChars_toDigits (by decide) (by decide)]
  have hne : (Nat.repr n).toList.isEmpty = false := by
    rw [Nat.toList_repr]
    cases hl : Nat.toDigits 10 n with
    | nil => exact absurd hl Nat.toDigits_ne_nil
    | cons c cs => rfl
  rw [parseU64]
  split
  · rename_i digits heq
    exact absurd heq (hplus digits)
  · have hall : (Nat.repr n).toList.all Char.isDigit = true := List.all_eq_true.mpr hdigits
    simp only [hne, hall, hval, Bool.not_true, Bool.or_self, Bool.false_eq_true, ↓reduceIte, if_pos h]

end McpgSql.Listing
