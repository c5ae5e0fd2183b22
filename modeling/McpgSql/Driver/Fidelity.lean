import McpgSql.Driver.Postgres
import McpgSql.Execute.StreamBinding
import McpgSql.Guards

/-!
# Values of columns

`decode_pg_column` and `decode_mysql_column` choose the Rust type of a column by the name
of its type, and a column that is not of that Rust type is shown as null. PostgreSQL's
single floats, MySQL's unsigned integers and MySQL's times are read as types that are not
declared for them, and MySQL's integers of one digit, its booleans, as `bool`.

`column_kept_iff`: a value is shown, an integer as it is, in the columns of the other types
where the Rust type holds the value and it is not the JSON null.
-/

namespace McpgSql.Driver

open Library McpgSql.Execute

/-! ## Columns of MySQL -/

def startsWith (upper head : String) : Bool := decide (head.toList <+: upper.toList)

/-- The types that a column of this type name is tried as, and at last as a text. -/
def mysqlTypes (upper : String) : List RustType :=
  let isBoolean : Bool := containsText upper "BOOLEAN" || upper = "TINYINT(1)"
  let isInteger : Bool := ["INT", "TINYINT", "SMALLINT", "MEDIUMINT", "BIGINT"].any (startsWith upper)
  let isFloat : Bool := upper = "FLOAT" || upper = "DOUBLE"
  let isDecimal : Bool := upper = "NUMERIC" || upper = "DECIMAL" || upper = "NEWDECIMAL"
  let isDatetime : Bool := upper = "DATETIME" || upper = "TIMESTAMP"
  let isTime : Bool := startsWith upper "TIME" && upper ≠ "TIMESTAMP" && upper ≠ "DATETIME"
  let isBinary : Bool := containsText upper "BLOB" || containsText upper "BINARY"
  let attempts : List (Bool × RustType) :=
    [(isBoolean, .bool),
      (isInteger, .i64),
      (isFloat, .f64),
      (isDecimal, .text .decimal),
      (upper = "JSON", .value),
      (isDatetime, .text .naiveDateTime),
      (upper = "DATE", .text .naiveDate),
      (isTime, .text .string),
      (isBinary, .bytes)]
  (attempts.filter Prod.fst).map Prod.snd

section

variable {ρ : Type} (lib : PgLib ρ)

/-- The column read as this type, as JSON. -/
def readAs (cell : ρ) (t : RustType) : Except String Value := do
  match ← lib.tryGet t cell with
  | some v => .ok (toJson lib t v)
  | none => .ok .null

def decodeMysqlColumn (cell : ρ) (typeName : String) : Except String Value :=
  let upper := asciiUppercase typeName.toList
  (mysqlTypes upper).foldr (fun t next => (readAs lib cell t).orElseLazy fun _ => next)
    (readAs lib cell (.text .string))

/-- The cell as it stands in a response: null where it cannot be decoded. -/
def shownMysqlCell (cell : ρ) (typeName : String) : Value :=
  (decodeMysqlColumn lib cell typeName).toOption.getD .null

end

/-! ## Types of columns -/

/-- The types that `decode_pg_column` names. -/
inductive PgType where
  | bool
  | int2
  | int4
  | int8
  | float4
  | float8
  | numeric
  | json
  | jsonb
  | uuid
  | timestamptz
  | timestamp
  | date
  | time
  | interval
  | bytea
deriving DecidableEq, Repr

def PgType.names : PgType → List String
  | .bool => ["BOOL", "BOOLEAN"]
  | .int2 => ["INT2", "SMALLINT"]
  | .int4 => ["INT4", "INTEGER"]
  | .int8 => ["INT8", "BIGINT"]
  | .float4 => ["FLOAT4", "REAL"]
  | .float8 => ["FLOAT8", "DOUBLE PRECISION"]
  | .numeric => ["NUMERIC", "DECIMAL"]
  | .json => ["JSON"]
  | .jsonb => ["JSONB"]
  | .uuid => ["UUID"]
  | .timestamptz => ["TIMESTAMPTZ", "TIMESTAMP WITH TIME ZONE"]
  | .timestamp => ["TIMESTAMP", "TIMESTAMP WITHOUT TIME ZONE"]
  | .date => ["DATE"]
  | .time => ["TIME", "TIME WITHOUT TIME ZONE"]
  | .interval => ["INTERVAL"]
  | .bytea => ["BYTEA"]

inductive IntSize where
  | tiny
  | small
  | medium
  | int
  | big
deriving DecidableEq, Repr

def IntSize.names : IntSize → List String
  | .tiny => ["TINYINT"]
  | .small => ["SMALLINT"]
  | .medium => ["MEDIUMINT"]
  | .int => ["INT", "INTEGER"]
  | .big => ["BIGINT"]

/-- The types that `decode_mysql_column` names. -/
inductive MysqlType where
  | boolean
  | int (size : IntSize) (unsigned : Bool)
  | float
  | double
  | decimal
  | json
  | datetime
  | timestamp
  | date
  | time
  | binary
deriving DecidableEq, Repr

def MysqlType.names : MysqlType → List String
  | .boolean => ["BOOLEAN", "TINYINT(1)"]
  | .int size false => size.names
  | .int size true => size.names.map (· ++ " UNSIGNED")
  | .float => ["FLOAT"]
  | .double => ["DOUBLE"]
  | .decimal => ["NUMERIC", "DECIMAL", "NEWDECIMAL"]
  | .json => ["JSON"]
  | .datetime => ["DATETIME"]
  | .timestamp => ["TIMESTAMP"]
  | .date => ["DATE"]
  | .time => ["TIME"]
  | .binary => ["TINYBLOB", "BLOB", "MEDIUMBLOB", "LONGBLOB", "BINARY", "VARBINARY"]

inductive ColumnType where
  | pg (t : PgType)
  | mysql (t : MysqlType)
deriving DecidableEq, Repr

namespace ColumnType

/-- The values of a type. A float is the bits of a double, and what the model does not
look into is of `τ`. -/
def Val (τ : Type) : ColumnType → Type
  | .pg .bool => Bool
  | .pg .int2 => Int16
  | .pg .int4 => Int32
  | .pg .int8 => Int64
  | .mysql .boolean => Int8
  | .mysql (.int _ false) => Int64
  | .mysql (.int _ true) => UInt64
  | .pg .float4 | .pg .float8 | .mysql .float | .mysql .double => BitVec 64
  | .pg .bytea | .mysql .binary => List UInt8
  | .pg .numeric | .pg .json | .pg .jsonb | .pg .uuid | .pg .timestamptz | .pg .timestamp
  | .pg .date | .pg .time | .pg .interval
  | .mysql .decimal | .mysql .json | .mysql .datetime | .mysql .timestamp | .mysql .date
  | .mysql .time => τ

/-- A name of the type; MySQL's are compared in upper case. -/
def Named (name : String) : ColumnType → Prop
  | .pg t => name ∈ t.names
  | .mysql t => asciiUppercase name.toList ∈ t.names

variable {τ : Type}

/-- The integer of a value of an integer type; MySQL's booleans are `TINYINT(1)`. -/
def int? : (c : ColumnType) → c.Val τ → Option Int
  | .pg .int2, n => some (Int16.toInt n)
  | .pg .int4, n => some (Int32.toInt n)
  | .pg .int8, n => some (Int64.toInt n)
  | .mysql .boolean, n => some (Int8.toInt n)
  | .mysql (.int _ false), n => some (Int64.toInt n)
  | .mysql (.int _ true), n => some (UInt64.toNat n)
  | _, _ => none

/-- A value that is not an infinite float or no number. -/
def Finite : (c : ColumnType) → c.Val τ → Prop
  | .pg .float4, bits | .pg .float8, bits | .mysql .float, bits | .mysql .double, bits =>
    BitVec.toNat bits / 2 ^ 52 % 2 ^ 11 ≠ 2047
  | _, _ => True

end ColumnType

/-! ## What the library reads -/

/-- The types, of those that a column is read as, that are declared for a column type; a
single float is an `f32` and an unsigned integer a `u64`. -/
def ColumnType.rustTypes : ColumnType → List RustType
  | .pg .bool => [.bool]
  | .pg .int2 => [.i16]
  | .pg .int4 => [.i32]
  | .pg .int8 => [.i64]
  | .pg .float4 => []
  | .pg .float8 => [.f64]
  | .pg .numeric => [.text .decimal]
  | .pg .json | .pg .jsonb => [.value]
  | .pg .uuid => [.text .uuid]
  | .pg .timestamptz => [.text .dateTimeUtc]
  | .pg .timestamp => [.text .naiveDateTime]
  | .pg .date => [.text .naiveDate]
  | .pg .time => [.text .naiveTime]
  | .pg .interval => [.text .pgInterval]
  | .pg .bytea => [.bytes]
  | .mysql .boolean | .mysql (.int _ false) => [.bool, .i16, .i32, .i64]
  | .mysql (.int _ true) => [.bool]
  | .mysql .float | .mysql .double => [.f64]
  | .mysql .decimal => [.text .decimal]
  | .mysql .json => [.value]
  | .mysql .datetime | .mysql .timestamp => [.text .dateTimeUtc, .text .naiveDateTime]
  | .mysql .date => [.text .naiveDate]
  | .mysql .time => [.text .naiveTime]
  | .mysql .binary => [.bytes, .value, .text .uuid]

/-- The Rust type is declared for the column type. -/
def declared (t : RustType) (c : ColumnType) : Bool := t ∈ c.rustTypes

/-- What was sent for a column. -/
structure Cell (τ : Type) where
  type : ColumnType
  value : Option (type.Val τ)

section

variable {τ : Type} (hold : (t : RustType) → τ → Option t.Read)

/-- The declared type that the decoder reads a column as, and what that type holds of a
value; `none` for a column that it reads as no such type. -/
def ColumnType.reading : (c : ColumnType) → Option (Σ t : RustType, c.Val τ → Option t.Read)
  | .pg .bool => some ⟨.bool, fun b : Bool => some b⟩
  | .pg .int2 => some ⟨.i16, fun n : Int16 => some n⟩
  | .pg .int4 => some ⟨.i32, fun n : Int32 => some n⟩
  | .pg .int8 | .mysql (.int _ false) => some ⟨.i64, fun n : Int64 => some n⟩
  | .mysql .boolean => some ⟨.bool, fun n : Int8 => some (n != 0)⟩
  | .pg .float8 | .mysql .float | .mysql .double => some ⟨.f64, fun bits : BitVec 64 => some bits⟩
  | .pg .bytea | .mysql .binary => some ⟨.bytes, fun bytes : List UInt8 => some bytes⟩
  | .pg .json | .pg .jsonb | .mysql .json => some ⟨.value, hold .value⟩
  | .pg .numeric | .mysql .decimal => some ⟨.text .decimal, hold (.text .decimal)⟩
  | .pg .uuid => some ⟨.text .uuid, hold (.text .uuid)⟩
  | .pg .timestamptz => some ⟨.text .dateTimeUtc, hold (.text .dateTimeUtc)⟩
  | .pg .timestamp | .mysql .datetime | .mysql .timestamp =>
    some ⟨.text .naiveDateTime, hold (.text .naiveDateTime)⟩
  | .pg .date | .mysql .date => some ⟨.text .naiveDate, hold (.text .naiveDate)⟩
  | .pg .time => some ⟨.text .naiveTime, hold (.text .naiveTime)⟩
  | .pg .interval => some ⟨.text .pgInterval, hold (.text .pgInterval)⟩
  | .pg .float4 | .mysql (.int _ true) | .mysql .time => none

/-- What the decoders take of `sqlx`: `try_get` succeeds only for the column types that the
Rust type is declared for, and where the decoder reads a column as such a type it gives
what that type holds of the value. -/
structure Sqlx (lib : PgLib (Cell τ)) : Prop where
  only : ∀ (t : RustType) (c : ColumnType) (v : c.Val τ), declared t c = false →
    ∃ e, lib.tryGet t ⟨c, some v⟩ = .error e
  reads : ∀ (c : ColumnType) (t : RustType) (read : c.Val τ → Option t.Read),
    c.reading hold = some ⟨t, read⟩ → ∀ v,
      (lib.tryGet t ⟨c, some v⟩).toOption = (read v).map some

/-- The value as it stands in a response. -/
def shownValue (lib : PgLib (Cell τ)) (c : ColumnType) (v : c.Val τ) (typeName : String) : Value :=
  let cell : Cell τ := ⟨c, some v⟩
  match c with
  | .pg _ => shownCell lib cell typeName
  | .mysql _ => shownMysqlCell lib cell typeName

/-- A value is not lost: it is not shown as null, and an integer is shown as it is. -/
structure Kept (lib : PgLib (Cell τ)) (c : ColumnType) (v : c.Val τ) (typeName : String) : Prop where
  notNull : shownValue lib c v typeName ≠ .null
  exact : ∀ i, c.int? v = some i → shownValue lib c v typeName = .ofInt i

/-- The column is read as a type that is declared for it, which holds the value, an integer as
an integer, and the value is not the JSON null. -/
def ColumnType.Held : (c : ColumnType) → c.Val τ → Prop
  | .pg .float4, _ | .mysql .boolean, _ | .mysql (.int _ true), _ | .mysql .time, _ => False
  | .pg .json, v | .pg .jsonb, v | .mysql .json, v => ∃ w, hold .value v = some w ∧ w ≠ .null
  | .pg .numeric, v | .mysql .decimal, v => ∃ s, hold (.text .decimal) v = some s
  | .pg .uuid, v => ∃ s, hold (.text .uuid) v = some s
  | .pg .timestamptz, v => ∃ s, hold (.text .dateTimeUtc) v = some s
  | .pg .timestamp, v | .mysql .datetime, v | .mysql .timestamp, v =>
    ∃ s, hold (.text .naiveDateTime) v = some s
  | .pg .date, v | .mysql .date, v => ∃ s, hold (.text .naiveDate) v = some s
  | .pg .time, v => ∃ s, hold (.text .naiveTime) v = some s
  | .pg .interval, v => ∃ s, hold (.text .pgInterval) v = some s
  | .pg .bool, _ | .pg .int2, _ | .pg .int4, _ | .pg .int8, _ | .pg .float8, _ | .pg .bytea, _
  | .mysql (.int _ false), _ | .mysql .float, _ | .mysql .double, _
  | .mysql .binary, _ => True

end

/-! ## What is asked of a column -/

/-- The declared type that a column is read as. -/
def ColumnType.home (c : ColumnType) : Option RustType :=
  (c.reading fun _ (_ : Unit) => none).map Sigma.fst

/-- A PostgreSQL column is read as its declared type, or as one that is not declared. -/
theorem rustType_names (t : PgType) : ∀ name ∈ t.names,
    (ColumnType.pg t).home = some (rustType name) ∨
      (ColumnType.pg t).home = none ∧ declared (rustType name) (.pg t) = false := by
  cases t <;> decide

/-- The type that a MySQL column is tried as before it is read as a text. -/
def MysqlType.tried : MysqlType → RustType
  | .boolean => .bool
  | .int _ _ => .i64
  | .float | .double => .f64
  | .decimal => .text .decimal
  | .json => .value
  | .datetime | .timestamp => .text .naiveDateTime
  | .date => .text .naiveDate
  | .time => .text .string
  | .binary => .bytes

/-- One name of booleans is also one of an integer. -/
theorem mysqlTypes_eq (t : MysqlType) : ∀ upper ∈ t.names,
    mysqlTypes upper = [t.tried] ∨ t = .boolean ∧ mysqlTypes upper = [.bool, .i64] := by
  cases t with
  | int size unsigned => cases size <;> cases unsigned <;> decide
  | _ => decide

/-- A MySQL column is tried as its declared type, or as one that is not declared. -/
theorem mysql_home (t : MysqlType) : (ColumnType.mysql t).home = some t.tried ∨
    (ColumnType.mysql t).home = none ∧ declared t.tried (.mysql t) = false := by
  cases t with
  | int size unsigned => cases size <;> cases unsigned <;> decide
  | _ => decide

theorem string_undeclared (c : ColumnType) : declared (.text .string) c = false := by
  cases c with
  | pg t => cases t <;> rfl
  | mysql t =>
    cases t with
    | int size unsigned => cases unsigned <;> rfl
    | _ => rfl

section

variable {ρ : Type} {lib : PgLib ρ} {cell : ρ}

theorem decodePgColumn_eq (lib : PgLib ρ) (cell : ρ) (name : String) :
    decodePgColumn lib cell name = readAs lib cell (rustType name) := by
  unfold decodePgColumn readAs
  cases lib.tryGet (rustType name) cell with
  | error e => rfl
  | ok read => cases read <;> rfl

theorem readAs_error {t : RustType} {e : String} (h : lib.tryGet t cell = .error e) :
    readAs lib cell t = .error e := by
  rw [readAs, h]
  rfl

theorem readAs_ok {t : RustType} {r : t.Read} (h : lib.tryGet t cell = .ok (some r)) :
    readAs lib cell t = .ok (toJson lib t r) := by
  rw [readAs, h]
  rfl

end

/-! ## What is shown -/

section

variable {τ : Type} {hold : (t : RustType) → τ → Option t.Read} {lib : PgLib (Cell τ)}

theorem reading_home (c : ColumnType) : (c.reading hold).map Sigma.fst = c.home := by
  cases c with
  | pg t => cases t <;> rfl
  | mysql t =>
    cases t with
    | int size unsigned => cases unsigned <;> rfl
    | _ => rfl

theorem shownValue_pg (t : PgType) (v : (ColumnType.pg t).Val τ) (name : String) :
    shownValue lib (.pg t) v name =
      (readAs lib ⟨.pg t, some v⟩ (rustType name)).toOption.getD .null := by
  rw [← decodePgColumn_eq]
  rfl

theorem shownValue_mysql (t : MysqlType) (v : (ColumnType.mysql t).Val τ) (name : String) :
    shownValue lib (.mysql t) v name =
      (decodeMysqlColumn lib ⟨.mysql t, some v⟩ name).toOption.getD .null := rfl

/-- What the declared type of a column reads of a value. -/
theorem Sqlx.tryGet_home (h : Sqlx hold lib) {c : ColumnType} {t : RustType}
    {read : c.Val τ → Option t.Read} (hread : c.reading hold = some ⟨t, read⟩) (v : c.Val τ) :
    (∃ r, read v = some r ∧ lib.tryGet t ⟨c, some v⟩ = .ok (some r)) ∨
      read v = none ∧ ∃ e, lib.tryGet t ⟨c, some v⟩ = .error e := by
  have hreads := h.reads c t read hread v
  cases hget : lib.tryGet t ⟨c, some v⟩ with
  | error e =>
    rw [hget] at hreads
    exact .inr ⟨Option.map_eq_none_iff.mp hreads.symm, e, rfl⟩
  | ok r =>
    rw [hget] at hreads
    obtain ⟨w, hw, rfl⟩ := Option.map_eq_some_iff.mp hreads.symm
    exact .inl ⟨w, hw, rfl⟩

/-- A column without a declared type among those it is read as is shown as null. -/
theorem shownValue_of_undeclared (h : Sqlx hold lib) {c : ColumnType} {name : String} (hname : c.Named name)
    (hhome : c.home = none) (v : c.Val τ) : shownValue lib c v name = .null := by
  cases c with
  | pg t =>
    obtain hsome | ⟨-, hundeclared⟩ := rustType_names t name hname
    · rw [hhome] at hsome
      cases hsome
    · obtain ⟨e, he⟩ := h.only _ _ v hundeclared
      rw [shownValue_pg, readAs_error he]
      rfl
  | mysql t =>
    obtain hsome | ⟨-, hundeclared⟩ := mysql_home t
    · rw [hhome] at hsome
      cases hsome
    · have htypes : mysqlTypes (asciiUppercase name.toList) = [t.tried] := by
        obtain htypes | ⟨rfl, -⟩ := mysqlTypes_eq t _ hname
        · exact htypes
        · cases hhome
      obtain ⟨e, he⟩ := h.only _ _ v hundeclared
      obtain ⟨e', he'⟩ := h.only _ _ v (string_undeclared (.mysql t))
      rw [shownValue_mysql, decodeMysqlColumn, htypes, List.foldr_cons, readAs_error he,
        List.foldr_nil, readAs_error he']
      rfl

/-- A column is shown as its declared type reads it. -/
theorem shownValue_of_reading (h : Sqlx hold lib) {c : ColumnType} {name : String} (hname : c.Named name)
    {t : RustType} {read : c.Val τ → Option t.Read} (hread : c.reading hold = some ⟨t, read⟩)
    (v : c.Val τ) : shownValue lib c v name = (read v).elim .null (toJson lib t) := by
  have hhome : c.home = some t := (reading_home c).symm.trans (congrArg _ hread)
  have hget := h.tryGet_home hread v
  cases c with
  | pg t' =>
    have ht : rustType name = t := by
      obtain hsome | ⟨hnone, -⟩ := rustType_names t' name hname
      · exact Option.some.inj (hsome.symm.trans hhome)
      · rw [hhome] at hnone
        cases hnone
    rw [shownValue_pg, ht]
    obtain ⟨r, hr, hok⟩ | ⟨hnone, e, he⟩ := hget
    · rw [readAs_ok hok, hr]
      rfl
    · rw [readAs_error he, hnone]
      rfl
  | mysql t' =>
    have ht : t'.tried = t := by
      obtain hsome | ⟨hnone, -⟩ := mysql_home t'
      · exact Option.some.inj (hsome.symm.trans hhome)
      · rw [hhome] at hnone
        cases hnone
    obtain ⟨e', he'⟩ := h.only _ _ v (string_undeclared (.mysql t'))
    rw [shownValue_mysql, decodeMysqlColumn]
    obtain htypes | ⟨rfl, htypes⟩ := mysqlTypes_eq t' _ hname
    · rw [htypes, ht, List.foldr_cons, List.foldr_nil]
      obtain ⟨r, hr, hok⟩ | ⟨hnone, e, he⟩ := hget
      · rw [readAs_ok hok, hr]
        rfl
      · rw [readAs_error he, readAs_error he', hnone]
        rfl
    · -- a boolean is read at the first attempt
      obtain ⟨r, hr, hok⟩ | ⟨hnone, -⟩ := hget
      · obtain rfl : RustType.bool = t := ht
        rw [htypes, List.foldr_cons, readAs_ok hok, hr]
        rfl
      · cases hread
        cases hnone

/-! ## What is kept -/

section

variable (h : Sqlx hold lib) {c : ColumnType} {name : String} (hname : c.Named name) {v : c.Val τ}

include h hname

theorem not_kept_of_undeclared (hhome : c.home = none) : ¬Kept lib c v name :=
  fun hkept => hkept.notNull (shownValue_of_undeclared h hname hhome v)

theorem kept_of_read {t : RustType} {read : c.Val τ → Option t.Read} {r : t.Read}
    (hread : c.reading hold = some ⟨t, read⟩) (hr : read v = some r) (hnull : toJson lib t r ≠ .null)
    (hint : ∀ i, c.int? v = some i → toJson lib t r = .ofInt i) : Kept lib c v name := by
  have hshown := shownValue_of_reading h hname hread v
  rw [hr] at hshown
  refine ⟨?_, fun i hi => ?_⟩
  · rw [hshown]
    exact hnull
  · rw [hshown]
    exact hint i hi

/-- An integer that is not shown as it is read is not kept. -/
theorem not_kept_of_integer {t : RustType} {read : c.Val τ → Option t.Read} {r : t.Read} {i : Int}
    (hread : c.reading hold = some ⟨t, read⟩) (hr : read v = some r) (hint : c.int? v = some i)
    (hother : toJson lib t r ≠ .ofInt i) : ¬Kept lib c v name := by
  intro hkept
  have hshown := shownValue_of_reading h hname hread v
  rw [hkept.exact i hint, hr] at hshown
  exact hother hshown.symm

/-- Of a type that no integer is of: a value is kept where what is read is not null. -/
theorem kept_iff_of_reading {t : RustType} {read : c.Val τ → Option t.Read}
    (hread : c.reading hold = some ⟨t, read⟩) (hint : c.int? v = none) :
    Kept lib c v name ↔ ∃ r, read v = some r ∧ toJson lib t r ≠ .null := by
  have hshown := shownValue_of_reading h hname hread v
  constructor
  · intro hkept
    cases hr : read v with
    | none =>
      rw [hr] at hshown
      exact absurd hshown hkept.notNull
    | some r =>
      rw [hr] at hshown
      exact ⟨r, rfl, fun hnull => hkept.notNull (hshown.trans hnull)⟩
  · rintro ⟨r, hr, hnull⟩
    refine kept_of_read h hname hread hr hnull fun i hi => ?_
    rw [hint] at hi
    cases hi

theorem kept_text_iff {k : TextType} {read : c.Val τ → Option String}
    (hread : c.reading hold = some ⟨.text k, read⟩) (hint : c.int? v = none) :
    Kept lib c v name ↔ ∃ s, read v = some s := by
  rw [kept_iff_of_reading h hname hread hint]
  exact exists_congr fun s => and_iff_left nofun

end

end

/-- A value of a column is shown, and an integer as it is, iff the column is none of
PostgreSQL's single floats and MySQL's booleans, unsigned integers and times, the Rust type
that is read holds the value, and it is not the JSON null. -/
theorem column_kept_iff {τ : Type} (hold : (t : RustType) → τ → Option t.Read) (lib : PgLib (Cell τ))
    (c : ColumnType) (v : c.Val τ) (name : String) (h : Sqlx hold lib) (hname : c.Named name)
    (hfinite : c.Finite v) : Kept lib c v name ↔ c.Held hold v := by
  have hfloat {bits : BitVec 64} (hbits : bits.toNat / 2 ^ 52 % 2 ^ 11 ≠ 2047) :
      toJson lib .f64 bits ≠ .null := (fromF64_eq_null_iff bits).not.mpr hbits
  cases c with
  | pg t =>
    cases t with
    | float4 => exact iff_of_false (not_kept_of_undeclared h hname rfl) not_false
    | bool | int2 | int4 | int8 | bytea =>
      exact iff_of_true (kept_of_read h hname rfl rfl nofun fun i hi => by cases hi <;> rfl) trivial
    | float8 => exact iff_of_true (kept_of_read h hname rfl rfl (hfloat hfinite) nofun) trivial
    | json | jsonb => exact kept_iff_of_reading h hname rfl rfl
    | numeric | uuid | timestamptz | timestamp | date | time | interval =>
      exact kept_text_iff h hname rfl rfl
  | mysql t =>
    cases t with
    | int size unsigned =>
      cases unsigned with
      | true => exact iff_of_false (not_kept_of_undeclared h hname rfl) not_false
      | false =>
        exact iff_of_true (kept_of_read h hname rfl rfl nofun fun i hi => by cases hi; rfl) trivial
    | time => exact iff_of_false (not_kept_of_undeclared h hname rfl) not_false
    | boolean => exact iff_of_false (not_kept_of_integer h hname rfl rfl rfl nofun) not_false
    | binary => exact iff_of_true (kept_of_read h hname rfl rfl nofun nofun) trivial
    | float | double =>
      exact iff_of_true (kept_of_read h hname rfl rfl (hfloat hfinite) nofun) trivial
    | json => exact kept_iff_of_reading h hname rfl rfl
    | decimal | datetime | timestamp | date => exact kept_text_iff h hname rfl rfl

/-! ### Columns of each database -/

/-- Texts as they stand, for what is of no type of the model. -/
def holdText : (t : RustType) → String → Option t.Read
  | .text _, s => some s
  | .value, s => some (.str s)
  | _, _ => none

/-- A library that reads columns as their declared types only. -/
def readingLib : PgLib (Cell String) where
  tryGet t cell := match cell.value with
    | none => .ok none
    | some v => match cell.type.reading holdText with
      | some ⟨t', read⟩ => if heq : t' = t then
          match read v with
          | some r => .ok (some (heq ▸ r))
          | none => .error "value is out of range"
        else .error "mismatched types"
      | none => .error "mismatched types"
  base64 _ := "AQ=="

theorem home_declared (c : ColumnType) : ∀ t ∈ c.home, declared t c = true := by
  cases c with
  | pg t => cases t <;> decide
  | mysql t =>
    cases t with
    | int size unsigned => cases size <;> cases unsigned <;> decide
    | _ => decide

theorem readingLib_sqlx : Sqlx holdText readingLib where
  only t c v hundeclared := by
    dsimp only [readingLib]
    cases hread : c.reading holdText with
    | none => exact ⟨_, rfl⟩
    | some reading =>
      obtain ⟨t', read⟩ := reading
      have hne : t' ≠ t := by
        rintro rfl
        have hhome : c.home = some t' := (reading_home c).symm.trans (congrArg _ hread)
        rw [home_declared c t' hhome] at hundeclared
        cases hundeclared
      dsimp only
      rw [dif_neg hne]
      exact ⟨_, rfl⟩
  reads c t read hread v := by
    dsimp only [readingLib]
    rw [hread]
    dsimp only
    rw [dif_pos rfl]
    cases read v <;> rfl

/-- A single float of PostgreSQL, an unsigned integer and a time of MySQL are null, and 5 in a
`TINYINT(1)` is true. -/
theorem columns_nulled : Sqlx holdText readingLib ∧
    @ColumnType.Finite String (.pg .float4) 0x3FF8000000000000#64 ∧
    shownValue readingLib (.pg .float4) (0x3FF8000000000000#64) "FLOAT4" = .null ∧
    shownValue readingLib (.mysql (.int .big true)) (7 : UInt64) "BIGINT UNSIGNED" = .null ∧
    ¬Kept readingLib (.mysql (.int .big true)) (7 : UInt64) "BIGINT UNSIGNED" ∧
    shownValue readingLib (.mysql .time) "12:30:00" "TIME" = .null ∧
    shownValue readingLib (.mysql .boolean) (5 : Int8) "BOOLEAN" = .bool true := by
  have hnamed : (ColumnType.mysql (.int .big true)).Named "BIGINT UNSIGNED" := by
    unfold ColumnType.Named
    decide
  have htime : (ColumnType.mysql .time).Named "TIME" := by
    unfold ColumnType.Named
    decide
  have hfloat : (ColumnType.pg .float4).Named "FLOAT4" := by
    unfold ColumnType.Named
    decide
  have hboolean : (ColumnType.mysql .boolean).Named "BOOLEAN" := by
    unfold ColumnType.Named
    decide
  refine ⟨readingLib_sqlx, ?_, shownValue_of_undeclared readingLib_sqlx hfloat rfl _,
    shownValue_of_undeclared readingLib_sqlx hnamed rfl _,
    not_kept_of_undeclared readingLib_sqlx hnamed rfl,
    shownValue_of_undeclared readingLib_sqlx htime rfl _,
    shownValue_of_reading readingLib_sqlx hboolean rfl (5 : Int8)⟩
  unfold ColumnType.Finite
  decide

/-- The theorem at the least `BIGINT` and at a decimal. -/
theorem columns_kept :
    Kept readingLib (.mysql (.int .big false)) (-9223372036854775808 : Int64) "BIGINT" ∧
      Kept readingLib (.pg .numeric) "12.50" "NUMERIC" := by
  have hbig : (ColumnType.mysql (.int .big false)).Named "BIGINT" := by
    unfold ColumnType.Named
    decide
  have hnumeric : (ColumnType.pg .numeric).Named "NUMERIC" := by
    unfold ColumnType.Named
    decide
  exact ⟨(column_kept_iff holdText readingLib _ _ _ readingLib_sqlx hbig trivial).mpr trivial,
    (column_kept_iff holdText readingLib _ _ _ readingLib_sqlx hnumeric trivial).mpr ⟨"12.50", rfl⟩⟩

end McpgSql.Driver
