import McpgSql.Driver.Postgres
import McpgSql.Schema.Validate

/-!
# Cells and the schemas of their columns

The table of schemas by type name and the table of Rust types by type name stand in two
files. They agree on the JSON type of what is written and on its bounds (`tables_agree`),
but not for bytes: the schema of `BYTEA` is that of a text, and an object is written
(`not_takes_bytes`).

* `cell_validates_iff`: a cell is valid for the schema of its column exactly where it
  fits (`CellFits`).
-/

namespace McpgSql.Schema

open Library McpgSql.Driver

/-! ## Schemas of types -/

/-- What the schema of every type is like: it asks something of the value itself only, and
where it names no type it asks nothing. -/
structure Fragment (frag : Value) : Prop where
  flat : Flat frag
  required : frag.get "required" = none
  isObj : ∃ map, frag = .obj map
  typed : (frag.get "type" = none ∧ frag.get "minimum" = none ∧ frag.get "maximum" = none) ∨
    ∃ s, frag.get "type" = some (.str s) ∧ s ≠ "null"

theorem fragment_pgType (name : String) : Fragment (pgTypeToJsonSchema name) := by
  unfold pgTypeToJsonSchema
  split
  all_goals
    refine ⟨⟨?_, ?_, ?_⟩, ?_, ⟨_, rfl⟩, ?_⟩
    all_goals simp [get_object, Assoc.get?]

/-! ## Schemas of columns -/

theorem hasType_null {v : Value} : hasType v "null" ↔ v = .null := by
  cases v <;> simp [hasType]

theorem boundOk_of_not_num {v : Value} (h : ∀ n, v ≠ .num n) (within : ℚ → ℚ → Bool)
    (bound : Option Value) : boundOk v within bound := by
  unfold boundOk
  split
  · split
    · exact absurd rfl (h _)
    · rfl
  · rfl

theorem takes_iff {schema v : Value} (h : ∃ map, schema = .obj map) : takes schema v ↔
    typeOk v (schema.get "type") ∧ boundOk v (fun lo x => lo ≤ x) (schema.get "minimum") ∧
      boundOk v (fun hi x => x ≤ hi) (schema.get "maximum") ∧
      requiredOk v (schema.get "required") := by
  obtain ⟨map, rfl⟩ := h
  simp [takes, and_assoc]

theorem takes_object {members : List (String × Value)} {v : Value} :
    takes (.object members) v ↔ typeOk v ((Value.object members).get "type") ∧
      boundOk v (fun lo x => lo ≤ x) ((Value.object members).get "minimum") ∧
      boundOk v (fun hi x => x ≤ hi) ((Value.object members).get "maximum") ∧
      requiredOk v ((Value.object members).get "required") :=
  takes_iff ⟨_, rfl⟩

section

variable {frag : Value} {nullable : Option Bool} {s : String}

theorem widen_isObj (h : ∃ map, frag = .obj map) : ∃ map, widenToNullable frag nullable = .obj map := by
  obtain ⟨map, rfl⟩ := h
  unfold widenToNullable
  split
  · exact ⟨map, rfl⟩
  · dsimp only
    split
    · split
      · exact ⟨_, rfl⟩
      · exact ⟨_, rfl⟩
    · exact ⟨_, rfl⟩
    · exact ⟨_, rfl⟩

/-- Widening leaves the other keywords. -/
theorem widen_get (h : ∃ map, frag = .obj map) (key : String) (hkey : key ≠ "type") :
    (widenToNullable frag nullable).get key = frag.get key := by
  obtain ⟨map, rfl⟩ := h
  have hrest : Assoc.get? (Assoc.eraseP map fun key => key = "type") key = Assoc.get? map key := by
    rw [Assoc.get?_eraseP, if_neg (by simpa using hkey)]
  unfold widenToNullable
  split
  · rfl
  · dsimp only
    split
    · split
      · simp [Value.get, Assoc.get?_insert, hkey.symm, hrest]
      · simp [Value.get, Assoc.get?_insert, hkey.symm, hrest]
    · simp [Value.get, Assoc.get?_insert, hkey.symm, hrest]
    · simp [Value.get, hrest]

theorem widen_type (h : ∃ map, frag = .obj map) (htype : frag.get "type" = some (.str s))
    (hs : s ≠ "null") (hnull : nullable ≠ some false) :
    (widenToNullable frag nullable).get "type" = some (.arr [.str s, .str "null"]) := by
  obtain ⟨map, rfl⟩ := h
  have htype : Assoc.get? map "type" = some (.str s) := htype
  simp [widenToNullable, hnull, htype, hs, Value.get, Assoc.get?_insert]

theorem widen_untyped (h : ∃ map, frag = .obj map) (htype : frag.get "type" = none) :
    (widenToNullable frag nullable).get "type" = none := by
  obtain ⟨map, rfl⟩ := h
  have htype : Assoc.get? map "type" = none := htype
  unfold widenToNullable
  split
  · exact htype
  · simp [htype, Value.get, Assoc.get?_eraseP]

/-- The schema of a column takes what the schema of its type does, and null where it may be. -/
theorem takes_widen (h : Fragment frag) {v : Value} :
    takes (widenToNullable frag nullable) v ↔
      takes frag v ∨ (v = .null ∧ nullable ≠ some false) := by
  rw [takes_iff (widen_isObj h.isObj), takes_iff h.isObj, widen_get h.isObj "minimum" (by decide),
    widen_get h.isObj "maximum" (by decide), widen_get h.isObj "required" (by decide)]
  rcases h.typed with ⟨htype, hmin, hmax⟩ | ⟨s, htype, hs⟩
  · -- a schema without a type takes everything
    rw [widen_untyped h.isObj htype, htype, hmin, hmax, h.required]
    simp [typeOk, boundOk, requiredOk]
  · by_cases hnull : nullable = some false
    · have hsame : widenToNullable frag nullable = frag := if_pos hnull
      rw [hsame]
      simp [hnull]
    · rw [widen_type h.isObj htype hs hnull, htype]
      have htypes : typeOk v (some (.arr [.str s, .str "null"])) ↔
          typeOk v (some (.str s)) ∨ v = .null := by
        simp [typeOk, Value.asStr, hasType_null]
      rw [htypes]
      constructor
      · intro ⟨ht, hrest⟩
        rcases ht with ht | ht
        · exact .inl ⟨ht, hrest⟩
        · exact .inr ⟨ht, hnull⟩
      · intro ht
        rcases ht with ⟨ht, hrest⟩ | ⟨rfl, _⟩
        · exact ⟨.inl ht, hrest⟩
        · refine ⟨.inr rfl, boundOk_of_not_num (by simp) _ _,
            boundOk_of_not_num (by simp) _ _, ?_⟩
          rw [h.required]
          rfl

/-- A column without a type takes null, and so does none with one. -/
theorem Fragment.takes_null (h : Fragment frag) : takes frag .null ↔ frag.get "type" = none := by
  rw [takes_iff h.isObj, h.required]
  rcases h.typed with ⟨htype, hmin, hmax⟩ | ⟨s, htype, hs⟩
  · simp [htype, hmin, hmax, typeOk, boundOk, requiredOk]
  · simp [htype, typeOk, hasType, hs]

end

theorem columnSchema_flat (col : OutputColumn) : Flat (columnSchema col) := by
  obtain ⟨hflat, _, hobj, _⟩ := fragment_pgType col.pgType
  refine ⟨?_, ?_, ?_⟩
  · exact (widen_get hobj _ (by decide)).trans hflat.properties
  · exact (widen_get hobj _ (by decide)).trans hflat.additionalProperties
  · exact (widen_get hobj _ (by decide)).trans hflat.items

theorem columnSchema_validates {col : OutputColumn} {v : Value} :
    validates (columnSchema col) v ↔
      takes (pgTypeToJsonSchema col.pgType) v ∨ (v = .null ∧ col.nullable ≠ some false) := by
  rw [(columnSchema_flat col).validates_iff]
  exact takes_widen (fragment_pgType col.pgType)

/-! ## Cells -/

/-- The type names of the branches of `decode_pg_column`. -/
def decoderNames : List String :=
  ["BOOL", "BOOLEAN", "INT2", "SMALLINT", "INT4", "INTEGER", "INT8", "BIGINT", "FLOAT4", "FLOAT8",
    "REAL", "DOUBLE PRECISION", "NUMERIC", "DECIMAL", "JSON", "JSONB", "UUID", "TIMESTAMPTZ",
    "TIMESTAMP WITH TIME ZONE", "TIMESTAMP", "TIMESTAMP WITHOUT TIME ZONE", "DATE", "TIME",
    "TIME WITHOUT TIME ZONE", "INTERVAL", "BYTEA"]

/-- The schema says nothing about values of the type. -/
def Untyped (name : String) : Prop := (pgTypeToJsonSchema name).get "type" = none

/-- The type names that the decoder handles: those of its branches, and of its fallback those
whose values are texts or of which the schema says nothing. -/
def Handled (name : String) : Prop :=
  name ∈ decoderNames ∨ Untyped name ∨ (pgTypeToJsonSchema name).get "type" = some (.str "string")

/-- The type of JSON Schema that is written for a Rust type. -/
def jsonType : RustType → Option String
  | .bool => some "boolean"
  | .i16 | .i32 | .i64 => some "integer"
  | .f64 => some "number"
  | .value => none
  | .bytes => some "object"
  | .text _ => some "string"

theorem rustType_fallback {name : String} (h : name ∉ decoderNames) :
    rustType name = .text .string := by
  unfold rustType
  split
  all_goals first
    | rfl
    | exact absurd (by decide) h

/-- The schema of a type agrees with the Rust type that it is read as: it names no type or the
one that is written, and its bounds are those of the Rust type. -/
def Agree (t : RustType) (schema : Value) : Prop :=
  (schema.get "type" = none ∨ schema.get "type" = (jsonType t).map Value.str) ∧
    schema.get "minimum" = (if t = .i16 then some (.ofInt (-32768)) else none) ∧
    schema.get "maximum" = (if t = .i16 then some (.ofInt 32767) else none)

instance (t : RustType) (schema : Value) : Decidable (Agree t schema) :=
  inferInstanceAs (Decidable (_ ∧ _))

/-- The two tables agree, but for bytes. -/
theorem tables_agree : ∀ name ∈ decoderNames, name ≠ "BYTEA" →
    Agree (rustType name) (pgTypeToJsonSchema name) := by
  decide

theorem numberValue_ofInt (i : Int) : numberValue (.ofInt i) = i := by
  cases i with
  | ofNat n => rfl
  | negSucc n => simp [Number.ofInt, numberValue, Int.negSucc_eq]

theorem hasType_ofInt (i : Int) : hasType (.ofInt i) "integer" := by
  simp [hasType, Value.ofInt, numberValue_ofInt]

section

variable {ρ : Type} {lib : PgLib ρ} {name : String} {cell : ρ}

/-- What is written for a Rust type is of its type, unless it is null. -/
theorem hasType_toJson {t : RustType} {v : t.Read} (hnull : toJson lib t v ≠ .null) {s : String}
    (hs : jsonType t = some s) : hasType (toJson lib t v) s := by
  cases t with
  | bool => cases hs; rfl
  | i16 => cases hs; exact hasType_ofInt _
  | i32 => cases hs; exact hasType_ofInt _
  | i64 => cases hs; exact hasType_ofInt _
  | f64 =>
    cases hs
    have hfinite : ¬BitVec.toNat v / 2 ^ 52 % 2 ^ 11 = 2047 := fun h => hnull (if_pos h)
    have hnumber : toJson lib .f64 v = .num (.float v) := if_neg hfinite
    rw [hnumber]
    rfl
  | value => cases hs
  | bytes => cases hs; rfl
  | text t => cases hs; rfl

theorem boundOk_ofInt {lo i : Int} (h : lo ≤ i) :
    boundOk (.ofInt i) (fun lo x => lo ≤ x) (some (.ofInt lo)) := by
  simpa [boundOk, Value.ofInt, numberValue_ofInt] using Rat.intCast_le_intCast.mpr h

theorem boundOk_ofInt_le {hi i : Int} (h : i ≤ hi) :
    boundOk (.ofInt i) (fun hi x => x ≤ hi) (some (.ofInt hi)) := by
  simpa [boundOk, Value.ofInt, numberValue_ofInt] using Rat.intCast_le_intCast.mpr h

/-- A schema that agrees with a Rust type takes what is written for it, unless it is null. -/
theorem Agree.takes {t : RustType} {schema : Value} (h : Agree t schema) (hfrag : Fragment schema)
    {v : t.Read} (hnull : toJson lib t v ≠ .null) : takes schema (toJson lib t v) := by
  obtain ⟨htype, hmin, hmax⟩ := h
  rw [takes_iff hfrag.isObj, hfrag.required, hmin, hmax]
  refine ⟨?_, ?_, ?_, rfl⟩
  · rcases htype with htype | htype
    · rw [htype]
      rfl
    · rw [htype]
      cases hs : jsonType t with
      | none => rfl
      | some s => exact hasType_toJson hnull hs
  · cases t with
    | i16 => exact boundOk_ofInt (by have := Int16.le_toInt v; omega)
    | _ => rfl
  · cases t with
    | i16 => exact boundOk_ofInt_le (by have := Int16.toInt_lt v; omega)
    | _ => rfl

/-- What the decoder writes is taken by the schema of the type, but for bytes. -/
theorem takes_toJson (hname : Handled name) (hbytes : name ≠ "BYTEA") {v : (rustType name).Read}
    (hnull : toJson lib _ v ≠ .null) : takes (pgTypeToJsonSchema name) (toJson lib _ v) := by
  have hfrag := fragment_pgType name
  by_cases hmem : name ∈ decoderNames
  · exact (tables_agree name hmem hbytes).takes hfrag hnull
  · -- the fallback writes a text
    have hjson : ∃ text, toJson lib _ v = .str text := by
      revert v
      rw [rustType_fallback hmem]
      exact fun {v} _ => ⟨v, rfl⟩
    obtain ⟨text, hjson⟩ := hjson
    rw [hjson, takes_iff hfrag.isObj, hfrag.required]
    refine ⟨?_, boundOk_of_not_num (by simp) _ _, boundOk_of_not_num (by simp) _ _, rfl⟩
    rcases hname with hname | htype | htype
    · exact absurd hname hmem
    · rw [show (pgTypeToJsonSchema name).get "type" = none from htype]
      rfl
    · rw [htype]
      rfl

variable (lib) in
/-- The cell is read, and something other than null is written for it. -/
def Shown (name : String) (cell : ρ) : Prop :=
  ∃ v, lib.tryGet (rustType name) cell = .ok (some v) ∧ toJson lib _ v ≠ .null

theorem shownCell_of_read {v : (rustType name).Read}
    (h : lib.tryGet (rustType name) cell = .ok (some v)) :
    shownCell lib cell name = toJson lib _ v := by
  rw [shownCell, decodePgColumn, h]
  rfl

/-- A cell that is not shown is null in the response. -/
theorem shownCell_of_not_shown (h : ¬Shown lib name cell) : shownCell lib cell name = .null := by
  cases hread : lib.tryGet (rustType name) cell with
  | error e =>
    rw [shownCell, decodePgColumn, hread]
    rfl
  | ok found =>
    cases found with
    | none =>
      rw [shownCell, decodePgColumn, hread]
      rfl
    | some v =>
      rw [shownCell_of_read hread]
      by_contra hv
      exact h ⟨v, hread, hv⟩

variable (lib) in
/-- The cell fits the schema of its column: the schema says nothing about its type, or it is
shown and not as bytes, or it is not shown and the column may be null. -/
def CellFits (col : OutputColumn) (cell : ρ) : Prop :=
  Untyped col.pgType ∨ (Shown lib col.pgType cell ∧ col.pgType ≠ "BYTEA") ∨
    (¬Shown lib col.pgType cell ∧ col.nullable ≠ some false)

theorem takes_untyped (h : Untyped name) (v : Value) : takes (pgTypeToJsonSchema name) v := by
  have hfrag := fragment_pgType name
  rw [takes_iff hfrag.isObj, hfrag.required]
  rcases hfrag.typed with ⟨htype, hmin, hmax⟩ | ⟨s, htype, _⟩
  · rw [htype, hmin, hmax]
    exact ⟨rfl, rfl, rfl, rfl⟩
  · rw [Untyped, htype] at h
    cases h

theorem not_takes_bytes {v : (rustType "BYTEA").Read} :
    ¬takes (pgTypeToJsonSchema "BYTEA") (toJson lib _ v) := by
  have htype : (pgTypeToJsonSchema "BYTEA").get "type" = some (.str "string") := by decide
  intro h
  have hstring := ((takes_iff (fragment_pgType "BYTEA").isObj).mp h).1
  rw [htype] at hstring
  cases hstring

variable (lib) in
/-- The cell of a type fits the schema of a column, which may be another one. -/
def FitsInto (col : OutputColumn) (name : String) (cell : ρ) : Prop :=
  Untyped col.pgType ∨
    (Shown lib name cell ∧ takes (pgTypeToJsonSchema col.pgType) (shownCell lib cell name)) ∨
    (¬Shown lib name cell ∧ col.nullable ≠ some false)

/-- A cell is valid for the schema of a column exactly where it fits. -/
theorem fitsInto_iff {col : OutputColumn} :
    validates (columnSchema col) (shownCell lib cell name) ↔ FitsInto lib col name cell := by
  rw [columnSchema_validates, FitsInto]
  by_cases hshown : Shown lib name cell
  · obtain ⟨v, hread, hv⟩ := id hshown
    rw [shownCell_of_read hread]
    constructor
    · intro h
      rcases h with h | ⟨hnull, _⟩
      · exact .inr (.inl ⟨hshown, h⟩)
      · exact absurd hnull hv
    · intro h
      rcases h with hany | ⟨_, h⟩ | ⟨hnot, _⟩
      · exact .inl (takes_untyped hany _)
      · exact .inl h
      · exact absurd hshown hnot
  · rw [shownCell_of_not_shown hshown, (fragment_pgType col.pgType).takes_null]
    constructor
    · intro h
      rcases h with hany | ⟨_, hnull⟩
      · exact .inl hany
      · exact .inr (.inr ⟨hshown, hnull⟩)
    · intro h
      rcases h with hany | ⟨hshown', _⟩ | ⟨_, hnull⟩
      · exact .inl hany
      · exact absurd hshown' hshown
      · exact .inr ⟨rfl, hnull⟩

/-- What is shown of a cell is taken by the schema of its type, but for bytes. -/
theorem takes_shownCell_iff (hname : Handled name) (hshown : Shown lib name cell) :
    takes (pgTypeToJsonSchema name) (shownCell lib cell name) ↔ name ≠ "BYTEA" := by
  obtain ⟨v, hread, hv⟩ := hshown
  rw [shownCell_of_read hread]
  constructor
  · intro h hbytes
    subst hbytes
    exact not_takes_bytes h
  · intro hbytes
    exact takes_toJson hname hbytes hv

/-- A cell is valid for the schema of its own column exactly where it fits. -/
theorem cell_validates_iff {col : OutputColumn} (hname : Handled col.pgType) :
    validates (columnSchema col) (shownCell lib cell col.pgType) ↔ CellFits lib col cell := by
  rw [fitsInto_iff, FitsInto, CellFits,
    and_congr_right fun hshown => takes_shownCell_iff hname hshown]

end

end McpgSql.Schema
