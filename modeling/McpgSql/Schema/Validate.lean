import McpgSql.Json
import McpgSql.Library.Binary64

/-!
# JSON Schema

Which values a schema takes, by the keywords that derived schemas are made of: `type`,
`minimum` and `maximum`, `required`, `properties` and `additionalProperties`, and
`items`. Other keywords, such as `format`, say nothing. A schema is itself a JSON value.

`takes` is what the keywords ask of a value by itself; `validates` goes down into the
items of arrays and the members of objects.
-/

namespace McpgSql.Schema

open Library

/-! ## Keywords -/

/-- The number that a JSON number stands for. -/
def numberValue : Number → ℚ
  | .pos n => n
  | .neg n => -(n + 1)
  | .float bits => Binary64.value bits

/-- The value is of a type of JSON Schema. -/
def hasType (v : Value) (type : String) : Bool :=
  match v with
  | .null => type = "null"
  | .bool _ => type = "boolean"
  | .num n => type = "number" || (type = "integer" && (numberValue n).den = 1)
  | .str _ => type = "string"
  | .arr _ => type = "array"
  | .obj _ => type = "object"

/-- `type`: one type, or an array of them. -/
def typeOk (v : Value) : Option Value → Bool
  | none => true
  | some (.str type) => hasType v type
  | some (.arr types) => types.any fun type => (type.asStr.map (hasType v)).getD false
  | some _ => false

/-- `minimum` and `maximum`, for numbers. -/
def boundOk (v : Value) (within : ℚ → ℚ → Bool) : Option Value → Bool
  | some (.num bound) => match v with
    | .num n => within (numberValue bound) (numberValue n)
    | _ => true
  | _ => true

/-- `required`, for objects. -/
def requiredOk (v : Value) : Option Value → Bool
  | some (.arr names) => match v with
    | .obj members => names.all fun name =>
        (name.asStr.map fun name => (Assoc.get? members name).isSome).getD false
    | _ => true
  | _ => true

/-- What a schema asks of a value itself. `true` and `false` are schemas too. -/
def takes (schema v : Value) : Bool :=
  match schema with
  | .bool b => b
  | schema => typeOk v (schema.get "type") &&
      boundOk v (fun lo x => lo ≤ x) (schema.get "minimum") &&
      boundOk v (fun hi x => x ≤ hi) (schema.get "maximum") &&
      requiredOk v (schema.get "required")

/-- The schema of the members of this name: that of `properties`, or else
`additionalProperties`. -/
def memberSchema (schema : Value) (name : String) : Option Value :=
  (((schema.get "properties").bind (·.get name)).or (schema.get "additionalProperties"))

/-! ## Validation -/

mutual

/-- The value is valid for the schema. -/
def validates : Value → Value → Bool
  | schema, .arr items => takes schema (.arr items) && itemsValid (schema.get "items") items
  | schema, .obj members => takes schema (.obj members) && membersValid schema members
  | schema, .null => takes schema .null
  | schema, .bool b => takes schema (.bool b)
  | schema, .num n => takes schema (.num n)
  | schema, .str s => takes schema (.str s)

def itemsValid : Option Value → List Value → Bool
  | _, [] => true
  | schema, v :: items => (match schema with
    | some schema => validates schema v
    | none => true) && itemsValid schema items

def membersValid : Value → List (String × Value) → Bool
  | _, [] => true
  | schema, (name, v) :: members => (match memberSchema schema name with
    | some schema => validates schema v
    | none => true) && membersValid schema members

end

variable {schema v : Value}

/-- A member of an object that is written out. -/
theorem get_object (members : List (String × Value)) (key : String) :
    (Value.object members).get key = Assoc.get? members.reverse key :=
  Assoc.get?_ofList members key

theorem itemsValid_iff {sub : Option Value} {items : List Value} :
    itemsValid sub items ↔ ∀ v ∈ items, ∀ s, sub = some s → validates s v := by
  induction items with
  | nil => simp [itemsValid]
  | cons v items ih =>
    cases sub with
    | none => simp [itemsValid, ih]
    | some s => simp [itemsValid, ih]

theorem membersValid_iff {members : List (String × Value)} :
    membersValid schema members ↔
      ∀ m ∈ members, ∀ s, memberSchema schema m.1 = some s → validates s m.2 := by
  induction members with
  | nil => simp [membersValid]
  | cons m members ih =>
    obtain ⟨name, v⟩ := m
    rw [membersValid, Bool.and_eq_true, ih, List.forall_mem_cons]
    cases memberSchema schema name <;> simp

theorem validates_arr {items : List Value} : validates schema (.arr items) ↔
    takes schema (.arr items) ∧ ∀ v ∈ items, ∀ s, schema.get "items" = some s → validates s v := by
  rw [validates, Bool.and_eq_true, itemsValid_iff]

theorem validates_obj {members : List (String × Value)} : validates schema (.obj members) ↔
    takes schema (.obj members) ∧
      ∀ m ∈ members, ∀ s, memberSchema schema m.1 = some s → validates s m.2 := by
  rw [validates, Bool.and_eq_true, membersValid_iff]

/-- A valid value is one that the schema takes. -/
theorem validates.takes (h : validates schema v) : takes schema v := by
  cases v with
  | arr items => exact (validates_arr.mp h).1
  | obj members => exact (validates_obj.mp h).1
  | _ => rwa [validates] at h

/-- A schema that does not go down: the columns of a query have such schemas. -/
structure Flat (schema : Value) : Prop where
  properties : schema.get "properties" = none
  additionalProperties : schema.get "additionalProperties" = none
  items : schema.get "items" = none

theorem Flat.validates_iff (h : Flat schema) : validates schema v ↔ Schema.takes schema v := by
  refine ⟨validates.takes, fun ht => ?_⟩
  cases v with
  | arr items =>
    refine validates_arr.mpr ⟨ht, fun v _ s hs => ?_⟩
    rw [h.items] at hs
    cases hs
  | obj members =>
    refine validates_obj.mpr ⟨ht, fun m _ s hs => ?_⟩
    rw [memberSchema, h.properties, h.additionalProperties] at hs
    cases hs
  | _ => rwa [validates]

end McpgSql.Schema
