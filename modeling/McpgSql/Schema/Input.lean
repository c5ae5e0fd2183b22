import McpgSql.Execute.Managed
import McpgSql.Schema.Output

/-!
# Derived input schemas

`build_input_schema` makes a schema of the placeholders of a statement and the types that
the server describes them with: every placeholder is required, and no other argument is
taken. Where a name stands at several placeholders, the type of the last one counts.

* `input_valid_iff`: the arguments that are valid for the schema are exactly those that
  bind, with values of the described types, and that name no other argument;
* `valid_args_first_page`: a stream binding finds no token in valid arguments, and
  binds the initial position in every call.
-/

namespace McpgSql.Schema

open Library McpgSql.Execute McpgSql.Stream

/-! ## Schemas -/

def buildInputSchema (params : List (String × Value)) : Value :=
  .object [("type", .str "object"), ("additionalProperties", .bool false),
    ("required", .arr (params.map fun param => .str param.1)),
    ("properties", .obj (Assoc.ofList params))]

/-- No schema where the server counts the placeholders otherwise. -/
def inputSchemaFromPgParams (paramNames pgTypeNames : List String) : Option Value :=
  if paramNames.length ≠ pgTypeNames.length then none
  else some (buildInputSchema ((paramNames.zip pgTypeNames).map fun param =>
    (param.1, pgTypeToJsonSchema param.2)))

/-- What `describe` says of the parameters: their types, or only how many they are. -/
inductive DescribedParams where
  | types (names : List String)
  | count (n : Nat)

def describeParameters (described : Except SqlError (Option DescribedParams))
    (paramNames : List String) : Except SqlError (Option Value) := do
  match ← described with
  | some (.types names) => .ok (inputSchemaFromPgParams paramNames names)
  | some (.count _) | none => .ok none

inductive SchemaDerive where
  | off
  | input
  | output
  | both
deriving DecidableEq, Repr

def SchemaDerive.includesInput (derive : SchemaDerive) : Bool := derive = .input || derive = .both

/-- The schema that a binding registers with; a failure leaves it without one. -/
def registeredInputSchema (derive : SchemaDerive)
    (described : Except SqlError (Option DescribedParams)) (stmt : PreparedStmt) : Option Value :=
  if derive.includesInput then (describeParameters described stmt.paramOrder).toOption.bind id
  else none

/-! ## Valid arguments -/

/-- The type of the last placeholder of a name. -/
def paramType (paramNames pgTypeNames : List String) (name : String) : Option String :=
  Assoc.get? (paramNames.zip pgTypeNames).reverse name

section

variable {names types : List String} {schema : Value}

theorem inputSchema_get (params : List (String × Value)) :
    (buildInputSchema params).get "type" = some (.str "object") ∧
    (buildInputSchema params).get "minimum" = none ∧
    (buildInputSchema params).get "maximum" = none ∧
    (buildInputSchema params).get "required" =
      some (.arr (params.map fun param => .str param.1)) ∧
    (buildInputSchema params).get "properties" = some (.obj (Assoc.ofList params)) ∧
    (buildInputSchema params).get "additionalProperties" = some (.bool false) := by
  simp [buildInputSchema, get_object, Assoc.get?]

/-- A parameter takes what its type takes, and another argument takes nothing. -/
theorem memberSchema_input (name : String) :
    memberSchema (buildInputSchema ((names.zip types).map fun param =>
        (param.1, pgTypeToJsonSchema param.2))) name =
      some (((paramType names types name).map pgTypeToJsonSchema).getD (.bool false)) := by
  obtain ⟨-, -, -, -, hproperties, hadditional⟩ := inputSchema_get ((names.zip types).map fun param =>
    (param.1, pgTypeToJsonSchema param.2))
  rw [memberSchema, hproperties, hadditional]
  show (Assoc.get? (Assoc.ofList _) name).or _ = _
  rw [Assoc.get?_ofList, ← List.map_reverse, Assoc.get?_map, paramType]
  cases Assoc.get? (names.zip types).reverse name <;> rfl

theorem input_takes_iff (params : List (String × Value)) (args : Value) :
    takes (buildInputSchema params) args ↔
      ∃ obj, args = .obj obj ∧ ∀ param ∈ params, Assoc.get? obj param.1 ≠ none := by
  obtain ⟨htype, hmin, hmax, hrequired, -⟩ := inputSchema_get params
  have hobj : ∃ map, buildInputSchema params = .obj map := ⟨_, rfl⟩
  rw [takes_iff hobj, htype, hmin, hmax, hrequired]
  cases args with
  | obj obj =>
    simp [typeOk, hasType, boundOk, requiredOk, Value.asStr, Option.isSome_iff_ne_none]
  | _ => simp [typeOk, hasType]

/-- No value is valid for `false`. -/
theorem not_validates_false (v : Value) : ¬validates (.bool false) v := by
  intro h
  have := validates.takes h
  cases this

theorem mem_names_of_paramType {name type : String} (h : paramType names types name = some type) :
    name ∈ names := by
  have hmem := Assoc.mem_of_get? h
  exact (List.of_mem_zip (List.mem_reverse.mp hmem)).1

theorem paramType_of_mem (hlength : names.length = types.length) {name : String}
    (h : name ∈ names) : paramType names types name ≠ none := by
  refine Assoc.get?_ne_none ?_
  rw [List.map_reverse, List.map_fst_zip (Nat.le_of_eq hlength)]
  exact List.mem_reverse.mpr h

/-- The arguments valid for a derived schema. -/
theorem schema_valid_iff (h : inputSchemaFromPgParams names types = some schema) :
    (∀ args, validates schema args → ∃ obj, args = .obj obj) ∧
    ∀ obj : OrdMap String Value, validates schema (.obj obj.entries) ↔
      (∀ arg ∈ obj.entries, arg.1 ∈ names) ∧
        ∃ bound, collectBoundParams (.obj obj.entries) names = .ok bound ∧
          ∀ param ∈ bound, ∃ type, paramType names types param.name = some type ∧
            validates (pgTypeToJsonSchema type) param.value := by
  unfold inputSchemaFromPgParams at h
  split at h
  · cases h
  · rename_i hlength
    rw [not_not] at hlength
    cases h
    have hmembers : ∀ {obj : List (String × Value)}, (∀ param ∈ (names.zip types).map fun param =>
        (param.1, pgTypeToJsonSchema param.2), Assoc.get? obj param.1 ≠ none) ↔
          ∀ name ∈ names, Assoc.get? obj name ≠ none := by
      intro obj
      rw [List.forall_mem_map]
      constructor
      · intro hall name hname
        rw [← List.map_fst_zip (Nat.le_of_eq hlength), List.mem_map] at hname
        obtain ⟨param, hparam, rfl⟩ := hname
        exact hall param hparam
      · exact fun hall param hparam => hall _ (List.of_mem_zip hparam).1
    refine ⟨fun args hargs => ?_, fun obj => ?_⟩
    · obtain ⟨obj, rfl, -⟩ := (input_takes_iff _ args).mp (validates.takes hargs)
      exact ⟨obj, rfl⟩
    · rw [validates_obj, input_takes_iff]
      simp only [memberSchema_input, Option.some.injEq, forall_eq']
      constructor
      · rintro ⟨⟨_, ⟨⟩, hrequired⟩, hvalid⟩
        refine ⟨fun arg harg => ?_, _, collectBoundParams_obj.mpr ⟨hmembers.mp hrequired, rfl⟩, ?_⟩
        · have harg := hvalid arg harg
          cases htype : paramType names types arg.1 with
          | none =>
            rw [htype] at harg
            exact absurd harg (not_validates_false _)
          | some type => exact mem_names_of_paramType htype
        · intro param hparam
          obtain ⟨name, hname, rfl⟩ := List.mem_map.mp hparam
          obtain ⟨type, htype⟩ := Option.ne_none_iff_exists'.mp (paramType_of_mem hlength hname)
          obtain ⟨v, hv⟩ := Option.ne_none_iff_exists'.mp (hmembers.mp hrequired name hname)
          refine ⟨type, htype, ?_⟩
          have hmember := hvalid (name, v) (Assoc.mem_of_get? hv)
          simp only [htype] at hmember
          simp only [hv]
          exact hmember
      · rintro ⟨hknown, bound, hbound, hvalid⟩
        obtain ⟨hall, rfl⟩ := collectBoundParams_obj.mp hbound
        refine ⟨⟨_, rfl, hmembers.mpr hall⟩, fun arg harg => ?_⟩
        obtain ⟨type, htype, hfits⟩ := hvalid _ (List.mem_map_of_mem (hknown arg harg))
        rw [Assoc.get?_of_mem obj.sorted harg] at hfits
        rw [htype]
        exact hfits

/-- A registered schema is made of the types that the server has for the placeholders. -/
theorem described_of_registered {derive : SchemaDerive}
    {described : Except SqlError (Option DescribedParams)} {stmt : PreparedStmt}
    (h : registeredInputSchema derive described stmt = some schema) :
    ∃ types, described = .ok (some (.types types)) ∧
      inputSchemaFromPgParams stmt.paramOrder types = some schema := by
  unfold registeredInputSchema at h
  split at h
  · cases described with
    | error e => cases h
    | ok described =>
      cases described with
      | none => cases h
      | some described =>
        cases described with
        | types types => exact ⟨types, rfl, h⟩
        | count n => cases h
  · cases h

/-- The arguments valid for a registered schema are those that name no other argument than
the placeholders, and that bind all of these to values of their types. -/
theorem input_valid_iff {derive : SchemaDerive}
    {described : Except SqlError (Option DescribedParams)} {stmt : PreparedStmt}
    (h : registeredInputSchema derive described stmt = some schema) :
    ∃ types, described = .ok (some (.types types)) ∧
      (∀ args, validates schema args → ∃ obj, args = .obj obj) ∧
      ∀ obj : OrdMap String Value, validates schema (.obj obj.entries) ↔
        (∀ arg ∈ obj.entries, arg.1 ∈ stmt.paramOrder) ∧
          ∃ bound, collectBoundParams (.obj obj.entries) stmt.paramOrder = .ok bound ∧
            ∀ param ∈ bound, ∃ type, paramType stmt.paramOrder types param.name = some type ∧
              validates (pgTypeToJsonSchema type) param.value := by
  obtain ⟨types, hdescribed, hschema⟩ := described_of_registered h
  exact ⟨types, hdescribed, schema_valid_iff hschema⟩

/-- A tenant's orders. -/
def tenantArgs : OrdMap String Value := OrdMap.empty.insert "tenant" (.ofNat 7)

def tenantStmt : PreparedStmt :=
  ⟨"SELECT id FROM orders WHERE tenant = $1 OR shop = $2", ["tenant", "tenant"], .postgres⟩

/-- The tenant is a number at the second placeholder. -/
theorem tenantArgs_valid : ∃ schema,
    registeredInputSchema .both (.ok (some (.types ["TEXT", "INT4"]))) tenantStmt = some schema ∧
      validates schema (.obj tenantArgs.entries) := by
  have h : registeredInputSchema .both (.ok (some (.types ["TEXT", "INT4"]))) tenantStmt = some _ :=
    rfl
  obtain ⟨_, ⟨⟩, -, hvalid⟩ := input_valid_iff h
  refine ⟨_, h, (hvalid tenantArgs).mpr ⟨by decide, _, rfl, fun param hparam => ?_⟩⟩
  have hparam : param = ⟨"tenant", .ofNat 7⟩ := by
    rcases List.mem_cons.mp hparam with rfl | hparam
    · rfl
    · exact List.mem_singleton.mp hparam
  rw [hparam]
  exact ⟨"INT4", rfl, by decide⟩

/-! ## Streams -/

/-- Valid arguments have no token, unless the statement binds one. -/
theorem cursor_of_valid {derive : SchemaDerive}
    {described : Except SqlError (Option DescribedParams)} {stmt : PreparedStmt}
    (h : registeredInputSchema derive described stmt = some schema) {obj : OrdMap String Value}
    (hvalid : validates schema (.obj obj.entries)) (hcursor : "_cursor" ∉ stmt.paramOrder) :
    obj.get? "_cursor" = none := by
  obtain ⟨types, -, hschema⟩ := described_of_registered h
  obtain ⟨hknown, -⟩ := ((schema_valid_iff hschema).2 obj).mp hvalid
  cases hget : obj.get? "_cursor" with
  | none => rfl
  | some token => exact absurd (hknown _ (OrdMap.mem_entries.mpr hget)) hcursor

/-- The arguments that are valid for its derived schema get the first page of a stream. -/
theorem valid_args_first_page {redact : String → String} {lib : CursorLib} {rt : ProfileRuntime}
    {streamRt : StreamRuntime} {backendName : String} {identity : Option PluginIdentity}
    {client : Option ClientInfo} {hint : Option IdempotencyHint} {derive : SchemaDerive}
    {described : Except SqlError (Option DescribedParams)} {obj : OrdMap String Value}
    {bound : List BoundParam} (hstream : rt.streamRt = some streamRt) (hplain : rt.awaitRt = none)
    (hexprs : "_cursor" ∉ exprNames rt.paramExprs)
    (hschema : registeredInputSchema derive described rt.stmt = some schema)
    (hvalid : validates schema (.obj obj.entries))
    (hbound : bindStmt redact lib rt backendName ⟨some (.ok (.obj obj.entries)), identity, client, hint⟩
      rt.stmt = .ok bound) :
    ∀ col ∈ streamRt.cfg.cursorColumns, ∀ v, ⟨StreamConfig.placeholder col, v⟩ ∈ bound →
      v = (streamRt.cfg.initial.get? col).getD .null := by
  intro col hcol v hmem
  obtain ⟨args, hargs, hall, hvalues⟩ := bindStmt_ok hbound
  obtain ⟨derived, positioned, hderived, hpositioned, rfl⟩ := (callArgs_plain hplain).mp hargs
  unfold positionedArgs at hpositioned
  rw [hstream] at hpositioned
  have hnames : "_cursor" ∉ rt.stmt.paramOrder := by
    -- a token that is a placeholder is taken out, and does not bind
    intro hnamed
    refine hall _ hnamed ?_
    rw [get_injectIdempotency (.inr (by decide))]
    exact get_cursor_of_apply hpositioned
  have htoken : derived.get "_cursor" = none := by
    rw [derivedArgs_cursor hexprs hderived]
    exact cursor_of_valid hschema hvalid hnames
  obtain ⟨keyset, hkeyset, hget⟩ := applyStreamCursor_ok hpositioned
  rw [htoken] at hkeyset
  cases hkeyset
  have hv := (hvalues _ hmem).2
  rw [get_injectIdempotency (.inr (placeholder_not_idempotency col)), hget, zip_map_eq,
    Assoc.get?_of_forall (v := (streamRt.cfg.initial.get? col).getD .null)] at hv
  · exact (Option.some.inj hv).symm
  · intro e he hk
    obtain ⟨c, -, rfl⟩ := List.mem_map.mp (List.mem_reverse.mp he)
    exact congrArg (fun c => (streamRt.cfg.initial.get? c).getD .null) (placeholder_inj hk)
  · simpa using ⟨col, hcol, rfl⟩

end

/-- The registered stream of all orders, by their id. -/
def orderPages : ProfileRuntime where
  stmt := ⟨"SELECT id FROM orders WHERE id > $1", ["_after_id"], .postgres⟩
  streamRt := some ordersStream

/-- A caller that asks for the page after the seventh order gets the first page. -/
theorem orderPages_first : ∃ bound,
    bindStmt id (sampleLib []) orderPages "orders"
      { payload := some (.ok (.obj (OrdMap.empty.insert "_after_id" (Value.ofNat 7)).entries)) }
      orderPages.stmt = .ok bound ∧
    ∀ v, ⟨"_after_id", v⟩ ∈ bound → v = .null := by
  have hschema : registeredInputSchema .input (.ok (some (.types ["INT8"]))) orderPages.stmt = some _ :=
    rfl
  obtain ⟨bound, hbound⟩ : ∃ bound, bindStmt id (sampleLib []) orderPages "orders"
      { payload := some (.ok (.obj (OrdMap.empty.insert "_after_id" (Value.ofNat 7)).entries)) }
      orderPages.stmt = .ok bound := ⟨_, rfl⟩
  refine ⟨bound, hbound, fun v hv => ?_⟩
  exact valid_args_first_page rfl rfl (by decide) hschema (by decide) hbound "id"
    (by decide) v hv

end McpgSql.Schema
