import McpgSql.Execute.Registration

/-!
# Specs of bindings

How `register_profile` reads a spec. `SqlBackendConfig` is read by `serde` with
`deny_unknown_fields`, so that every member of an object must be one of its fields
(`known_of_visitMap`); an array gives the fields by position. What the types of the
fields make of their values is a parameter.

`register_profile` also looks for the list of secrets that the gateway has put into
the spec. A spec with that list is refused (`hint_refused`), and no profile has one
(`secretRefs_of_registerProfile`).
-/

namespace McpgSql.Plugin

open Library McpgSql.Execute McpgSql.Pool McpgSql.Cache

/-! ## Fields -/

/-- The fields of `SqlBackendConfig`. -/
inductive SpecField where
  | driver
  | url
  | pool
  | allowPrivateBackends
  | query
  | sessionVars
  | schema
  | circuitBreaker
  | listQuery
  | await
  | isolationLevel
  | cache
  | cost
  | auth
deriving DecidableEq, Repr

namespace SpecField

/-- In the order of their declaration. -/
def all : List SpecField :=
  [.driver, .url, .pool, .allowPrivateBackends, .query, .sessionVars, .schema, .circuitBreaker,
    .listQuery, .await, .isolationLevel, .cache, .cost, .auth]

def name : SpecField → String
  | .driver => "driver"
  | .url => "url"
  | .pool => "pool"
  | .allowPrivateBackends => "allow_private_backends"
  | .query => "query"
  | .sessionVars => "session_vars"
  | .schema => "schema"
  | .circuitBreaker => "circuit_breaker"
  | .listQuery => "list_query"
  | .await => "await"
  | .isolationLevel => "isolation_level"
  | .cache => "cache"
  | .cost => "cost"
  | .auth => "auth"

/-- `#[serde(default)]`. -/
def hasDefault : SpecField → Bool
  | .driver | .url | .query => false
  | _ => true

def ofName (name : String) : Option SpecField := all.find? fun f => f.name = name

end SpecField

/-- The fields that a spec gives, with their values. -/
abbrev Fields (V : Type) := List (SpecField × V)

def unknownField (name : String) : String :=
  "unknown field `" ++ name ++ "`, expected one of " ++
    ", ".intercalate (SpecField.all.map fun f => "`" ++ f.name ++ "`")

section

variable {V : Type} (read : SpecField → Value → Except String V) (unexpected : Value → String)

/-- The members of an object one by one. -/
def visitMap : List (String × Value) → Fields V → Except String (Fields V)
  | [], fields => .ok fields
  | (name, v) :: members, fields => match SpecField.ofName name with
    | none => .error (unknownField name)
    | some f =>
      if fields.any (·.1 = f) then .error ("duplicate field `" ++ f.name ++ "`")
      else match read f v with
        | .error e => .error e
        | .ok value => visitMap members (fields ++ [(f, value)])

/-- The items of an array, for the fields from the `i`th on, and what is left of them. -/
def visitSeq : List SpecField → Nat → List Value → Except String (Fields V × List Value)
  | [], _, items => .ok ([], items)
  | f :: fields, i, [] =>
    if f.hasDefault then visitSeq fields (i + 1) []
    else .error ("invalid length " ++ toString i ++
      ", expected struct SqlBackendConfig with 14 elements")
  | f :: fields, i, v :: items => do
    let value ← read f v
    let (rest, left) ← visitSeq fields (i + 1) items
    return ((f, value) :: rest, left)

/-- `serde_json::from_value` at `SqlBackendConfig`; `unexpected` names a value that is neither
an object nor an array. -/
def fromValue : Value → Except String (Fields V)
  | .obj members => do
    let fields ← visitMap read members []
    match SpecField.all.find? fun f => !f.hasDefault && !fields.any (·.1 = f) with
    | some f => .error ("missing field `" ++ f.name ++ "`")
    | none => .ok fields
  | .arr items => do
    let (fields, left) ← visitSeq read SpecField.all 0 items
    if left.isEmpty then .ok fields
    else .error ("invalid length " ++ toString items.length ++ ", expected fewer elements in array")
  | v => .error ("invalid type: " ++ unexpected v ++ ", expected struct SqlBackendConfig")

end

/-! ## Registration -/

/-- What `register_profile` calls: the types of the fields, the compilers and drivers, and
the database. -/
structure RegisterEnv (V P : Type) where
  read : SpecField → Value → Except String V
  unexpected : Value → String
  /-- The configuration of the fields, the defaults filled in. -/
  config : Fields V → BindingConfig
  creds : Fields V → CredConfig
  syn : CredSyntax
  redact : String → String
  /-- The CEL compiler, of a predicate. -/
  compiles : String → Except String Unit
  files : Files
  compileExprs : Fields V → Except SqlError Unit
  /-- The drivers of this build. -/
  drivers : DriverKind → Bool
  /-- `build_pool`, `health_check` and `verify_cancel_privilege`. -/
  connect : Fields V → Except SqlError P
  compileCost : Fields V → Except SqlError Unit

/-- What is registered of a binding. -/
structure Profile (P : Type) where
  pool : P
  prepared : Prepared
  hasCredRefs : Bool
  /-- The secrets whose rotation the profile listens to. -/
  secretRefs : List String

/-- The hint of the gateway: the texts of the list, if there is one. -/
def secretRefs (spec : Value) : List String :=
  match spec.get "__mcpg_secret_refs" with
  | some (.arr items) => items.filterMap Value.asStr
  | _ => []

/-- The spec with the hint. -/
def withSecretRefs (members : List (String × Value)) (refs : List String) : Value :=
  .obj (Assoc.insert members "__mcpg_secret_refs" (.arr (refs.map .str)))

variable {V P : Type}

/-- `register_profile`, up to the insertion. -/
def registerProfile (env : RegisterEnv V P) (draining : Bool) (backendName : String)
    (spec : Value) : Except BackendError (Profile P) :=
  if draining then .error (.transport
    ("sql binding plugin is draining; refusing register_profile for '" ++ backendName ++ "'"))
  else do
    let fields ← (fromValue env.read env.unexpected spec).mapError fun e =>
      .invalidSpec ("SQL binding spec: " ++ e)
    let cfg := env.config fields
    cfg.validate.mapError (BackendError.ofSql env.redact)
    (env.compileExprs fields).mapError (BackendError.ofSql env.redact)
    if !env.drivers cfg.driver then
      .error (.invalidSpec ("driver '" ++ cfg.driver.asStr ++ "' is not compiled into this build"))
    else do
      let stmt ← (cfg.prepareStmt env.files).mapError (BackendError.ofSql env.redact)
      let pool ← (env.connect fields).mapError (BackendError.ofSql env.redact)
      let list ← prepareList cfg
      let awaitRt ← prepareAwait env.compiles cfg
      (env.compileCost fields).mapError (BackendError.ofSql env.redact)
      return {
        pool, prepared := { stmt, list, awaitRt, tracking := cfg.trackingStmt }
        hasCredRefs := configHasCredRefs env.syn (env.creds fields)
        secretRefs := secretRefs spec }

/-! ## What is accepted -/

section

variable {read : SpecField → Value → Except String V} {members : List (String × Value)}
  {fields given : Fields V}

theorem visitMap_cons_ok {name : String} {v : Value}
    (h : visitMap read ((name, v) :: members) given = .ok fields) :
    ∃ f value, SpecField.ofName name = some f ∧ given.any (·.1 = f) = false ∧
      read f v = .ok value ∧ visitMap read members (given ++ [(f, value)]) = .ok fields := by
  rw [visitMap] at h
  split at h
  · cases h
  · rename_i f hf
    split at h
    · cases h
    · rename_i hnew
      split at h
      · cases h
      · rename_i value hread
        exact ⟨f, value, hf, Bool.eq_false_iff.mpr hnew, hread, h⟩

/-- Every member of an object that is accepted is a field. -/
theorem known_of_visitMap (h : visitMap read members given = .ok fields) :
    ∀ member ∈ members, ∃ f, SpecField.ofName member.1 = some f := by
  induction members generalizing given with
  | nil => exact nofun
  | cons member members ih =>
    obtain ⟨f, value, hf, -, -, hrest⟩ := visitMap_cons_ok h
    intro m hm
    rcases List.mem_cons.mp hm with rfl | hm
    · exact ⟨f, hf⟩
    · exact ih hrest m hm

/-- A member that is no field is what the object is refused for, wherever it stands. -/
theorem visitMap_insert_unknown {name : String} {v : Value} (hname : SpecField.ofName name = none)
    (h : visitMap read members given = .ok fields) :
    visitMap read (Assoc.insert members name v) given = .error (unknownField name) := by
  induction members generalizing given with
  | nil => simp only [Assoc.insert, visitMap, hname]
  | cons member members ih =>
    obtain ⟨j, w⟩ := member
    obtain ⟨f, value, hf, hnew, hread, hrest⟩ := visitMap_cons_ok h
    rw [Assoc.insert]
    split
    · simp only [visitMap, hname]
    · split
      · simp only [visitMap, hname]
      · rw [visitMap, hf]
        simp only [hnew, hread, Bool.false_eq_true, if_false]
        exact ih hrest

theorem ofName_secretRefs : SpecField.ofName "__mcpg_secret_refs" = none := by decide

end

section

variable {env : RegisterEnv V P} {draining : Bool} {backendName : String} {spec : Value}
  {profile : Profile P}

/-- A profile comes from a spec that was read while the plugin was not draining. -/
theorem registerProfile_ok (h : registerProfile env draining backendName spec = .ok profile) :
    draining = false ∧ (∃ fields, fromValue env.read env.unexpected spec = .ok fields) ∧
      profile.secretRefs = secretRefs spec := by
  rw [registerProfile] at h
  split at h
  · cases h
  · rename_i hdraining
    simp only [bind_eq_ok, mapError_eq_ok] at h
    obtain ⟨fields, hfields, _, -, _, -, h⟩ := h
    split at h
    · cases h
    · simp only [bind_eq_ok, pure_eq_ok] at h
      obtain ⟨_, -, _, -, _, -, _, -, _, -, rfl⟩ := h
      exact ⟨by simpa using hdraining, ⟨fields, hfields⟩, rfl⟩

theorem visitMap_of_fromValue {read : SpecField → Value → Except String V}
    {unexpected : Value → String} {members : List (String × Value)} {fields : Fields V}
    (h : fromValue read unexpected (.obj members) = .ok fields) :
    visitMap read members [] = .ok fields := by
  rw [fromValue, bind_eq_ok] at h
  obtain ⟨fields', hvisit, h⟩ := h
  split at h
  · cases h
  · cases h
    exact hvisit

/-- No profile listens to a rotation. -/
theorem secretRefs_of_registerProfile
    (h : registerProfile env draining backendName spec = .ok profile) : profile.secretRefs = [] := by
  obtain ⟨-, ⟨fields, hfields⟩, hrefs⟩ := registerProfile_ok h
  rw [hrefs, secretRefs]
  cases spec with
  | obj members =>
    cases hget : Assoc.get? members "__mcpg_secret_refs" with
    | none =>
      rw [Value.get, hget]
    | some v =>
      obtain ⟨f, hf⟩ := known_of_visitMap (visitMap_of_fromValue hfields) _ (Assoc.mem_of_get? hget)
      rw [ofName_secretRefs] at hf
      cases hf
  | _ => rfl

/-- The hint makes a spec one that is refused. -/
theorem hint_refused {members : List (String × Value)}
    (h : registerProfile env draining backendName (.obj members) = .ok profile)
    (refs : List String) :
    registerProfile env draining backendName (withSecretRefs members refs) =
      .error (.invalidSpec ("SQL binding spec: " ++ unknownField "__mcpg_secret_refs")) := by
  obtain ⟨hdraining, ⟨fields, hfields⟩, -⟩ := registerProfile_ok h
  have hvisit := visitMap_insert_unknown (v := .arr (refs.map .str)) ofName_secretRefs
    (visitMap_of_fromValue hfields)
  rw [registerProfile, hdraining, withSecretRefs, fromValue, hvisit]
  rfl

end

end McpgSql.Plugin
