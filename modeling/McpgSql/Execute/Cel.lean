import McpgSql.Changes.Plan
import McpgSql.Driver.Postgres
import McpgSql.Execute.ParamExprs

/-!
# JSON and CEL values

The conversions between JSON and the values of CEL expressions: `json_to_cel` and
`cel_to_json` of the computed parameters, and `cel_value_from_json`, which the
predicates and the prices use.

* `celToJson_jsonToCel`: a JSON value is the same after both conversions;
* `celValueFromJson_eq`: both conversions to CEL agree;
* `at_jsonToCel`: and so with every part of a value;
* `arguments_survive`: an expression that returns a part of the arguments binds it.
-/

namespace McpgSql

open Library

/-! ## Values -/

inductive CelKey where
  | string (s : String)
  | int (i : Int)
  | uint (n : Nat)
  | bool (b : Bool)
deriving DecidableEq, Repr

/-- A value of CEL. The entries of a map are those of a hash map, in the order in which
they came into it; a duration is in nanoseconds, a timestamp in nanoseconds and its offset. -/
inductive CelValue where
  | null
  | bool (b : Bool)
  | int (i : Int)
  | uint (n : Nat)
  | float (bits : BitVec 64)
  | string (s : String)
  | bytes (bs : List UInt8)
  | list (items : List CelValue)
  | map (entries : List (CelKey × CelValue))
  | duration (nanos : Int)
  | timestamp (nanos offset : Int)
  /-- A value of another kind, by its debug text. -/
  | other (debug : String)
deriving Repr

/-- What the conversions take from their libraries: the double nearest to an integer, texts,
base64, CEL's error for a part that is not there, and the order in which the entries of a hash
map come out of it. -/
structure CelLib where
  intToF64 : Int → BitVec 64
  numberText : Number → String
  base64 : List UInt8 → String
  durationText : Int → String
  timestampText : Int → Int → String
  noSuchKey : String
  order : List (CelKey × CelValue) → List (String × Value) → List (String × Value)

/-- A hash map gives each of its entries once. -/
def CelLib.Lawful (lib : CelLib) : Prop := ∀ entries l, (lib.order entries l).Perm l

/-- `HashMap::insert`: an entry with the key `k` is replaced. -/
def hashInsert (m : List (CelKey × CelValue)) (k : CelKey) (v : CelValue) :
    List (CelKey × CelValue) :=
  if k ∈ m.map Prod.fst then m.map fun e => if e.1 = k then (k, v) else e
  else m ++ [(k, v)]

/-- The hash map that entries were inserted into one after the other. -/
def hashOf (entries : List (CelKey × CelValue)) : List (CelKey × CelValue) :=
  entries.foldl (fun m e => hashInsert m e.1 e.2) []

/-! ## Conversions -/

namespace Number

def asU64 : Number → Option Nat
  | pos n => some n
  | _ => none

/-- `Number::as_f64`: every number has one. -/
def asF64 (lib : CelLib) : Number → Option (BitVec 64)
  | pos n => some (lib.intToF64 n)
  | neg n => some (lib.intToF64 (.negSucc n))
  | float bits => some bits

end Number

section

variable (lib : CelLib)

mutual

/-- `json_to_cel` of the computed parameters. -/
def jsonToCel : Value → CelValue
  | .null => .null
  | .bool b => .bool b
  | .num n =>
    match Changes.asI64 n with
    | some i => .int i
    | none => match n.asU64 with
      | some u => .uint u
      | none => match n.asF64 lib with
        | some f => .float f
        | none => .string (lib.numberText n)
  | .str s => .string s
  | .arr items => .list (itemsToCel items)
  | .obj members => .map (hashOf (membersToCel members))

def itemsToCel : List Value → List CelValue
  | [] => []
  | v :: items => jsonToCel v :: itemsToCel items

/-- The entries that an object inserts. -/
def membersToCel : List (String × Value) → List (CelKey × CelValue)
  | [] => []
  | (k, v) :: members => (.string k, jsonToCel v) :: membersToCel members

end

mutual

/-- `cel_value_from_json` of the predicates and the prices. -/
def celValueFromJson : Value → CelValue
  | .null => .null
  | .bool b => .bool b
  | .num n =>
    match Changes.asI64 n with
    | some i => .int i
    | none => match n.asU64 with
      | some u => .uint u
      | none => match n.asF64 lib with
        | some f => .float f
        | none => .null
  | .str s => .string s
  | .arr items => .list (celItemsFromJson items)
  | .obj members => .map (hashOf (celMembersFromJson members))

def celItemsFromJson : List Value → List CelValue
  | [] => []
  | v :: items => celValueFromJson v :: celItemsFromJson items

def celMembersFromJson : List (String × Value) → List (CelKey × CelValue)
  | [] => []
  | (k, v) :: members => (.string k, celValueFromJson v) :: celMembersFromJson members

end

/-- The name that a key becomes. -/
def CelKey.name : CelKey → String
  | .string s => s
  | .int i => toString i
  | .uint n => toString n
  | .bool b => if b then "true" else "false"

mutual

/-- `cel_to_json`; what JSON has no value for becomes a text. -/
def celToJson : CelValue → Value
  | .null => .null
  | .bool b => .bool b
  | .int i => .ofInt i
  | .uint n => .ofNat n
  | .float bits => Driver.fromF64 bits
  | .string s => .str s
  | .bytes bs => .str (lib.base64 bs)
  | .list items => .arr (itemsToJson items)
  | .map entries => .obj (Assoc.ofList (lib.order entries (entriesToJson entries)))
  | .duration nanos => .str (lib.durationText nanos)
  | .timestamp nanos offset => .str (lib.timestampText nanos offset)
  | .other debug => .str debug

def itemsToJson : List CelValue → List Value
  | [] => []
  | v :: items => celToJson v :: itemsToJson items

def entriesToJson : List (CelKey × CelValue) → List (String × Value)
  | [] => []
  | (k, v) :: entries => (k.name, celToJson v) :: entriesToJson entries

end

end

/-! ## JSON values -/

/-- A number of `serde_json`: a `u64`, a negative `i64` or a finite double. -/
def Number.InRange : Number → Prop
  | .pos n => n < 2 ^ 64
  | .neg n => n < 2 ^ 63
  | .float bits => bits.toNat / 2 ^ 52 % 2 ^ 11 ≠ 2047

/-- A value that `serde_json` can hold. -/
inductive Value.WellFormed : Value → Prop
  | null : WellFormed .null
  | bool (b : Bool) : WellFormed (.bool b)
  | num {n : Number} : n.InRange → WellFormed (.num n)
  | str (s : String) : WellFormed (.str s)
  | arr {items : List Value} : (∀ v ∈ items, WellFormed v) → WellFormed (.arr items)
  | obj {members : List (String × Value)} : Assoc.Sorted members →
      (∀ e ∈ members, WellFormed e.2) → WellFormed (.obj members)

/-- A step into a value: a member, or an item. -/
inductive PathStep where
  | key (k : String)
  | index (i : Nat)
deriving DecidableEq, Repr

def Value.step : Value → PathStep → Option Value
  | .obj members, .key k => Assoc.get? members k
  | .arr items, .index i => items[i]?
  | _, _ => none

/-- The part of a value that a path leads to. -/
def Value.at (v : Value) (path : List PathStep) : Option Value := path.foldlM Value.step v

def CelValue.step : CelValue → PathStep → Option CelValue
  | .map entries, .key k => Assoc.get? entries (.string k)
  | .list items, .index i => items[i]?
  | _, _ => none

/-- The part of a CEL value that a path leads to. -/
def CelValue.at (v : CelValue) (path : List PathStep) : Option CelValue :=
  path.foldlM CelValue.step v

/-! ## Hash maps -/

theorem hashInsert_of_notMem {m : List (CelKey × CelValue)} {k : CelKey}
    (h : k ∉ m.map Prod.fst) (v : CelValue) : hashInsert m k v = m ++ [(k, v)] :=
  if_neg h

/-- Entries of distinct keys are the entries of their hash map. -/
theorem hashOf_of_nodup {entries : List (CelKey × CelValue)}
    (h : (entries.map Prod.fst).Nodup) : hashOf entries = entries := by
  have hfold : ∀ m : List (CelKey × CelValue), ((m ++ entries).map Prod.fst).Nodup →
      entries.foldl (fun m e => hashInsert m e.1 e.2) m = m ++ entries := by
    clear h
    induction entries with
    | nil => simp
    | cons e entries ih =>
      intro m hm
      have hnew : e.1 ∉ m.map Prod.fst := by
        rw [List.map_append, List.map_cons, List.nodup_append] at hm
        intro hmem
        exact hm.2.2 _ hmem _ List.mem_cons_self rfl
      rw [List.foldl_cons, hashInsert_of_notMem hnew, ih, List.append_assoc]
      · rfl
      · simpa using hm
  exact hfold [] h

/-! ## The conversions are inverse -/

section

variable {lib : CelLib} {v : Value}

theorem itemsToCel_eq_map (items : List Value) : itemsToCel lib items = items.map (jsonToCel lib) := by
  induction items with
  | nil => rfl
  | cons v items ih => rw [itemsToCel, ih, List.map_cons]

theorem membersToCel_eq_map (members : List (String × Value)) :
    membersToCel lib members = members.map fun e => (.string e.1, jsonToCel lib e.2) := by
  induction members with
  | nil => rfl
  | cons e members ih => rw [membersToCel, ih, List.map_cons]

theorem itemsToJson_eq_map (items : List CelValue) :
    itemsToJson lib items = items.map (celToJson lib) := by
  induction items with
  | nil => rfl
  | cons v items ih => rw [itemsToJson, ih, List.map_cons]

theorem entriesToJson_eq_map (entries : List (CelKey × CelValue)) :
    entriesToJson lib entries = entries.map fun e => (e.1.name, celToJson lib e.2) := by
  induction entries with
  | nil => rfl
  | cons e entries ih => rw [entriesToJson, ih, List.map_cons]

theorem celItemsFromJson_eq_map (items : List Value) :
    celItemsFromJson lib items = items.map (celValueFromJson lib) := by
  induction items with
  | nil => rfl
  | cons v items ih => rw [celItemsFromJson, ih, List.map_cons]

theorem celMembersFromJson_eq_map (members : List (String × Value)) :
    celMembersFromJson lib members =
      members.map fun e => (.string e.1, celValueFromJson lib e.2) := by
  induction members with
  | nil => rfl
  | cons e members ih => rw [celMembersFromJson, ih, List.map_cons]

/-- The keys of a converted object are as distinct as its names. -/
theorem hashOf_membersToCel {members : List (String × Value)} (h : Assoc.Sorted members) :
    hashOf (membersToCel lib members) =
      members.map fun e => (.string e.1, jsonToCel lib e.2) := by
  rw [membersToCel_eq_map]
  apply hashOf_of_nodup
  have hkeys := (Assoc.nodup_keys h).map (f := CelKey.string) fun a b hab => CelKey.string.inj hab
  rw [List.map_map] at hkeys ⊢
  exact hkeys

theorem jsonToCel_int {n : Nat} (h : n < 2 ^ 63) :
    jsonToCel lib (.num (.pos n)) = .int n := by
  rw [jsonToCel, Changes.asI64, if_pos h]

theorem jsonToCel_uint {n : Nat} (h : ¬n < 2 ^ 63) :
    jsonToCel lib (.num (.pos n)) = .uint n := by
  rw [jsonToCel, Changes.asI64, if_neg h]
  rfl

/-- A number is the same after both conversions. -/
theorem celToJson_num {n : Number} (h : n.InRange) :
    celToJson lib (jsonToCel lib (.num n)) = .num n := by
  cases n with
  | pos n =>
    by_cases hn : n < 2 ^ 63
    · rw [jsonToCel_int hn, celToJson]
      rfl
    · rw [jsonToCel_uint hn, celToJson]
      rfl
  | neg n => rfl
  | float bits =>
    show Driver.fromF64 bits = _
    rw [Driver.fromF64, if_neg h]

theorem celToJson_jsonToCel (hlib : lib.Lawful) (hv : v.WellFormed) :
    celToJson lib (jsonToCel lib v) = v := by
  induction hv with
  | null | bool | str => simp only [jsonToCel, celToJson]
  | num h => exact celToJson_num h
  | @arr items _ ih =>
    have hitems : items.map (celToJson lib ∘ jsonToCel lib) = items := by
      conv => rhs; rw [← List.map_id items]
      exact List.map_congr_left ih
    rw [jsonToCel, itemsToCel_eq_map, celToJson, itemsToJson_eq_map, List.map_map, hitems]
  | @obj members hsorted _ ih =>
    have hmembers : entriesToJson lib (members.map fun e => (.string e.1, jsonToCel lib e.2)) =
        members := by
      rw [entriesToJson_eq_map, List.map_map]
      conv => rhs; rw [← List.map_id members]
      apply List.map_congr_left
      intro e he
      simp only [Function.comp_apply, CelKey.name, ih e he, id_eq]
    rw [jsonToCel, hashOf_membersToCel hsorted, celToJson, hmembers]
    exact congrArg Value.obj (Assoc.ofList_of_perm hsorted (hlib _ _))

/-- Both conversions to CEL agree. -/
theorem celValueFromJson_eq (hv : v.WellFormed) : celValueFromJson lib v = jsonToCel lib v := by
  induction hv with
  | null | bool | str => simp only [jsonToCel, celValueFromJson]
  | @num n _ =>
    rw [celValueFromJson, jsonToCel]
    cases n <;> rfl
  | @arr items _ ih =>
    rw [celValueFromJson, jsonToCel, celItemsFromJson_eq_map, itemsToCel_eq_map,
      List.map_congr_left ih]
  | @obj members hsorted _ ih =>
    rw [celValueFromJson, jsonToCel, celMembersFromJson_eq_map, membersToCel_eq_map,
      List.map_congr_left fun e he => congrArg (Prod.mk _) (ih e he)]

/-! ## Parts -/

theorem Value.WellFormed.step (hv : v.WellFormed) {s : PathStep} {part : Value}
    (h : v.step s = some part) : part.WellFormed := by
  cases hv with
  | null | bool | num | str => cases s <;> cases h
  | arr hitems =>
    cases s with
    | key k => cases h
    | index i => exact hitems part (List.mem_of_getElem? h)
  | obj _ hmembers =>
    cases s with
    | key k => exact hmembers _ (Assoc.mem_of_get? h)
    | index i => cases h

theorem get?_entries {α β : Type} (f : α → β) (members : List (String × α)) (k : String) :
    Assoc.get? (members.map fun e => (CelKey.string e.1, f e.2)) (.string k) =
      (Assoc.get? members k).map f := by
  induction members with
  | nil => rfl
  | cons e members ih =>
    simp only [List.map_cons, Assoc.get?, CelKey.string.injEq, ih]
    split <;> rfl

theorem step_jsonToCel (hv : v.WellFormed) (s : PathStep) :
    (jsonToCel lib v).step s = (v.step s).map (jsonToCel lib) := by
  cases hv with
  | null | bool | str => cases s <;> rfl
  | @num n _ =>
    have hnone : ∀ c, jsonToCel lib (.num n) = c → c.step s = none → (jsonToCel lib (.num n)).step s =
        (Value.step (.num n) s).map (jsonToCel lib) := by
      intro c hc hstep
      rw [hc, hstep]
      cases s <;> rfl
    cases n with
    | pos n =>
      by_cases hn : n < 2 ^ 63
      · exact hnone _ (jsonToCel_int hn) (by cases s <;> rfl)
      · exact hnone _ (jsonToCel_uint hn) (by cases s <;> rfl)
    | neg n | float bits => exact hnone _ rfl (by cases s <;> rfl)
  | @arr items _ =>
    cases s with
    | key k => rfl
    | index i =>
      rw [jsonToCel, itemsToCel_eq_map, CelValue.step, List.getElem?_map]
      rfl
  | @obj members hsorted _ =>
    cases s with
    | key k =>
      rw [jsonToCel, hashOf_membersToCel hsorted]
      exact get?_entries (jsonToCel lib) members k
    | index i => rfl

/-- A part of the converted value is the part of the value, converted. -/
theorem at_jsonToCel (hv : v.WellFormed) (path : List PathStep) :
    (jsonToCel lib v).at path = (v.at path).map (jsonToCel lib) := by
  induction path generalizing v with
  | nil => rfl
  | cons s path ih =>
    have hnext : (jsonToCel lib v).at (s :: path) =
        ((jsonToCel lib v).step s).bind fun part => part.at path := rfl
    rw [hnext, step_jsonToCel hv]
    cases hstep : v.step s with
    | none => simp [Value.at, hstep]
    | some part =>
      rw [Option.map_some, Option.bind_some, ih (hv.step hstep)]
      simp [Value.at, hstep]

theorem Value.WellFormed.at (hv : v.WellFormed) {path : List PathStep} {part : Value}
    (h : v.at path = some part) : part.WellFormed := by
  induction path generalizing v with
  | nil =>
    cases h
    exact hv
  | cons s path ih =>
    obtain ⟨next, hstep, hrest⟩ := Option.bind_eq_some_iff.mp h
    exact ih (hv.step hstep) hrest

/-! ## What an expression binds -/

/-- A CEL program between the two conversions, as `evaluate_with_client` runs it. -/
def celProgram (lib : CelLib)
    (execute : CelValue → CelValue → CelValue → Except String CelValue) : Program :=
  fun args identity client =>
    (execute (jsonToCel lib args) (jsonToCel lib identity) (jsonToCel lib client)).map
      (celToJson lib)

/-- The expression `arguments.…`: the part of the arguments at a path. -/
def argumentsAt (lib : CelLib) (path : List PathStep) (args _identity _client : CelValue) :
    Except String CelValue :=
  match args.at path with
  | some part => .ok part
  | none => .error lib.noSuchKey

theorem celProgram_argumentsAt (hlib : lib.Lawful) (hv : v.WellFormed) {path : List PathStep}
    {part : Value} (h : v.at path = some part) (identity client : Value) :
    celProgram lib (argumentsAt lib path) v identity client = .ok part := by
  rw [celProgram, argumentsAt, at_jsonToCel hv, h]
  exact congrArg Except.ok (celToJson_jsonToCel hlib (hv.at h))

/-- The arguments of a call survive CEL: they are the same after both conversions, an
expression that returns a part of them binds that part, and both conversions to CEL agree. -/
theorem arguments_survive (lib : CelLib) (hlib : lib.Lawful) (v : Value) (hv : v.WellFormed) :
    celToJson lib (jsonToCel lib v) = v ∧
    (∀ path, ((jsonToCel lib v).at path).map (celToJson lib) = v.at path) ∧
    (∀ members path part name source identity client, v = .obj members → v.at path = some part →
      evaluateWithClient v [⟨name, celProgram lib (argumentsAt lib path), source⟩] identity client =
        .ok (.obj (Assoc.insert members name part))) ∧
    celValueFromJson lib v = jsonToCel lib v := by
  refine ⟨celToJson_jsonToCel hlib hv, ?_, ?_, celValueFromJson_eq hv⟩
  · intro path
    rw [at_jsonToCel hv]
    cases hpart : v.at path with
    | none => rfl
    | some part => exact congrArg some (celToJson_jsonToCel hlib (hv.at hpart))
  · intro members path part name source identity client hobj hpart
    subst hobj
    have hout := celProgram_argumentsAt hlib hv hpart (identityJson identity) (clientJson client)
    simp only [evaluateWithClient, List.isEmpty_cons, Bool.false_eq_true, if_false, evaluateLoop, hout]
    rfl

end

/-- Numbers at the bounds of both integer types, and a double with an integral value. -/
def boundaryArguments : Value :=
  .obj [("a", .arr [.num (.pos (2 ^ 63 - 1)), .num (.pos (2 ^ 63)), .num (.pos (2 ^ 64 - 1)),
    .num (.neg (2 ^ 63 - 1)), .num (.float 0x3FF0000000000000#64)]), ("b", .obj [])]

/-- A hash map that gives its entries last to first. -/
def reversingLib : CelLib where
  intToF64 _ := 0
  numberText _ := "0"
  base64 _ := ""
  durationText _ := "PT0S"
  timestampText _ _ := "1970-01-01T00:00:00+00:00"
  noSuchKey := "No such key"
  order _ l := l.reverse

theorem boundaryArguments_wellFormed : boundaryArguments.WellFormed := by
  apply Value.WellFormed.obj
  · rw [Assoc.Sorted, List.pairwise_pair]
    decide
  · simp only [List.forall_mem_cons, List.not_mem_nil, false_implies, implies_true, and_true]
    constructor
    · apply Value.WellFormed.arr
      simp only [List.forall_mem_cons, List.not_mem_nil, false_implies, implies_true, and_true]
      refine ⟨.num ?_, .num ?_, .num ?_, .num ?_, .num ?_⟩
      all_goals simp [Number.InRange]
    · exact .obj List.Pairwise.nil (by simp)

theorem arguments_survive_boundary :
    celToJson reversingLib (jsonToCel reversingLib boundaryArguments) = boundaryArguments ∧
    celValueFromJson reversingLib boundaryArguments =
      jsonToCel reversingLib boundaryArguments :=
  have h := arguments_survive reversingLib (fun _ l => l.reverse_perm) boundaryArguments
    boundaryArguments_wellFormed
  ⟨h.1, h.2.2.2⟩

end McpgSql
