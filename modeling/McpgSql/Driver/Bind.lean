import McpgSql.Driver.Sqlite
import McpgSql.Execute.Cel
import McpgSql.Library.Binary64
import McpgSql.Schema.Validate

/-!
# Arguments of a statement

What the drivers bind to the placeholders: a number as an `i64` where it is one, else
as a double. A `u64` above `i64::MAX` has a double too, so that it is never bound as a
text, but as the double nearest to it.

`arguments_kept_iff`: the arguments of a call reach the database with their values
exactly where each such integer has at most 53 binary digits before its trailing zeros;
any other is at most 1024 off.
-/

namespace McpgSql.Driver

open Library

/-- What is bound to a placeholder: a scalar, or a JSON value where the database has them. -/
inductive Arg where
  | scalar (a : SqliteArg)
  | json (v : Value)
deriving DecidableEq

/-- `Number::as_f64`: every number has a double, the nearest one. -/
def asF64 : Number → Option (BitVec 64)
  | .pos n => some (Binary64.ofNat n)
  | .neg n => some (Binary64.ofNat (n + 1) ||| 1#64 <<< 63)
  | .float bits => some bits

section

variable (lib : SqliteLib)

/-- The binder of the drivers with JSON columns. -/
def bindJson (q : List Arg) (v : Value) : List Arg :=
  match v with
  | .null => q ++ [.scalar .null]
  | .bool b => q ++ [.scalar (.bool b)]
  | .num n => match Changes.asI64 n with
    | some i => q ++ [.scalar (.int i)]
    | none => match lib.asF64 n with
      | some bits => q ++ [.scalar (.double bits)]
      | none => q ++ [.scalar (.text (lib.numberText n))]
  | .str s => q ++ [.scalar (.text s)]
  | .arr _ | .obj _ => q ++ [.json v]

def bindPg : List Arg → Value → List Arg := bindJson lib

def bindMysql : List Arg → Value → List Arg := bindJson lib

/-- The arguments that a driver binds, in the order of the placeholders. -/
def bindArgs (driver : DriverKind) (args : List BoundParam) : List Arg :=
  match driver with
  | .postgres => args.foldl (fun q arg => bindPg lib q arg.value) []
  | .mysql | .mariadb => args.foldl (fun q arg => bindMysql lib q arg.value) []
  | .sqlite => (args.foldl (fun q arg => bindSqlite lib q arg.value) []).map .scalar

/-! ## One argument -/

/-- A number is bound as a number. -/
def numberArg (n : Number) : SqliteArg :=
  match Changes.asI64 n with
  | some i => .int i
  | none => match lib.asF64 n with
    | some bits => .double bits
    | none => .text (lib.numberText n)

/-- SQLite has no JSON type: it gets their texts. -/
def containerArg (driver : DriverKind) (v : Value) : Arg :=
  match driver with
  | .postgres | .mysql | .mariadb => .json v
  | .sqlite => .scalar (.text (lib.valueText v))

/-- The argument of a value. -/
def argOf (driver : DriverKind) : Value → Arg
  | .null => .scalar .null
  | .bool b => .scalar (.bool b)
  | .num n => .scalar (numberArg lib n)
  | .str s => .scalar (.text s)
  | .arr items => containerArg lib driver (.arr items)
  | .obj members => containerArg lib driver (.obj members)

variable {lib}

theorem bindJson_eq {driver : DriverKind} (h : driver ≠ .sqlite) (q : List Arg) (v : Value) :
    bindJson lib q v = q ++ [argOf lib driver v] := by
  have hjson : ∀ v, containerArg lib driver v = .json v := by
    intro v
    cases driver with
    | sqlite => exact absurd rfl h
    | postgres | mysql | mariadb => rfl
  cases v with
  | num n =>
    rw [bindJson, argOf, numberArg]
    cases Changes.asI64 n with
    | some i => rfl
    | none => cases lib.asF64 n <;> rfl
  | arr items => rw [argOf, hjson]; rfl
  | obj members => rw [argOf, hjson]; rfl
  | null | bool | str => rfl

theorem bindSqlite_eq (q : List SqliteArg) (v : Value) :
    (bindSqlite lib q v).map Arg.scalar = q.map .scalar ++ [argOf lib .sqlite v] := by
  cases v with
  | num n =>
    rw [bindSqlite, argOf, numberArg]
    cases Changes.asI64 n with
    | some i => simp
    | none => cases lib.asF64 n <;> simp
  | null | bool | str | arr | obj => simp [bindSqlite, argOf, containerArg]

/-- The arguments one by one. -/
theorem bindArgs_eq (driver : DriverKind) (args : List BoundParam) :
    bindArgs lib driver args = args.map fun arg => argOf lib driver arg.value := by
  have hjson : ∀ driver, driver ≠ .sqlite → ∀ (args : List BoundParam) (q : List Arg),
      args.foldl (fun q arg => bindJson lib q arg.value) q =
        q ++ args.map fun arg => argOf lib driver arg.value := by
    intro driver h args
    induction args with
    | nil => simp
    | cons arg args ih =>
      intro q
      rw [List.foldl_cons, ih, bindJson_eq h]
      simp
  have hsqlite : ∀ (args : List BoundParam) (q : List SqliteArg),
      (args.foldl (fun q arg => bindSqlite lib q arg.value) q).map Arg.scalar =
        q.map .scalar ++ args.map fun arg => argOf lib .sqlite arg.value := by
    intro args
    induction args with
    | nil => simp
    | cons arg args ih =>
      intro q
      rw [List.foldl_cons, ih, bindSqlite_eq]
      simp
  cases driver with
  | sqlite => exact hsqlite args []
  | postgres => exact hjson .postgres (by decide) args []
  | mysql => exact hjson .mysql (by decide) args []
  | mariadb => exact hjson .mariadb (by decide) args []

/-! ## Values -/

/-- The number of an argument. -/
def Arg.number : Arg → Option ℚ
  | .scalar (.int i) => some i
  | .scalar (.double bits) => some (Schema.numberValue (.float bits))
  | _ => none

/-- The argument has the value: numbers are compared by what they stand for, and a list or
an object may be there by its text. -/
def Arg.Keeps (text : Value → String) (arg : Arg) : Value → Prop
  | .num n => arg.number = some (Schema.numberValue n)
  | .null => arg = .scalar .null
  | .bool b => arg = .scalar (.bool b)
  | .str s => arg = .scalar (.text s)
  | v => arg = .json v ∨ arg = .scalar (.text (text v))

/-- A number within `i64`, or a double, is bound as it is. -/
theorem number_small {n : Number} (hlib : lib.asF64 = asF64) (h : ∀ k, n = .pos k → k < 2 ^ 63) :
    (Arg.scalar (numberArg lib n)).number = some (Schema.numberValue n) := by
  cases n with
  | pos k =>
    have hi : Changes.asI64 (.pos k) = some (k : Int) := if_pos (h k rfl)
    rw [numberArg, hi]
    simp [Arg.number, Schema.numberValue]
  | neg k =>
    rw [numberArg, Changes.asI64]
    simp [Arg.number, Schema.numberValue, Int.negSucc_eq]
  | float bits =>
    rw [numberArg, Changes.asI64, hlib]
    rfl

/-- A larger number is bound as its nearest double. -/
theorem number_large {k : Nat} (hlib : lib.asF64 = asF64) (h : ¬ k < 2 ^ 63) :
    (Arg.scalar (numberArg lib (.pos k))).number = some (Binary64.value (Binary64.ofNat k)) := by
  have hi : Changes.asI64 (.pos k) = none := if_neg h
  rw [numberArg, hi, hlib]
  rfl

/-- A number is bound as one at most 1024 off. -/
theorem number_near {n : Number} (hlib : lib.asF64 = asF64) (hn : n.InRange) :
    ∃ q, (Arg.scalar (numberArg lib n)).number = some q ∧
      q ≤ Schema.numberValue n + 1024 ∧ Schema.numberValue n ≤ q + 1024 := by
  by_cases h : ∀ k, n = .pos k → k < 2 ^ 63
  · refine ⟨_, number_small hlib h, ?_, ?_⟩ <;> simp
  · push Not at h
    obtain ⟨k, rfl, hk⟩ := h
    exact ⟨_, number_large hlib (not_lt.mpr hk), Binary64.value_ofNat_near hn⟩

/-- What of a value is kept. -/
theorem keeps_iff {driver : DriverKind} (hlib : lib.asF64 = asF64) {v : Value} (hv : v.WellFormed) :
    (argOf lib driver v).Keeps lib.valueText v ↔
      ∀ k, v = .num (.pos k) → k < 2 ^ 63 ∨ Binary64.Short k := by
  have hcontainer : ∀ v, containerArg lib driver v = .json v ∨
      containerArg lib driver v = .scalar (.text (lib.valueText v)) := by
    intro v
    cases driver with
    | sqlite => exact .inr rfl
    | postgres | mysql | mariadb => exact .inl rfl
  cases hv with
  | null | bool | str =>
    simp [argOf, Arg.Keeps]
  | arr hitems =>
    refine iff_of_true (hcontainer _) ?_
    intro k hk
    cases hk
  | obj hsorted hmembers =>
    refine iff_of_true (hcontainer _) ?_
    intro k hk
    cases hk
  | @num n hn =>
    by_cases h : ∀ k, n = .pos k → k < 2 ^ 63
    · refine iff_of_true (number_small hlib h) ?_
      intro k hk
      cases hk
      exact .inl (h k rfl)
    · push Not at h
      obtain ⟨k, rfl, hk⟩ := h
      have hround : (argOf lib driver (.num (.pos k))).Keeps lib.valueText (.num (.pos k)) ↔
          Binary64.Short k := by
        rw [Arg.Keeps, argOf, number_large hlib (not_lt.mpr hk), Option.some_inj,
          ← Binary64.value_ofNat_eq_iff hn]
        rfl
      rw [hround]
      constructor
      · intro hshort k' hk'
        cases hk'
        exact .inr hshort
      · intro hall
        exact (hall k rfl).resolve_left (not_lt.mpr hk)

end

/-- For every statement and every arguments: each argument that a driver binds has the value
of its argument exactly where that is no integer above `i64::MAX` with more digits than a
double has; every number is bound as a number at most 1024 off. -/
theorem arguments_kept_iff (lib : SqliteLib) (hlib : lib.asF64 = asF64) (driver : DriverKind)
    (members : List (String × Value)) (hargs : (Value.obj members).WellFormed)
    (order : List String) (bound : List BoundParam)
    (hbound : collectBoundParams (.obj members) order = .ok bound) :
    (List.Forall₂ (fun arg name => arg.Keeps lib.valueText ((Assoc.get? members name).getD .null))
        (bindArgs lib driver bound) order ↔
      ∀ name ∈ order, ∀ k, Assoc.get? members name = some (.num (.pos k)) →
        k < 2 ^ 63 ∨ Binary64.Short k) ∧
    List.Forall₂ (fun arg name => ∀ n, Assoc.get? members name = some (.num n) →
        ∃ q, arg.number = some q ∧ q ≤ Schema.numberValue n + 1024 ∧
          Schema.numberValue n ≤ q + 1024)
      (bindArgs lib driver bound) order := by
  obtain ⟨hfound, rfl⟩ := collectBoundParams_obj.mp hbound
  have hwell : ∀ name v, Assoc.get? members name = some v → v.WellFormed := by
    cases hargs with
    | obj hsorted hmembers =>
      intro name v hget
      exact hmembers (name, v) (Assoc.mem_of_get? hget)
  rw [bindArgs_eq, List.map_map, List.forall₂_map_left_iff, List.forall₂_map_left_iff,
    List.forall₂_same, List.forall₂_same]
  constructor
  · refine forall₂_congr fun name hname => ?_
    obtain ⟨v, hget⟩ := Option.ne_none_iff_exists'.mp (hfound name hname)
    rw [hget]
    simp only [Function.comp_apply, hget, Option.getD_some]
    rw [keeps_iff hlib (hwell name v hget)]
    simp
  · intro name hname n hget
    simp only [Function.comp_apply, hget, Option.getD_some]
    cases hwell name (.num n) hget with
    | num hn => exact number_near hlib hn

/-- An order by a key above `i64::MAX`, and one below. -/
def orderKeys : List (String × Value) :=
  [("after", .num (.pos (2 ^ 64 - 1))), ("id", .num (.pos 7))]

theorem orderKeys_wellFormed : (Value.obj orderKeys).WellFormed := by
  apply Value.WellFormed.obj
  · rw [Assoc.Sorted, orderKeys, List.pairwise_pair]
    decide
  · simp only [orderKeys, List.forall_mem_cons, List.not_mem_nil, false_implies, implies_true,
      and_true]
    refine ⟨.num ?_, .num ?_⟩ <;> simp [Number.InRange]

def nearestLib : SqliteLib := { classLib with asF64 }

/-- The key above is not kept. -/
theorem orderKeys_rounded :
    ¬List.Forall₂ (fun arg name => arg.Keeps nearestLib.valueText
        ((Assoc.get? orderKeys name).getD .null))
      (bindArgs nearestLib .mysql
        [⟨"id", .num (.pos 7)⟩, ⟨"after", .num (.pos (2 ^ 64 - 1))⟩]) ["id", "after"] := by
  intro hkept
  have hall := (arguments_kept_iff nearestLib rfl .mysql orderKeys orderKeys_wellFormed
    ["id", "after"] _ (by decide)).1.mp hkept
  rcases hall "after" (by decide) (2 ^ 64 - 1) (by decide) with hsmall | hshort
  · revert hsmall
    decide
  · rw [Binary64.short_iff_dvd] at hshort
    revert hshort
    decide

end McpgSql.Driver
