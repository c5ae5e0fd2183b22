import McpgSql.Config
import McpgSql.Execute.Cel
import McpgSql.Library.Binary64
import McpgSql.Library.Except
import McpgSql.Library.Radix
import McpgSql.Listing.Page

/-!
# Prices of calls

The `cost` block of a binding, compiled: a rate, which is an amount or a CEL expression
over the arguments, by the unit it is for, and the most that one call may cost. Amounts
are doubles, by their bits; what a double stands for is `Binary64.value`.
-/

namespace McpgSql.Cost

open Library Listing

inductive CostUnit where
  | perCall
  | perRow
  | perByte
  | perQuery
deriving DecidableEq, Repr

def CostUnit.asStr : CostUnit → String
  | .perCall => "per_call"
  | .perRow => "per_row"
  | .perByte => "per_byte"
  | .perQuery => "per_query"

structure CostSpec where
  unit : CostUnit
  amount : Option String := none
  expression : Option String := none
  currency : String := "USD"
  maxPerCall : Option String := none

/-- What prices take from libraries: CEL, the reader and the text of a double, the product
of two, and the debug text of a CEL value. -/
structure CostLib where
  cel : CelLib
  parseF64 : String → Except String (BitVec 64)
  compilePrice : String → Except String (CelValue → Except String CelValue)
  mul : BitVec 64 → BitVec 64 → BitVec 64
  floatText : BitVec 64 → String
  celText : CelValue → String

/-! ## Doubles -/

/-- `f64::is_finite`. -/
def isFinite (bits : BitVec 64) : Bool := bits.extractLsb' 52 11 ≠ 0x7FF#11

/-- `v < 0.0`, of a finite double. -/
def isNegative (bits : BitVec 64) : Bool := bits.msb && bits.extractLsb' 0 63 ≠ 0#63

/-- `a > b`, of finite doubles. -/
def isAbove (a b : BitVec 64) : Bool := Binary64.value b < Binary64.value a

theorem value_nonneg {bits : BitVec 64} (h : isNegative bits = false) :
    0 ≤ Binary64.value bits := by
  have hpow : ∀ e : ℤ, 0 ≤ (2 : ℚ) ^ e := fun e => zpow_nonneg (by norm_num) e
  unfold Binary64.value
  cases hmsb : bits.msb with
  | false =>
    rw [if_neg Bool.false_ne_true]
    split
    · exact mul_nonneg (Nat.cast_nonneg _) (hpow _)
    · exact mul_nonneg (add_nonneg (by norm_num) (Nat.cast_nonneg _)) (hpow _)
  | true =>
    rw [isNegative, hmsb, Bool.true_and, decide_eq_false_iff_not, not_not] at h
    have hzero : bits.toNat % 2 ^ 63 = 0 := by
      have := congrArg BitVec.toNat h
      rwa [BitVec.extractLsb'_toNat, Nat.shiftRight_zero] at this
    have hexp : bits.toNat / 2 ^ 52 % 2 ^ 11 = 0 := by omega
    have hfraction : bits.toNat % 2 ^ 52 = 0 := by omega
    rw [if_pos rfl, hexp, if_pos rfl, hfraction, Nat.cast_zero, zero_mul, neg_zero]

section

variable (lib : CostLib)

def parseDecimalAmount (s field : String) : Except SqlError (BitVec 64) :=
  let trimmed := trim s
  if trimmed.isEmpty then .error (.invalidSpec (field ++ " must not be empty"))
  else match lib.parseF64 trimmed with
    | .error e => .error (.invalidSpec (field ++ " '" ++ trimmed ++ "' is not a valid decimal: " ++ e))
    | .ok v =>
      if !isFinite v then
        .error (.invalidSpec (field ++ " '" ++ trimmed ++ "' is not a finite number"))
      else if isNegative v then
        .error (.invalidSpec (field ++ " '" ++ trimmed ++ "' must be non-negative"))
      else .ok v

theorem isNegative_of_parseDecimalAmount {s field : String} {v : BitVec 64}
    (h : parseDecimalAmount lib s field = .ok v) : isNegative v = false := by
  rw [parseDecimalAmount] at h
  split at h
  · cases h
  · cases hparse : lib.parseF64 (trim s) with
    | error e =>
      rw [hparse] at h
      cases h
    | ok v' =>
      rw [hparse] at h
      dsimp only at h
      split at h
      · cases h
      · split at h
        · cases h
        · rename_i hpos
          cases h
          exact Bool.not_eq_true _ ▸ hpos

/-- `cel_value_to_f64`. -/
def celValueToF64 : CelValue → Option (BitVec 64)
  | .int i => some (lib.cel.intToF64 i)
  | .uint n => some (Binary64.ofNat n)
  | .float bits => some bits
  | .string s => (lib.parseF64 s).toOption
  | _ => none

/-! ## Compiled prices -/

structure BackendCost where
  unit : CostUnit
  currency : String
  amount : Option (BitVec 64)
  expression : Option (CelValue → Except String CelValue)
  source : String
  maxPerCall : Option (BitVec 64)

/-- A part of the block, where it is given. -/
def compilePart {α β : Type} (f : α → Except SqlError β) : Option α → Except SqlError (Option β)
  | none => .ok none
  | some a => (f a).map some

def compile (spec : CostSpec) : Except SqlError BackendCost := do
  let amount ← compilePart (parseDecimalAmount lib · "cost.amount") spec.amount
  let expression ← compilePart (fun src => (lib.compilePrice src).mapError fun e =>
    .invalidSpec ("cost.expression does not compile as CEL: " ++ e)) spec.expression
  let maxPerCall ← compilePart (parseDecimalAmount lib · "cost.max_per_call") spec.maxPerCall
  return {
    unit := spec.unit, currency := spec.currency, amount, expression
    source := (spec.amount.or spec.expression).getD "", maxPerCall }

namespace BackendCost

variable (c : BackendCost)

def resolveBase (arguments : Value) : Except SqlError (BitVec 64) :=
  match c.amount with
  | some amount => .ok amount
  | none => match c.expression with
    | none => .error (.invalidSpec
        "cost spec has neither amount nor expression — should be unreachable")
    | some program => match program (celValueFromJson lib.cel arguments) with
      | .error e => .error (.invalidSpec
          ("cost.expression evaluation failed: " ++ e ++ " (source: " ++ c.source ++ ")"))
      | .ok result => match celValueToF64 lib result with
        | some base => .ok base
        | none => .error (.invalidSpec ("cost.expression must evaluate to a positive number, got " ++
            lib.celText result ++ " (source: " ++ c.source ++ ")"))

/-- The rate for a response of this many rows and bytes. -/
def amplified (base : BitVec 64) (rowCount payloadBytes : Nat) : BitVec 64 :=
  match c.unit with
  | .perCall | .perQuery => base
  | .perRow => lib.mul base (Binary64.ofNat rowCount)
  | .perByte => lib.mul base (Binary64.ofNat payloadBytes)

def compute (arguments : Value) (rowCount payloadBytes : Nat) : Except SqlError (BitVec 64) := do
  let base ← c.resolveBase lib arguments
  let amplified := c.amplified lib base rowCount payloadBytes
  if !isFinite amplified || isNegative amplified then
    .error (.invalidSpec ("cost computed to non-finite or negative amount " ++
      lib.floatText amplified ++ " (base=" ++ lib.floatText base ++ ", unit=" ++ c.unit.asStr ++
      ", rows=" ++ toString rowCount ++ ", bytes=" ++ toString payloadBytes ++ ")"))
  else match c.maxPerCall with
    | none => .ok amplified
    | some cap =>
      if isAbove amplified cap then
        .error (.invalidSpec ("cost " ++ lib.floatText amplified ++ " " ++ c.currency ++
          " exceeds cost.max_per_call (" ++ lib.floatText cap ++ " " ++ c.currency ++
          "); refusing the call"))
      else .ok amplified

/-- What is charged is a finite amount, none that is owed, and no more than the cap. -/
theorem compute_bounds {arguments : Value} {rows bytes : Nat} {amount : BitVec 64}
    (h : c.compute lib arguments rows bytes = .ok amount) :
    isFinite amount ∧ 0 ≤ Binary64.value amount ∧
      ∀ cap, c.maxPerCall = some cap → Binary64.value amount ≤ Binary64.value cap := by
  obtain ⟨base, -, h⟩ := bind_eq_ok.mp h
  dsimp only at h
  split at h
  · cases h
  · rename_i hsound
    rw [Bool.or_eq_true, not_or, Bool.not_eq_true', Bool.not_eq_false, Bool.not_eq_true] at hsound
    obtain ⟨hfinite, hpos⟩ := hsound
    split at h
    · rename_i hnone
      cases h
      exact ⟨hfinite, value_nonneg hpos, by intro cap hcap; rw [hnone] at hcap; cases hcap⟩
    · rename_i cap hcap
      split at h
      · cases h
      · rename_i hbelow
        cases h
        refine ⟨hfinite, value_nonneg hpos, fun cap' hcap' => ?_⟩
        rw [hcap] at hcap'
        cases hcap'
        rw [isAbove, decide_eq_true_eq] at hbelow
        exact not_lt.mp hbelow

end BackendCost

theorem maxPerCall_of_compile {spec : CostSpec} {c : BackendCost} (h : compile lib spec = .ok c)
    {text : String} (htext : spec.maxPerCall = some text) :
    ∃ cap, parseDecimalAmount lib text "cost.max_per_call" = .ok cap ∧ c.maxPerCall = some cap := by
  simp only [compile, bind_eq_ok] at h
  obtain ⟨amount, -, expression, -, maxPerCall, hcap, h⟩ := h
  cases h
  rw [htext, compilePart] at hcap
  cases hparse : parseDecimalAmount lib text "cost.max_per_call" with
  | error e =>
    rw [hparse] at hcap
    cases hcap
  | ok cap =>
    rw [hparse] at hcap
    cases hcap
    exact ⟨cap, rfl, rfl⟩

end

/-- Whole amounts, and no expressions. -/
def wholePrices (cel : CelLib) : CostLib where
  cel
  parseF64 s := match readRadix 10 (2 ^ 64) s.toList with
    | some n => .ok (Binary64.ofNat n)
    | none => .error "invalid float literal"
  compilePrice _ := .error "no expressions"
  mul a b := Binary64.ofNat (Binary64.value a * Binary64.value b).num.toNat
  floatText bits := toString (Binary64.value bits).num
  celText _ := ""

end McpgSql.Cost
