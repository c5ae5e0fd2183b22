import Mathlib.Algebra.Group.Nat.Defs
import Mathlib.Algebra.Order.Ring.Rat
import Mathlib.Data.Nat.Log
import Mathlib.Tactic.NormNum
import Mathlib.Tactic.Ring

/-!
# Integers as doubles

The double nearest to a natural number, of two as near the one with the even
significand, by its bits; and the rational number that finite bits stand for.

* `value_ofNat`: the value is the significand by the power of two;
* `value_ofNat_eq_iff`: it is the number exactly where 53 bits hold its digits.
-/

namespace McpgSql.Library.Binary64

/-- The number that the bits of a finite double stand for. -/
def value (bits : BitVec 64) : ℚ :=
  let exponent : Nat := bits.toNat / 2 ^ 52 % 2 ^ 11
  let fraction : Nat := bits.toNat % 2 ^ 52
  let magnitude : ℚ := if exponent = 0 then fraction * 2 ^ (-1074 : ℤ)
    else (2 ^ 52 + fraction) * 2 ^ (exponent - 1075 : ℤ)
  if bits.msb then -magnitude else magnitude

/-- `n / 2 ^ s` to the nearest integer, of two as near to the even one. -/
def halfEven (n s : Nat) : Nat :=
  if 2 ^ s < 2 * (n % 2 ^ s) ∨ (2 * (n % 2 ^ s) = 2 ^ s ∧ n / 2 ^ s % 2 = 1) then n / 2 ^ s + 1
  else n / 2 ^ s

/-- The digits of `n` in units of `2 ^ (log2 n - 52)`; a carry makes them `2 ^ 53`. -/
def significand (n : Nat) : Nat :=
  if n.log2 ≤ 52 then n * 2 ^ (52 - n.log2) else halfEven n (n.log2 - 52)

/-- The double nearest to `n`. A carry of the significand goes into the exponent. -/
def ofNat (n : Nat) : BitVec 64 :=
  if n = 0 then 0 else BitVec.ofNat 64 ((n.log2 + 1022) * 2 ^ 52 + significand n)

/-! ## Rounding -/

theorem halfEven_bounds (n s : Nat) : n / 2 ^ s ≤ halfEven n s ∧ halfEven n s ≤ n / 2 ^ s + 1 := by
  unfold halfEven
  split
  · exact ⟨Nat.le_succ _, le_rfl⟩
  · exact ⟨le_rfl, Nat.le_succ _⟩

/-- Rounding changes nothing exactly where nothing is cut off. -/
theorem halfEven_mul_eq_iff (n s : Nat) : halfEven n s * 2 ^ s = n ↔ 2 ^ s ∣ n := by
  constructor
  · intro h
    exact ⟨halfEven n s, by rw [Nat.mul_comm]; exact h.symm⟩
  · intro h
    have hmod : n % 2 ^ s = 0 := Nat.mod_eq_zero_of_dvd h
    have hpos : 0 < 2 ^ s := Nat.two_pow_pos s
    have heven : halfEven n s = n / 2 ^ s := by
      rw [halfEven, hmod, if_neg]
      omega
    rw [heven]
    exact Nat.div_mul_cancel h

/-- The rounded number is at most half a unit away. -/
theorem halfEven_near (n s : Nat) :
    2 * (halfEven n s * 2 ^ s) ≤ 2 * n + 2 ^ s ∧ 2 * n ≤ 2 * (halfEven n s * 2 ^ s) + 2 ^ s := by
  have hdiv : 2 ^ s * (n / 2 ^ s) + n % 2 ^ s = n := Nat.div_add_mod n (2 ^ s)
  have hlt : n % 2 ^ s < 2 ^ s := Nat.mod_lt _ (Nat.two_pow_pos s)
  unfold halfEven
  split
  · rename_i hup
    have hmul : (n / 2 ^ s + 1) * 2 ^ s = 2 ^ s * (n / 2 ^ s) + 2 ^ s := by ring
    rw [hmul]
    omega
  · rename_i hdown
    rw [Nat.mul_comm (n / 2 ^ s)]
    omega

section

variable {n : Nat}

/-- The significand has 53 digits, or a carry. -/
theorem significand_bounds (h : n ≠ 0) :
    2 ^ 52 ≤ significand n ∧ significand n ≤ 2 ^ 53 := by
  have hle : 2 ^ n.log2 ≤ n := Nat.log2_self_le h
  have hlt : n < 2 ^ (n.log2 + 1) := Nat.lt_log2_self
  unfold significand
  split
  · rename_i hsmall
    have hlow : 2 ^ n.log2 * 2 ^ (52 - n.log2) = 2 ^ 52 := by
      rw [← Nat.pow_add]
      congr 1
      omega
    have hhigh : 2 ^ (n.log2 + 1) * 2 ^ (52 - n.log2) = 2 ^ 53 := by
      rw [← Nat.pow_add]
      congr 1
      omega
    exact ⟨hlow ▸ Nat.mul_le_mul_right _ hle, hhigh ▸ Nat.mul_le_mul_right _ hlt.le⟩
  · rename_i hlarge
    have hlow : 2 ^ 52 * 2 ^ (n.log2 - 52) = 2 ^ n.log2 := by
      rw [← Nat.pow_add]
      congr 1
      omega
    have hhigh : 2 ^ 53 * 2 ^ (n.log2 - 52) = 2 ^ (n.log2 + 1) := by
      rw [← Nat.pow_add]
      congr 1
      omega
    have hdivlow : 2 ^ 52 ≤ n / 2 ^ (n.log2 - 52) := by
      rw [Nat.le_div_iff_mul_le (Nat.two_pow_pos _), hlow]
      exact hle
    have hdivhigh : n / 2 ^ (n.log2 - 52) < 2 ^ 53 := by
      rw [Nat.div_lt_iff_lt_mul (Nat.two_pow_pos _), hhigh]
      exact hlt
    have hround := halfEven_bounds n (n.log2 - 52)
    omega

/-- The value of the double nearest to a 64-bit number. -/
theorem value_ofNat (h : n ≠ 0) (hn : n < 2 ^ 64) :
    value (ofNat n) = significand n * 2 ^ (n.log2 - 52 : ℤ) := by
  obtain ⟨hlow, hhigh⟩ := significand_bounds h
  have hlog : n.log2 < 64 := (Nat.log2_lt h).mpr hn
  have hnat : (ofNat n).toNat = (n.log2 + 1022) * 2 ^ 52 + significand n := by
    rw [ofNat, if_neg h, BitVec.toNat_ofNat, Nat.mod_eq_of_lt]
    omega
  have hmsb : (ofNat n).msb = false := by
    rw [BitVec.msb_eq_false_iff_two_mul_lt, hnat]
    omega
  rcases Nat.lt_or_ge (significand n) (2 ^ 53) with hcarry | hcarry
  · have hexp : (ofNat n).toNat / 2 ^ 52 % 2 ^ 11 = n.log2 + 1023 := by
      rw [hnat]
      omega
    have hfrac : (ofNat n).toNat % 2 ^ 52 = significand n - 2 ^ 52 := by
      rw [hnat]
      omega
    have hpower : ((n.log2 + 1023 : ℕ) - 1075 : ℤ) = n.log2 - 52 := by
      push_cast
      ring
    have hdigits : (2 ^ 52 + ((significand n - 2 ^ 52 : ℕ) : ℚ)) = significand n := by
      rw [Nat.cast_sub hlow]
      push_cast
      ring
    rw [value]
    simp only [hexp, hfrac, hmsb, Bool.false_eq_true, if_false]
    rw [if_neg (by omega), hpower, hdigits]
  · have hdigits : significand n = 2 ^ 53 := le_antisymm hhigh hcarry
    have hexp : (ofNat n).toNat / 2 ^ 52 % 2 ^ 11 = n.log2 + 1024 := by
      rw [hnat]
      omega
    have hfrac : (ofNat n).toNat % 2 ^ 52 = 0 := by
      rw [hnat]
      omega
    have hpower : ((n.log2 + 1024 : ℕ) - 1075 : ℤ) = 1 + (n.log2 - 52) := by
      push_cast
      ring
    rw [value]
    simp only [hexp, hfrac, hmsb, Bool.false_eq_true, if_false]
    rw [if_neg (by omega), hpower, zpow_add₀ (by norm_num), hdigits]
    push_cast
    ring

/-! ## Exact numbers -/

/-- 53 bits hold the digits of the number. -/
def Short (n : Nat) : Prop := ∃ m k, m < 2 ^ 53 ∧ n = m * 2 ^ k

theorem short_iff_dvd : Short n ↔ 2 ^ (n.log2 - 52) ∣ n := by
  constructor
  · rintro ⟨m, k, hm, rfl⟩
    by_cases hzero : m = 0
    · subst hzero
      simp
    · have hlog : m.log2 < 53 := (Nat.log2_lt hzero).mpr hm
      have hk : (m * 2 ^ k).log2 < 53 + k := by
        rw [Nat.log2_lt (by positivity), Nat.pow_add]
        exact Nat.mul_lt_mul_of_pos_right hm (Nat.two_pow_pos k)
      exact Dvd.dvd.mul_left (Nat.pow_dvd_pow 2 (by omega)) m
  · intro hdvd
    refine ⟨n / 2 ^ (n.log2 - 52), n.log2 - 52, ?_, (Nat.div_mul_cancel hdvd).symm⟩
    have hlt : n < 2 ^ (n.log2 + 1) := Nat.lt_log2_self
    rw [Nat.div_lt_iff_lt_mul (Nat.two_pow_pos _), ← Nat.pow_add]
    exact lt_of_lt_of_le hlt (Nat.pow_le_pow_right (by decide) (by omega))

/-- The rounded number, where digits are cut off. -/
theorem value_ofNat_large (hn : n < 2 ^ 64) (hlarge : 52 < n.log2) :
    value (ofNat n) = ((halfEven n (n.log2 - 52) * 2 ^ (n.log2 - 52) : ℕ) : ℚ) := by
  have h : n ≠ 0 := by
    rintro rfl
    simp at hlarge
  have hpower : (n.log2 - 52 : ℤ) = ((n.log2 - 52 : ℕ) : ℤ) := by omega
  rw [value_ofNat h hn, significand, if_neg (by omega), hpower, zpow_natCast]
  push_cast
  rfl

theorem value_ofNat_small (hsmall : n.log2 ≤ 52) (hn : n < 2 ^ 64) : value (ofNat n) = n := by
  by_cases h : n = 0
  · subst h
    simp [ofNat, value]
  · have hpower : ((2 : ℚ) ^ (52 - n.log2 : ℕ)) * 2 ^ (n.log2 - 52 : ℤ) = 1 := by
      rw [← zpow_natCast, ← zpow_add₀ (by norm_num)]
      have hsum : ((52 - n.log2 : ℕ) : ℤ) + (n.log2 - 52) = 0 := by omega
      rw [hsum, zpow_zero]
    rw [value_ofNat h hn, significand, if_pos hsmall]
    push_cast
    rw [mul_assoc, hpower, mul_one]

/-- The nearest double is the number itself exactly where 53 bits hold its digits. -/
theorem value_ofNat_eq_iff (hn : n < 2 ^ 64) : value (ofNat n) = n ↔ Short n := by
  rcases Nat.lt_or_ge 52 n.log2 with hlarge | hsmall
  · rw [value_ofNat_large hn hlarge, short_iff_dvd, ← halfEven_mul_eq_iff, Nat.cast_inj]
  · rw [short_iff_dvd, show n.log2 - 52 = 0 by omega]
    simp [value_ofNat_small hsmall hn]

/-- A 64-bit number is at most 1024 away from its nearest double. -/
theorem value_ofNat_near (hn : n < 2 ^ 64) :
    value (ofNat n) ≤ n + 1024 ∧ (n : ℚ) ≤ value (ofNat n) + 1024 := by
  rcases Nat.lt_or_ge 52 n.log2 with hlarge | hsmall
  · have h : n ≠ 0 := by
      rintro rfl
      simp at hlarge
    have hlog : n.log2 < 64 := (Nat.log2_lt h).mpr hn
    have hunit : 2 ^ (n.log2 - 52) ≤ 2 ^ 11 := Nat.pow_le_pow_right (by decide) (by omega)
    have hnear := halfEven_near n (n.log2 - 52)
    rw [value_ofNat_large hn hlarge]
    constructor
    · have hle : halfEven n (n.log2 - 52) * 2 ^ (n.log2 - 52) ≤ n + 1024 := by omega
      exact_mod_cast hle
    · have hle : n ≤ halfEven n (n.log2 - 52) * 2 ^ (n.log2 - 52) + 1024 := by omega
      exact_mod_cast hle
  · rw [value_ofNat_small hsmall hn]
    constructor <;> norm_num

end

end McpgSql.Library.Binary64
