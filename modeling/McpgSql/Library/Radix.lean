import Mathlib.Data.List.Basic

/-!
# Numbers in a base

Reading an unsigned number of at most 36 digits a place, in either case, below a
bound (`readRadix`), and the digits of a number read back (`readRadix_toDigits`).
-/

namespace McpgSql.Library

/-- The value of a digit of base `b`, a letter in either case. -/
def digitOf (b : Nat) (c : Char) : Option Nat :=
  let value :=
    if '0' ≤ c ∧ c ≤ '9' then some (c.toNat - '0'.toNat)
    else if 'a' ≤ c ∧ c ≤ 'z' then some (c.toNat - 'a'.toNat + 10)
    else if 'A' ≤ c ∧ c ≤ 'Z' then some (c.toNat - 'A'.toNat + 10)
    else none
  value.filter (· < b)

/-- The digits `cs` after a number `n`, none at or past `bound`. -/
def readDigits (b bound : Nat) : Nat → List Char → Option Nat
  | n, [] => some n
  | n, c :: cs => (digitOf b c).bind fun d =>
    if n * b + d < bound then readDigits b bound (n * b + d) cs else none

def skipPlus : List Char → List Char
  | '+' :: cs => cs
  | cs => cs

/-- An optional plus sign and at least one digit. -/
def readRadix (b bound : Nat) (text : List Char) : Option Nat :=
  if (skipPlus text).isEmpty then none else readDigits b bound 0 (skipPlus text)

variable {b bound n : Nat}

theorem readDigits_append (n : Nat) (cs cs' : List Char) :
    readDigits b bound n (cs ++ cs') =
      (readDigits b bound n cs).bind fun m => readDigits b bound m cs' := by
  induction cs generalizing n with
  | nil => rfl
  | cons c cs ih =>
    simp only [List.cons_append, readDigits]
    cases digitOf b c with
    | none => rfl
    | some d =>
      simp only [Option.bind_some]
      split
      · exact ih _
      · rfl

theorem digitOf_upper_digitChar (hb : b ≤ 16) (hn : n < b) :
    digitOf b n.digitChar.toUpper = some n := by
  have h : ∀ n < 16, digitOf 16 n.digitChar.toUpper = some n := by decide
  have hd := h n (by omega)
  simp only [digitOf, Option.filter_eq_some_iff, decide_eq_true_eq] at hd ⊢
  exact ⟨hd.1, hn⟩

/-- The digits of a number, in upper case, are read back. -/
theorem readDigits_toDigits (hb : 1 < b) (hb' : b ≤ 16) (h : n < bound) :
    readDigits b bound 0 ((Nat.toDigits b n).map Char.toUpper) = some n := by
  induction n using Nat.strongRecOn with
  | ind n ih =>
    by_cases hn : n < b
    · rw [Nat.toDigits_of_lt_base hn, List.map_singleton]
      simp [readDigits, digitOf_upper_digitChar hb' hn, h]
    · have hdiv : n / b < n := Nat.div_lt_self (by omega) hb
      have hlast := digitOf_upper_digitChar hb' (Nat.mod_lt n (by omega : 0 < b))
      have hn' : n / b * b + n % b = n := by rw [Nat.mul_comm]; exact Nat.div_add_mod n b
      rw [Nat.toDigits_of_base_le hb (by omega), List.map_append, readDigits_append,
        ih _ hdiv (by omega), List.map_singleton]
      simp [readDigits, hlast, hn', h]

/-- What is read has only digits. -/
theorem isSome_digitOf_of_readDigits {m : Nat} {cs : List Char}
    (h : readDigits b bound n cs = some m) : ∀ c ∈ cs, (digitOf b c).isSome = true := by
  induction cs generalizing n with
  | nil => simp
  | cons c cs ih =>
    obtain ⟨d, hd, hrest⟩ := Option.bind_eq_some_iff.mp h
    split at hrest
    · exact List.forall_mem_cons.mpr ⟨by rw [hd]; rfl, ih hrest⟩
    · cases hrest

theorem digitOf_plus : digitOf b '+' = none := rfl

theorem skipPlus_of_readDigits {m : Nat} {cs : List Char} (h : readDigits b bound n cs = some m) :
    skipPlus cs = cs := by
  unfold skipPlus
  split
  · have hplus := isSome_digitOf_of_readDigits h '+' List.mem_cons_self
    rw [digitOf_plus] at hplus
    cases hplus
  · rfl

theorem readRadix_toDigits (hb : 1 < b) (hb' : b ≤ 16) (h : n < bound) :
    readRadix b bound ((Nat.toDigits b n).map Char.toUpper) = some n := by
  have hread := readDigits_toDigits hb hb' h
  rw [readRadix, skipPlus_of_readDigits hread, if_neg (by simp), hread]

/-- A character that is no digit is in no number. -/
theorem notMem_toDigits (hb : 1 < b) (hb' : b ≤ 16) {c : Char} (hc : digitOf b c = none) (n : Nat) :
    c ∉ (Nat.toDigits b n).map Char.toUpper := by
  intro hmem
  have hread := readDigits_toDigits hb hb' n.lt_succ_self
  have hsome := isSome_digitOf_of_readDigits hread c hmem
  rw [hc] at hsome
  cases hsome

end McpgSql.Library
