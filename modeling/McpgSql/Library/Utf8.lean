import Mathlib.Data.List.Basic

/-!
# Texts as bytes

A scanner that compares bytes with ASCII characters sees a text as its characters:
an ASCII character is one byte, its code, and no byte of another character is below
128 (`encodeChar_of_not_ascii`).

`fromUtf8Lossy` reads any bytes as a text: what is not UTF-8 becomes replacement
characters. It reads the bytes of a text as the text (`fromUtf8Lossy_encode`).
-/

namespace McpgSql.Library

/-- A property of an ASCII character, checked code by code. -/
theorem of_ascii {P : Char → Prop} {c : Char} (hc : c.val.toNat < 128)
    (h : ∀ n < 128, P (Char.ofNat n)) : P c := by
  rw [← Char.ofNat_toNat c]
  exact h _ hc

theorem code_of_isAlphanum {c : Char} (h : c.isAlphanum = true) :
    (65 ≤ c.val.toNat ∧ c.val.toNat ≤ 90) ∨ (97 ≤ c.val.toNat ∧ c.val.toNat ≤ 122) ∨
      (48 ≤ c.val.toNat ∧ c.val.toNat ≤ 57) := by
  change (decide (65 ≤ c.val ∧ c.val ≤ 90) || (decide (97 ≤ c.val) && decide (c.val ≤ 122)) ||
    (decide (48 ≤ c.val) && decide (c.val ≤ 57))) = true at h
  simpa [UInt32.le_iff_toNat_le, or_assoc] using h

theorem ascii_of_isAlphanum {c : Char} (h : c.isAlphanum = true) : c.val.toNat < 128 := by
  have := code_of_isAlphanum h
  omega

/-- A character that is not ASCII has two bytes at least, and none of them is ASCII. -/
theorem encodeChar_of_not_ascii {c : Char} (h : 128 ≤ c.val.toNat) :
    2 ≤ (String.utf8EncodeChar c).length ∧ ∀ b ∈ String.utf8EncodeChar c, 128 ≤ b.toNat := by
  have hbyte : ∀ n, 128 ≤ n → n < 256 → 128 ≤ (UInt8.ofNat n).toNat := by
    intro n hn hlt
    rw [UInt8.toNat_ofNat_of_lt' hlt]
    exact hn
  have h₁ : ¬c.val.toNat ≤ 0x7f := by omega
  by_cases h₂ : c.val.toNat ≤ 0x7ff
  · simp only [String.utf8EncodeChar, if_neg h₁, if_pos h₂, List.forall_mem_cons]
    exact ⟨by simp, hbyte _ (by omega) (by omega), hbyte _ (by omega) (by omega), by simp⟩
  · by_cases h₃ : c.val.toNat ≤ 0xffff
    · simp only [String.utf8EncodeChar, if_neg h₁, if_neg h₂, if_pos h₃, List.forall_mem_cons]
      exact ⟨by simp, hbyte _ (by omega) (by omega), hbyte _ (by omega) (by omega),
        hbyte _ (by omega) (by omega), by simp⟩
    · simp only [String.utf8EncodeChar, if_neg h₁, if_neg h₂, if_neg h₃, List.forall_mem_cons]
      exact ⟨by simp, hbyte _ (by omega) (by omega), hbyte _ (by omega) (by omega),
        hbyte _ (by omega) (by omega), hbyte _ (by omega) (by omega), by simp⟩

/-! ## Any bytes as a text -/

/-- A byte that goes on with a character. -/
def isContinuation (b : UInt8) : Bool := 0x80 ≤ b && b ≤ 0xBF

/-- The first byte of three or four and one that may be the second. -/
def isSecondByte (first second : UInt8) : Bool :=
  if first = 0xE0 then 0xA0 ≤ second && second ≤ 0xBF
  else if first = 0xED then 0x80 ≤ second && second ≤ 0x9F
  else if first = 0xF0 then 0x90 ≤ second && second ≤ 0xBF
  else if first = 0xF4 then 0x80 ≤ second && second ≤ 0x8F
  else 0xE1 ≤ first && first ≤ 0xF3 && isContinuation second

/-- How many bytes one replacement character stands for, where no character begins: as
many as one could begin with, and one at least. -/
def invalidLength : List UInt8 → Nat
  | first :: second :: third :: _ =>
    if !isSecondByte first second then 1
    else if 0xF0 ≤ first && isContinuation third then 3 else 2
  | [first, second] => if isSecondByte first second then 2 else 1
  | _ => 1

/-- The loop of `from_utf8_lossy`; every round takes a byte at least, so the number of
bytes bounds the rounds. -/
def lossyLoop : Nat → List UInt8 → List Char
  | 0, _ => []
  | _ + 1, [] => []
  | n + 1, b :: bytes => match (b :: bytes).toByteArray.utf8DecodeChar? 0 with
    | some c => c :: lossyLoop n ((b :: bytes).drop c.utf8Size)
    | none => Char.ofNat 0xFFFD :: lossyLoop n ((b :: bytes).drop (invalidLength (b :: bytes)))

def fromUtf8Lossy (bytes : List UInt8) : String := String.ofList (lossyLoop bytes.length bytes)

/-- The bytes of characters are read as they are. -/
theorem lossyLoop_encode {n : Nat} {cs : List Char}
    (hn : (cs.flatMap String.utf8EncodeChar).length ≤ n) :
    lossyLoop n (cs.flatMap String.utf8EncodeChar) = cs := by
  induction cs generalizing n with
  | nil => cases n <;> rfl
  | cons c cs ih =>
    have hlen := String.length_utf8EncodeChar c
    have hpos := c.utf8Size_pos
    rw [List.flatMap_cons, List.length_append, hlen] at hn
    rw [List.flatMap_cons]
    have hdecode : (String.utf8EncodeChar c ++
        cs.flatMap String.utf8EncodeChar).toByteArray.utf8DecodeChar? 0 = some c := by
      rw [List.toByteArray_append]
      exact ByteArray.utf8DecodeChar?_utf8EncodeChar_append
    have hdrop : (String.utf8EncodeChar c ++ cs.flatMap String.utf8EncodeChar).drop c.utf8Size =
        cs.flatMap String.utf8EncodeChar := by
      rw [← hlen, List.drop_left]
    cases n with
    | zero => omega
    | succ n =>
      cases hbytes : String.utf8EncodeChar c ++ cs.flatMap String.utf8EncodeChar with
      | nil =>
        have := congrArg List.length hbytes
        rw [List.length_append, hlen, List.length_nil] at this
        omega
      | cons b bytes =>
        rw [hbytes] at hdecode hdrop
        simp only [lossyLoop, hdecode, hdrop]
        rw [ih (by omega)]

theorem fromUtf8Lossy_encode (s : String) :
    fromUtf8Lossy (s.toList.flatMap String.utf8EncodeChar) = s := by
  rw [fromUtf8Lossy, lossyLoop_encode (Nat.le_refl _), String.ofList_toList]

end McpgSql.Library
