import McpgSql.Cache.Key
import McpgSql.Library.Records

/-!
# Reading the bytes of a key

The bytes of a value are read in one way where its texts are clean: no byte in
them can be taken for the end of the text they stand in. `Follow` says what may
stand after a value, and every lemma here cuts a value off the bytes before
what follows it:

* `number_cut`, `string_cut`: a number's digits, a string up to its quote;
* `name_cut`: a name before its mark and a value;
* `emit_cut`: a value, with its items and members.
-/

namespace McpgSql.Cache

open Library

/-! ## Clean texts -/

/-- The bytes a value starts with. -/
def startBytes : List UInt8 := utf8 "ntf#\"[\x7b"

/-- The bytes after a quote read as what follows a value: the end of a member or
of a list, or the index of the next item. -/
def breaks (bytes : List UInt8) : Bool :=
  bytes.head? = some ';'.toUInt8 || bytes.head? = some ']'.toUInt8 ||
    (bytes.drop 2).take 2 = [0, 0]

/-- No quote in the text is followed by what may follow a value. -/
def quoteSafe : List UInt8 → Bool
  | [] => true
  | b :: bytes => !(b = '"'.toUInt8 && breaks bytes) && quoteSafe bytes

/-- No `mark` in the text is followed by the start of a value. -/
def markSafe (mark : UInt8) : List UInt8 → Bool
  | [] => true
  | b :: bytes => !(b = mark && bytes.head?.any (· ∈ startBytes)) && markSafe mark bytes

/-- The name of a member. -/
def cleanName (k : String) : Bool :=
  markSafe ':'.toUInt8 (utf8 k) && 0 ∉ utf8 k && (utf8 k).head? ≠ some '}'.toUInt8

/-- A double that is neither infinite nor no number, which JSON numbers are. -/
def isFinite (bits : BitVec 64) : Bool := bits.extractLsb' 52 11 ≠ 2047#11

def finite : Number → Bool
  | .float bits => isFinite bits
  | _ => true

mutual

/-- The texts in a value are clean, and no list in it is longer than two bytes of
its index count. -/
def clean : Value → Bool
  | .num n => finite n
  | .str s => quoteSafe (utf8 s)
  | .arr items => items.length ≤ 65536 && cleanItems items
  | .obj members => cleanMembers members
  | _ => true

def cleanItems : List Value → Bool
  | [] => true
  | v :: items => clean v && cleanItems items

def cleanMembers : List (String × Value) → Bool
  | [] => true
  | (k, v) :: members => cleanName k && clean v && cleanMembers members

end

theorem not_breaks_of_quoteSafe {x z : List UInt8} (h : quoteSafe (x ++ '"'.toUInt8 :: z)) :
    breaks z = false := by
  induction x with
  | nil =>
    simp only [List.nil_append, quoteSafe, Bool.and_eq_true] at h
    simpa using h.1
  | cons b x ih =>
    simp only [List.cons_append, quoteSafe, Bool.and_eq_true] at h
    exact ih h.2

theorem not_start_of_markSafe {mark c : UInt8} {x z : List UInt8}
    (h : markSafe mark (x ++ mark :: c :: z)) : c ∉ startBytes := by
  induction x with
  | nil =>
    simp only [List.nil_append, markSafe, Bool.and_eq_true] at h
    simpa using h.1
  | cons b x ih =>
    simp only [List.cons_append, markSafe, Bool.and_eq_true] at h
    exact ih h.2

theorem cleanMembers_iff {members : List (String × Value)} :
    cleanMembers members ↔ ∀ m ∈ members, cleanName m.1 ∧ clean m.2 := by
  induction members with
  | nil => simp [cleanMembers]
  | cons m members ih =>
    obtain ⟨k, v⟩ := m
    simp [cleanMembers, ih, and_assoc]

mutual

/-- The canonical form of a clean value is clean. -/
theorem clean_canon : (v : Value) → clean v → clean (canon v)
  | .null, h | .bool _, h | .num _, h | .str _, h => h
  | .arr items, h => by
    simp only [clean, Bool.and_eq_true, decide_eq_true_eq] at h
    simp only [canon, clean, Bool.and_eq_true, decide_eq_true_eq]
    exact ⟨by simpa [canonItems_eq_map] using h.1, cleanItems_canon items h.2⟩
  | .obj members, h => by
    have h := cleanMembers_iff.mp (cleanMembers_canon members h)
    exact cleanMembers_iff.mpr fun m hm => h m ((List.mem_insertionSort _).mp hm)

theorem cleanItems_canon : (items : List Value) → cleanItems items → cleanItems (canonItems items)
  | [], h => h
  | v :: items, h => by
    simp only [cleanItems, Bool.and_eq_true] at h
    simp only [canonItems, cleanItems, Bool.and_eq_true]
    exact ⟨clean_canon v h.1, cleanItems_canon items h.2⟩

theorem cleanMembers_canon : (members : List (String × Value)) → cleanMembers members →
    cleanMembers (canonMembers members)
  | [], h => h
  | (k, v) :: members, h => by
    simp only [cleanMembers, Bool.and_eq_true] at h
    simp only [canonMembers, cleanMembers, Bool.and_eq_true]
    exact ⟨⟨h.1.1, clean_canon v h.1.2⟩, cleanMembers_canon members h.2⟩

end

/-! ## Numbers -/

/-- The characters of a number's text. -/
def isNumberChar (c : Char) : Bool := c.isDigit || c ∈ ['+', '-', '.', 'e']

def isNumberByte (b : UInt8) : Bool := (48 ≤ b && b ≤ 57) || b ∈ utf8 "+-.e"

/-- What the key relies on: BLAKE3 has no collision, and the texts of finite
doubles are decimal numbers with a point or an exponent, and read back. -/
structure Lib.Lawful (lib : Lib) : Prop where
  blake3_injective : Function.Injective lib.blake3Hex
  float_injective : ∀ a b, isFinite a → isFinite b → lib.floatText a = lib.floatText b → a = b
  float_chars : ∀ a, isFinite a → ∀ c ∈ (lib.floatText a).toList, isNumberChar c
  float_mark : ∀ a, isFinite a → '.' ∈ (lib.floatText a).toList ∨ 'e' ∈ (lib.floatText a).toList

variable {lib : Lib}

/-- The bytes of a number's characters. -/
theorem isNumberByte_of_char {c : Char} (h : isNumberChar c) :
    ∀ b ∈ String.utf8EncodeChar c, isNumberByte b := by
  rcases Bool.or_eq_true _ _ |>.mp h with h | h
  · have hc : 48 ≤ c.val.toNat ∧ c.val.toNat ≤ 57 := by
      simpa [Char.isDigit, UInt32.le_iff_toNat_le] using h
    obtain ⟨he, hcode⟩ := utf8EncodeChar_of_ascii (c := c) (by omega)
    intro b hb
    rw [he, List.mem_singleton] at hb
    subst hb
    simp only [isNumberByte, Bool.or_eq_true, Bool.and_eq_true, decide_eq_true_eq,
      UInt8.le_iff_toNat_le, hcode]
    left
    exact hc
  · have hall : ['+', '-', '.', 'e'].all fun c => (String.utf8EncodeChar c).all isNumberByte := by
      decide
    exact List.all_eq_true.mp (List.all_eq_true.mp hall c (by simpa using h))

theorem isDigit_of_mem_repr {n : Nat} {c : Char} (h : c ∈ (Nat.repr n).toList) : c.isDigit := by
  rw [Nat.toList_repr] at h
  exact Nat.isDigit_of_mem_toDigits (by decide) (by decide) h

theorem repr_inj {m n : Nat} (h : Nat.repr m = Nat.repr n) : m = n := by
  have := congrArg (fun s : String => Nat.ofDigitChars 10 s.toList 0) h
  simpa [Nat.toList_repr, Nat.ofDigitChars_toDigits] using this

/-- The characters of an integer's text. -/
theorem integer_chars (lib : Lib) {n : Number} (hn : ∀ bits, n ≠ .float bits) :
    ∀ c ∈ (numberText lib n).toList, c.isDigit ∨ c = '-' := by
  intro c hc
  cases n with
  | pos n => exact .inl (isDigit_of_mem_repr hc)
  | neg n =>
    simp only [numberText, String.toList_append, List.mem_append] at hc
    rcases hc with hc | hc
    · exact .inr (by simpa using hc)
    · exact .inl (isDigit_of_mem_repr hc)
  | float bits => exact (hn bits rfl).elim

theorem number_bytes (hlib : lib.Lawful) {n : Number} (hn : finite n) :
    ∀ b ∈ utf8 (numberText lib n), isNumberByte b := by
  have hchars : ∀ c ∈ (numberText lib n).toList, isNumberChar c := by
    intro c hc
    cases n with
    | float bits => exact hlib.float_chars bits hn c hc
    | pos n | neg n =>
      rcases integer_chars lib (by simp) c hc with h | h <;> simp [isNumberChar, h]
  intro b hb
  rw [utf8_eq_flatMap] at hb
  obtain ⟨c, hc, hb⟩ := List.mem_flatMap.mp hb
  exact isNumberByte_of_char (hchars c hc) b hb

/-- Only doubles have a point or an exponent. -/
theorem float_text_ne (hlib : lib.Lawful) {bits : BitVec 64} (hbits : isFinite bits) {n : Number}
    (hn : ∀ bits, n ≠ .float bits) : lib.floatText bits ≠ numberText lib n := by
  intro h
  have hc := integer_chars lib hn
  rw [← h] at hc
  rcases hlib.float_mark bits hbits with hm | hm
  · exact absurd (hc _ hm) (by decide)
  · exact absurd (hc _ hm) (by decide)

theorem numberText_inj (hlib : lib.Lawful) {m n : Number} (hm : finite m) (hn : finite n)
    (h : numberText lib m = numberText lib n) : m = n := by
  have hneg : ∀ a b, Nat.repr a ≠ "-" ++ Nat.repr b := fun a b h => by
    have : '-' ∈ (Nat.repr a).toList := by rw [h]; simp
    exact absurd (isDigit_of_mem_repr this) (by decide)
  match m, n with
  | .pos a, .pos b => exact congrArg _ (repr_inj h)
  | .neg a, .neg b =>
    have : a + 1 = b + 1 := repr_inj (String.append_right_inj _ |>.mp h)
    exact congrArg _ (by omega)
  | .float a, .float b => exact congrArg _ (hlib.float_injective a b hm hn h)
  | .pos a, .neg b => exact (hneg _ _ h).elim
  | .neg a, .pos b => exact (hneg _ _ h.symm).elim
  | .float a, .pos _ | .float a, .neg _ => exact (float_text_ne hlib hm (by simp) h).elim
  | .pos _, .float b | .neg _, .float b => exact (float_text_ne hlib hn (by simp) h.symm).elim

/-! ## What follows a value -/

/-- The index of an item or a parameter in two bytes, and two zeros. -/
theorem le32_of_lt {i : Nat} (h : i < 65536) :
    le32 i = [UInt8.ofNat i, UInt8.ofNat (i / 256), 0, 0] := by
  have h2 : i / 2 ^ 16 = 0 := by omega
  have h3 : i / 2 ^ 24 = 0 := by omega
  rw [le32, h2, h3]
  rfl

theorem le32_ne_zeros {i : Nat} (h0 : 0 < i) (h : i < 65536) :
    ¬(UInt8.ofNat i = 0 ∧ UInt8.ofNat (i / 256) = 0) := by
  rintro ⟨hlo, hhi⟩
  have hlo := congrArg UInt8.toNat hlo
  have hhi := congrArg UInt8.toNat hhi
  simp only [UInt8.toNat_ofNat', UInt8.toNat_zero, Nat.reducePow] at hlo hhi
  omega

theorem start_ne_zero {c : UInt8} (h : c ∈ startBytes) : c ≠ 0 := by
  have hall : startBytes.all fun c => c ≠ 0 := by decide
  simpa using List.all_eq_true.mp hall c h

/-- What may follow a value: the end of a member or a parameter, the end of the
list it is the last item of, or the index of the next item and its value. -/
inductive Follow : List UInt8 → Prop
  | done {s : List UInt8} (h : ¬[0, 0] <+: s) : Follow (';'.toUInt8 :: s)
  | close {s : List UInt8} (h : Follow s) : Follow (']'.toUInt8 :: s)
  | index {i : Nat} {c : UInt8} {s : List UInt8} (h0 : 0 < i) (h : i < 65536)
      (hc : c ∈ startBytes) : Follow (le32 i ++ c :: s)

theorem Follow.not_zeros {s : List UInt8} : ¬Follow (0 :: 0 :: s) := by
  intro h
  generalize hs : 0 :: 0 :: s = l at h
  cases h with
  | done h => exact absurd (List.cons.inj hs).1 (by decide)
  | close h => exact absurd (List.cons.inj hs).1 (by decide)
  | index h0 hi hc =>
    rw [le32_of_lt hi] at hs
    simp only [List.cons_append, List.cons.injEq] at hs
    exact le32_ne_zeros h0 hi ⟨hs.1.symm, hs.2.1.symm⟩

/-- Nothing that follows a value starts inside an index. -/
theorem Follow.not_inside {b c : UInt8} {s : List UInt8} (hc : c ∈ startBytes) :
    ¬Follow (b :: 0 :: 0 :: c :: s) := by
  intro h
  generalize hs : b :: 0 :: 0 :: c :: s = l at h
  cases h with
  | done h => exact h ⟨c :: s, (List.cons.inj hs).2⟩
  | close h => exact Follow.not_zeros ((List.cons.inj hs).2 ▸ h)
  | index h0 hi hc' =>
    rw [le32_of_lt hi] at hs
    simp only [List.cons_append, List.cons.injEq] at hs
    exact start_ne_zero hc hs.2.2.2.1

/-- A number ends before what follows it. -/
theorem number_stop {z s t : List UInt8} {b : UInt8} (hz : ∀ c ∈ b :: z, isNumberByte c)
    (hs : Follow s) (ht : Follow t) (h : s = b :: z ++ t) : False := by
  have hb := hz b List.mem_cons_self
  cases hs with
  | done _ => exact absurd (hb : isNumberByte b) (by rw [← (List.cons.inj h).1]; decide)
  | close _ => exact absurd (hb : isNumberByte b) (by rw [← (List.cons.inj h).1]; decide)
  | index h0 hi hc =>
    rw [le32_of_lt hi] at h
    -- The number would end after one or two bytes of the index.
    match z, h with
    | [], h =>
      simp only [List.cons_append, List.nil_append, List.cons.injEq] at h
      rw [← h.2] at ht
      exact Follow.not_inside hc ht
    | [_], h =>
      simp only [List.cons_append, List.nil_append, List.cons.injEq] at h
      rw [← h.2.2] at ht
      exact Follow.not_zeros ht
    | _ :: c :: _, h =>
      simp only [List.cons_append, List.cons.injEq] at h
      have := hz c (by simp)
      rw [← h.2.2.1] at this
      exact absurd this (by decide)

theorem number_cut {x y s t : List UInt8} (hx : ∀ c ∈ x, isNumberByte c)
    (hy : ∀ c ∈ y, isNumberByte c) (hs : Follow s) (ht : Follow t) (h : x ++ s = y ++ t) :
    x = y ∧ s = t :=
  append_inj_of_stop h
    (fun _ _ hz hs' => number_stop (fun c hc => hy c (by rw [hz]; simp_all)) hs ht hs')
    (fun _ _ hz ht' => number_stop (fun c hc => hx c (by rw [hz]; simp_all)) ht hs ht')

/-- A quote in a clean text is not followed by what follows a value. -/
theorem string_stop {z s t : List UInt8} (hz : breaks z = false) (hs : Follow s) (ht : Follow t)
    (h : s = z ++ '"'.toUInt8 :: t) : False := by
  simp only [breaks, Bool.or_eq_false_iff, decide_eq_false_iff_not] at hz
  cases hs with
  | done _ =>
    cases z with
    | nil => exact absurd (List.cons.inj h).1 (by decide)
    | cons b z => exact hz.1.1 (by rw [← (List.cons.inj h).1]; rfl)
  | close _ =>
    cases z with
    | nil => exact absurd (List.cons.inj h).1 (by decide)
    | cons b z => exact hz.1.2 (by rw [← (List.cons.inj h).1]; rfl)
  | index h0 hi hc =>
    rw [le32_of_lt hi] at h
    match z, h with
    | [], h =>
      simp only [List.cons_append, List.nil_append, List.cons.injEq] at h
      rw [← h.2] at ht
      exact Follow.not_inside hc ht
    | [_], h =>
      simp only [List.cons_append, List.nil_append, List.cons.injEq] at h
      rw [← h.2.2] at ht
      exact Follow.not_zeros ht
    | [_, _], h =>
      simp only [List.cons_append, List.nil_append, List.cons.injEq] at h
      exact absurd h.2.2.1 (by decide)
    | [_, _, _], h =>
      simp only [List.cons_append, List.nil_append, List.cons.injEq] at h
      exact absurd h.2.2.2.1 (by decide)
    | _ :: _ :: a :: b :: _, h =>
      simp only [List.cons_append, List.cons.injEq] at h
      exact hz.2 (by rw [← h.2.2.1, ← h.2.2.2.1]; rfl)

theorem string_cut {x y s t : List UInt8} (hx : quoteSafe x) (hy : quoteSafe y) (hs : Follow s)
    (ht : Follow t) (h : x ++ '"'.toUInt8 :: s = y ++ '"'.toUInt8 :: t) : x = y ∧ s = t :=
  cut_inj_of_stop h
    (fun _ hz hst => string_stop (not_breaks_of_quoteSafe (hz ▸ hy)) hs ht hst)
    (fun _ hz hts => string_stop (not_breaks_of_quoteSafe (hz ▸ hx)) ht hs hts)

/-- The bytes start like a value. -/
def Starts (s : List UInt8) : Prop := ∃ c ∈ s.head?, c ∈ startBytes

/-- A mark in a clean name is not followed by a value. -/
theorem name_stop {mark : UInt8} {x y z s t : List UInt8} (hmark : mark ∉ startBytes)
    (hs : Starts s) (hy : markSafe mark y) (hz : y = x ++ mark :: z)
    (h : s = z ++ mark :: t) : False := by
  obtain ⟨c, hc, hstart⟩ := hs
  rw [h] at hc
  cases z with
  | nil =>
    obtain rfl : mark = c := by simpa using hc
    exact hmark hstart
  | cons b z =>
    obtain rfl : b = c := by simpa using hc
    exact not_start_of_markSafe (hz ▸ hy) hstart

theorem name_cut {mark : UInt8} {x y s t : List UInt8} (hmark : mark ∉ startBytes)
    (hs : Starts s) (ht : Starts t) (hx : markSafe mark x) (hy : markSafe mark y)
    (h : x ++ mark :: s = y ++ mark :: t) : x = y ∧ s = t :=
  cut_inj_of_stop h (fun _ hz hst => name_stop hmark hs hy hz hst)
    (fun _ hz hts => name_stop hmark ht hx hz hts)

/-! ## Values -/

/-- The constructor of a value. -/
def kind : Value → Nat
  | .null => 0
  | .bool _ => 1
  | .num _ => 2
  | .str _ => 3
  | .arr _ => 4
  | .obj _ => 5

/-- The constructor of a value that starts with this byte. -/
def kindOf (b : UInt8) : Nat := [0, 1, 1, 2, 3, 4, 5].getD (startBytes.idxOf b) 0

theorem emit_start (lib : Lib) (v : Value) :
    ∃ c s, emit lib v = c :: s ∧ c ∈ startBytes ∧ kind v = kindOf c := by
  cases v with
  | bool b => cases b <;> exact ⟨_, _, by rw [emit], by decide, rfl⟩
  | null | num | str | arr | obj => exact ⟨_, _, by rw [emit], by decide, rfl⟩

theorem starts_emit (lib : Lib) (v : Value) (s : List UInt8) : Starts (emit lib v ++ s) := by
  obtain ⟨c, x, hx, hc, -⟩ := emit_start lib v
  exact ⟨c, by simp [hx], hc⟩

theorem kind_eq {v w : Value} {s t : List UInt8} (h : emit lib v ++ s = emit lib w ++ t) :
    kind v = kind w := by
  obtain ⟨b, x, hx, -, hv⟩ := emit_start lib v
  obtain ⟨c, y, hy, -, hw⟩ := emit_start lib w
  rw [hx, hy] at h
  rw [hv, hw, (List.cons.inj h).1]

/-- The items after a value follow it. -/
theorem follow_items {i : Nat} {items : List Value} {s : List UInt8} (h0 : 0 < i)
    (hi : i + items.length ≤ 65536) (hs : Follow s) :
    Follow (emitItems lib i items ++ ']'.toUInt8 :: s) := by
  cases items with
  | nil => exact .close hs
  | cons v items =>
    obtain ⟨c, x, hx, hc, -⟩ := emit_start lib v
    have hi : i < 65536 := by simp only [List.length_cons] at hi; omega
    rw [emitItems, hx]
    simpa using Follow.index h0 hi hc

/-- The members after a value follow it. -/
theorem follow_members {members : List (String × Value)} {s : List UInt8}
    (h : cleanMembers members) :
    Follow (';'.toUInt8 :: (emitMembers lib members ++ '}'.toUInt8 :: s)) := by
  refine .done fun ⟨r, hr⟩ => ?_
  cases members with
  | nil => exact absurd (List.cons.inj hr).1 (by decide)
  | cons m members =>
    obtain ⟨k, v⟩ := m
    have hk : 0 ∉ utf8 k := by
      have := (cleanMembers_iff.mp h (k, v) List.mem_cons_self).1
      simp only [cleanName, Bool.and_eq_true, decide_eq_true_eq] at this
      exact this.1.2
    rw [emitMembers] at hr
    cases hb : utf8 k with
    | nil =>
      rw [hb] at hr
      exact absurd (List.cons.inj hr).1 (by decide)
    | cons b bytes =>
      rw [hb] at hr hk
      exact hk (by rw [← (List.cons.inj hr).1]; simp)

/-- The end of a list is not the index of an item. -/
theorem not_close_index {i : Nat} {v : Value} {items : List Value} {s t : List UInt8}
    (hi : i + (v :: items).length ≤ 65536) (hs : Follow s)
    (h : emitItems lib i [] ++ ']'.toUInt8 :: s = emitItems lib i (v :: items) ++ t) : False := by
  obtain ⟨c, x, hx, hc, -⟩ := emit_start lib v
  have hi : i < 65536 := by simp only [List.length_cons] at hi; omega
  rw [emitItems, emitItems, hx, le32_of_lt hi] at h
  simp only [List.nil_append, List.cons_append, List.append_assoc, List.cons.injEq] at h
  rw [h.2] at hs
  exact Follow.not_inside hc hs

/-- The end of an object is not the name of a member. -/
theorem not_close_name {k : String} {v : Value} {members : List (String × Value)}
    {s t : List UInt8} (hm : cleanMembers ((k, v) :: members))
    (h : emitMembers lib [] ++ '}'.toUInt8 :: s = emitMembers lib ((k, v) :: members) ++ t) :
    False := by
  have hk := (cleanMembers_iff.mp hm (k, v) List.mem_cons_self).1
  simp only [cleanName, Bool.and_eq_true, decide_eq_true_eq] at hk
  rw [emitMembers, emitMembers] at h
  cases hb : utf8 k with
  | nil =>
    rw [hb] at h
    exact absurd (List.cons.inj h).1 (by decide)
  | cons b bytes =>
    rw [hb] at h hk
    exact hk.2 (by rw [← (List.cons.inj h).1]; rfl)

mutual

/-- A clean value is cut off the bytes in one way. -/
theorem emit_cut (hlib : lib.Lawful) : (v w : Value) → {s t : List UInt8} → clean v → clean w →
    Follow s → Follow t → emit lib v ++ s = emit lib w ++ t → v = w ∧ s = t
  | .null, w, s, t, hv, hw, hs, ht, h => by
    have hk := kind_eq h
    cases w with
    | null => exact ⟨rfl, by simpa [emit] using h⟩
    | _ => simp [kind] at hk
  | .bool a, w, s, t, hv, hw, hs, ht, h => by
    have hk := kind_eq h
    cases w with
    | bool b =>
      cases a <;> cases b
      · exact ⟨rfl, (List.cons.inj h).2⟩
      · exact absurd (List.cons.inj h).1 (by decide)
      · exact absurd (List.cons.inj h).1 (by decide)
      · exact ⟨rfl, (List.cons.inj h).2⟩
    | _ => simp [kind] at hk
  | .num m, w, s, t, hv, hw, hs, ht, h => by
    have hk := kind_eq h
    cases w with
    | num n =>
      obtain ⟨htext, hst⟩ := number_cut (number_bytes hlib hv) (number_bytes hlib hw) hs ht
        (List.cons.inj h).2
      rw [numberText_inj hlib hv hw (utf8_inj.mp htext)]
      exact ⟨rfl, hst⟩
    | _ => simp [kind] at hk
  | .str a, w, s, t, hv, hw, hs, ht, h => by
    have hk := kind_eq h
    cases w with
    | str b =>
      obtain ⟨htext, hst⟩ := string_cut hv hw hs ht (by simpa [emit] using h)
      rw [utf8_inj.mp htext]
      exact ⟨rfl, hst⟩
    | _ => simp [kind] at hk
  | .arr a, w, s, t, hv, hw, hs, ht, h => by
    have hk := kind_eq h
    cases w with
    | arr b =>
      simp only [clean, Bool.and_eq_true, decide_eq_true_eq] at hv hw
      obtain ⟨hab, hst⟩ := emitItems_cut hlib 0 a b (by omega) (by omega) hv.2 hw.2 hs ht
        (by simpa [emit] using h)
      rw [hab]
      exact ⟨rfl, hst⟩
    | _ => simp [kind] at hk
  | .obj a, w, s, t, hv, hw, hs, ht, h => by
    have hk := kind_eq h
    cases w with
    | obj b =>
      obtain ⟨hab, hst⟩ := emitMembers_cut hlib a b hv hw (by simpa [emit] using h)
      rw [hab]
      exact ⟨rfl, hst⟩
    | _ => simp [kind] at hk

theorem emitItems_cut (hlib : lib.Lawful) : (i : Nat) → (a b : List Value) → {s t : List UInt8} →
    i + a.length ≤ 65536 → i + b.length ≤ 65536 → cleanItems a → cleanItems b → Follow s →
    Follow t → emitItems lib i a ++ ']'.toUInt8 :: s = emitItems lib i b ++ ']'.toUInt8 :: t →
    a = b ∧ s = t
  | _, [], [], s, t, _, _, _, _, _, _, h => ⟨rfl, (List.cons.inj h).2⟩
  | i, [], w :: b, s, t, _, hib, _, _, hs, _, h => (not_close_index hib hs h).elim
  | i, v :: a, [], s, t, hia, _, _, _, _, ht, h => (not_close_index hia ht h.symm).elim
  | i, v :: a, w :: b, s, t, hia, hib, ha, hb, hs, ht, h => by
    simp only [cleanItems, Bool.and_eq_true] at ha hb
    simp only [List.length_cons] at hia hib
    simp only [emitItems, List.append_assoc] at h
    obtain ⟨hvw, hst⟩ := emit_cut hlib v w ha.1 hb.1 (follow_items (by omega) (by omega) hs)
      (follow_items (by omega) (by omega) ht) (List.append_cancel_left h)
    obtain ⟨hab, hst⟩ := emitItems_cut hlib (i + 1) a b (by omega) (by omega) ha.2 hb.2 hs ht hst
    rw [hvw, hab]
    exact ⟨rfl, hst⟩

theorem emitMembers_cut (hlib : lib.Lawful) : (a b : List (String × Value)) →
    {s t : List UInt8} → cleanMembers a → cleanMembers b →
    emitMembers lib a ++ '}'.toUInt8 :: s = emitMembers lib b ++ '}'.toUInt8 :: t →
    a = b ∧ s = t
  | [], [], s, t, _, _, h => ⟨rfl, (List.cons.inj h).2⟩
  | [], (k, w) :: b, s, t, _, hb, h => (not_close_name hb h).elim
  | (k, v) :: a, [], s, t, ha, _, h => (not_close_name ha h.symm).elim
  | (k, v) :: a, (j, w) :: b, s, t, ha, hb, h => by
    simp only [cleanMembers, cleanName, Bool.and_eq_true] at ha hb
    simp only [emitMembers, List.append_assoc, List.cons_append] at h
    obtain ⟨hkj, h⟩ := name_cut (by decide) (starts_emit lib v _) (starts_emit lib w _)
      ha.1.1.1.1 hb.1.1.1.1 h
    obtain ⟨hvw, h⟩ := emit_cut hlib v w ha.1.2 hb.1.2 (follow_members ha.2)
      (follow_members hb.2) h
    obtain ⟨hab, hst⟩ := emitMembers_cut hlib a b ha.2 hb.2 (List.cons.inj h).2
    rw [utf8_inj.mp hkj, hvw, hab]
    exact ⟨rfl, hst⟩

end

end McpgSql.Cache
