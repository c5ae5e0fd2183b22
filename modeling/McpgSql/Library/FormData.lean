import McpgSql.Library.Radix
import McpgSql.Library.Utf8

/-!
# Queries of URLs

Percent-encoding, and the pairs of an `application/x-www-form-urlencoded` query: bytes
that are not plain are written `%XX`, a space in a form as `+`, and the pairs stand
between `&`, each a name, `=` and a value.

* `decode_encode`: a percent-encoded text is read back;
* `readPairs_append`: a pair that is appended to a query is read after those of it.
-/

namespace McpgSql.Library.Form

/-! ## Percent-encoding -/

/-- A byte as two hexadecimal digits in upper case. -/
def percentByte (b : UInt8) : List Char :=
  ['%', (b.toNat / 16).digitChar.toUpper, (b.toNat % 16).digitChar.toUpper]

def encodeByte (plain : UInt8 → Bool) (b : UInt8) : List Char :=
  if plain b then [Char.ofNat b.toNat] else percentByte b

/-- The bytes of a text, those that are not plain as `%XX`. -/
def encode (plain : UInt8 → Bool) (bytes : List UInt8) : List Char := bytes.flatMap (encodeByte plain)

def isAlphanumeric (b : UInt8) : Bool :=
  (65 ≤ b && b ≤ 90) || (97 ≤ b && b ≤ 122) || (48 ≤ b && b ≤ 57)

/-- The unreserved characters of RFC 3986: letters, digits, `-`, `_`, `.` and `~`. -/
def isUnreserved (b : UInt8) : Bool := isAlphanumeric b || b = 45 || b = 95 || b = 46 || b = 126

/-- What a form serializer leaves as it is: letters, digits, `*`, `-`, `.` and `_`. -/
def isFormPlain (b : UInt8) : Bool := isAlphanumeric b || b = 42 || b = 45 || b = 46 || b = 95

/-- A byte as a form serializer writes it. -/
def serializeByte (b : UInt8) : List Char := if b = 32 then ['+'] else encodeByte isFormPlain b

def serialize (bytes : List UInt8) : List Char := bytes.flatMap serializeByte

/-- The bytes that a text of a form stands for; a `%` without two digits is itself. -/
def decode : List Char → List UInt8
  | [] => []
  | '+' :: cs => 32 :: decode cs
  | '%' :: h :: l :: cs => match digitOf 16 h, digitOf 16 l with
    | some high, some low => UInt8.ofNat (16 * high + low) :: decode cs
    | _, _ => 37 :: decode (h :: l :: cs)
  | c :: cs => String.utf8EncodeChar c ++ decode cs

/-! ## Pairs -/

/-- A pair behind the query there is. -/
def appendPair (query : List Char) (name value : List UInt8) : List Char :=
  (if query.isEmpty then [] else query ++ ['&']) ++ serialize name ++ '=' :: serialize value

/-- A piece of a query: the name before the first `=` and the value after it. -/
def readPair (piece : List Char) : List UInt8 × List UInt8 :=
  (decode (piece.takeWhile (· ≠ '=')), decode ((piece.dropWhile (· ≠ '=')).drop 1))

/-- The pairs of a query; empty pieces are none. -/
def readPairs (query : List Char) : List (List UInt8 × List UInt8) :=
  ((query.splitOn '&').filter (!·.isEmpty)).map readPair

/-! ## Reading back -/

/-- The characters that one encoding or the other leaves as they are. -/
theorem ofNat_cases {b : UInt8} (h : isAlphanumeric b ∨ b = 42 ∨ b = 45 ∨ b = 46 ∨ b = 95 ∨ b = 126) :
    String.utf8EncodeChar (Char.ofNat b.toNat) = [b] ∧
      Char.ofNat b.toNat ∉ ['%', '+', '&', '='] := by
  have hcodes : ∀ n < 256, (isAlphanumeric (.ofNat n) ∨ UInt8.ofNat n = 42 ∨ UInt8.ofNat n = 45 ∨
      UInt8.ofNat n = 46 ∨ UInt8.ofNat n = 95 ∨ UInt8.ofNat n = 126) →
      String.utf8EncodeChar (Char.ofNat n) = [UInt8.ofNat n] ∧
        Char.ofNat n ∉ ['%', '+', '&', '='] := by
    decide +kernel
  have hb := hcodes b.toNat b.toNat_lt
  rw [UInt8.ofNat_toNat] at hb
  exact hb h

/-- The plain bytes of both encodings are other ASCII characters than `%`, `+`, `&` and `=`. -/
structure Plain (plain : UInt8 → Bool) : Prop where
  encoded : ∀ b, plain b = true → String.utf8EncodeChar (Char.ofNat b.toNat) = [b]
  separate : ∀ b, plain b = true → Char.ofNat b.toNat ∉ ['%', '+', '&', '=']

theorem isUnreserved_plain : Plain isUnreserved := by
  have h : ∀ b, isUnreserved b = true →
      isAlphanumeric b ∨ b = 42 ∨ b = 45 ∨ b = 46 ∨ b = 95 ∨ b = 126 := by
    intro b hb
    simp only [isUnreserved, Bool.or_eq_true, decide_eq_true_eq] at hb
    tauto
  exact ⟨fun b hb => (ofNat_cases (h b hb)).1, fun b hb => (ofNat_cases (h b hb)).2⟩

theorem isFormPlain_plain : Plain isFormPlain := by
  have h : ∀ b, isFormPlain b = true →
      isAlphanumeric b ∨ b = 42 ∨ b = 45 ∨ b = 46 ∨ b = 95 ∨ b = 126 := by
    intro b hb
    simp only [isFormPlain, Bool.or_eq_true, decide_eq_true_eq] at hb
    tauto
  exact ⟨fun b hb => (ofNat_cases (h b hb)).1, fun b hb => (ofNat_cases (h b hb)).2⟩

section

variable {plain : UInt8 → Bool}

/-- A character other than `%` and `+` stands for its bytes. -/
theorem decode_cons {c : Char} (hpercent : c ≠ '%') (hplus : c ≠ '+') (cs : List Char) :
    decode (c :: cs) = String.utf8EncodeChar c ++ decode cs := by
  rw [decode.eq_def]
  split
  · rename_i heq; cases heq
  · rename_i heq; cases heq; exact absurd rfl hplus
  · rename_i heq; cases heq; exact absurd rfl hpercent
  · rename_i heq; cases heq; rfl

theorem decode_percentByte (b : UInt8) (cs : List Char) :
    decode (percentByte b ++ cs) = b :: decode cs := by
  have hlt := b.toNat_lt
  have hhigh : digitOf 16 (b.toNat / 16).digitChar.toUpper = some (b.toNat / 16) :=
    digitOf_upper_digitChar (by omega) (by omega)
  have hlow : digitOf 16 (b.toNat % 16).digitChar.toUpper = some (b.toNat % 16) :=
    digitOf_upper_digitChar (by omega) (by omega)
  have hsum : 16 * (b.toNat / 16) + b.toNat % 16 = b.toNat := by omega
  simp only [percentByte, List.cons_append, List.nil_append, decode, hhigh, hlow, hsum,
    UInt8.ofNat_toNat]

theorem decode_encodeByte (h : Plain plain) (b : UInt8) (cs : List Char) :
    decode (encodeByte plain b ++ cs) = b :: decode cs := by
  unfold encodeByte
  split
  · rename_i hb
    have hsep := h.separate b hb
    simp only [List.mem_cons, List.not_mem_nil, or_false, not_or] at hsep
    rw [List.cons_append, List.nil_append, decode_cons hsep.1 hsep.2.1, h.encoded b hb]
    rfl
  · exact decode_percentByte b cs

/-- A percent-encoded text is read back. -/
theorem decode_encode (h : Plain plain) (bytes : List UInt8) : decode (encode plain bytes) = bytes := by
  induction bytes with
  | nil => rfl
  | cons b bytes ih =>
    rw [encode, List.flatMap_cons, decode_encodeByte h]
    exact congrArg (b :: ·) ih

theorem decode_serialize (bytes : List UInt8) : decode (serialize bytes) = bytes := by
  induction bytes with
  | nil => rfl
  | cons b bytes ih =>
    rw [serialize, List.flatMap_cons, serializeByte]
    split
    · rename_i hb
      rw [hb]
      exact congrArg (32 :: ·) ih
    · rw [decode_encodeByte isFormPlain_plain]
      exact congrArg (b :: ·) ih

/-! ## Separators -/

theorem digit_ne_separator {n : Nat} (h : n < 16) :
    n.digitChar.toUpper ≠ '&' ∧ n.digitChar.toUpper ≠ '=' := by
  revert n
  decide

theorem mem_encodeByte (h : Plain plain) {b : UInt8} {c : Char} (hc : c ∈ encodeByte plain b) :
    c ≠ '&' ∧ c ≠ '=' := by
  unfold encodeByte at hc
  split at hc
  · rename_i hb
    have hsep := h.separate b hb
    simp only [List.mem_cons, List.not_mem_nil, or_false, not_or] at hsep
    rw [List.mem_singleton.mp hc]
    exact hsep.2.2
  · have hlt := b.toNat_lt
    simp only [percentByte, List.mem_cons, List.not_mem_nil, or_false] at hc
    rcases hc with rfl | rfl | rfl
    · decide
    · exact digit_ne_separator (by omega)
    · exact digit_ne_separator (by omega)

/-- An encoded text has no separator. -/
theorem mem_encode (h : Plain plain) {bytes : List UInt8} {c : Char} (hc : c ∈ encode plain bytes) :
    c ≠ '&' ∧ c ≠ '=' := by
  obtain ⟨b, -, hb⟩ := List.mem_flatMap.mp hc
  exact mem_encodeByte h hb

theorem mem_serialize {bytes : List UInt8} {c : Char} (hc : c ∈ serialize bytes) :
    c ≠ '&' ∧ c ≠ '=' := by
  obtain ⟨b, -, hb⟩ := List.mem_flatMap.mp hc
  unfold serializeByte at hb
  split at hb
  · rw [List.mem_singleton.mp hb]
    decide
  · exact mem_encodeByte isFormPlain_plain hb

/-- A piece is read as its name and its value. -/
theorem readPair_eq {name value : List Char} (hname : '=' ∉ name) :
    readPair (name ++ '=' :: value) = (decode name, decode value) := by
  have hne : ∀ c ∈ name, decide (c ≠ '=') = true := by
    intro c hc
    rw [decide_eq_true_eq]
    rintro rfl
    exact hname hc
  rw [readPair, List.takeWhile_append_of_pos hne, List.dropWhile_append_of_pos hne]
  simp

/-- A query of one piece. -/
theorem readPairs_single {name value : List Char} (hname : ∀ c ∈ name, c ≠ '&' ∧ c ≠ '=')
    (hvalue : '&' ∉ value) :
    readPairs (name ++ '=' :: value) = [(decode name, decode value)] := by
  have hpiece : '&' ∉ name ++ '=' :: value := by
    intro h
    rcases List.mem_append.mp h with h | h
    · exact (hname _ h).1 rfl
    · rcases List.mem_cons.mp h with h | h
      · cases h
      · exact hvalue h
  have hsplit : (name ++ '=' :: value).splitOn '&' = [name ++ '=' :: value] := by
    rw [List.splitOn_eq_splitOnP]
    apply List.splitOnP_eq_singleton
    intro c hc
    rw [beq_eq_false_iff_ne]
    rintro rfl
    exact hpiece hc
  have heq : '=' ∉ name := fun h => (hname _ h).2 rfl
  rw [readPairs, hsplit, List.filter_cons_of_pos (by simp), List.filter_nil, List.map_singleton,
    readPair_eq heq]

/-- The pieces behind a separator are read after those before it. -/
theorem readPairs_append (query rest : List Char) :
    readPairs (query ++ '&' :: rest) = readPairs query ++ readPairs rest := by
  rw [readPairs, List.splitOn_append_cons_self, List.filter_append, List.map_append]
  rfl

/-- A pair that is appended is read last. -/
theorem readPairs_appendPair (query : List Char) (name value : List UInt8) :
    readPairs (appendPair query name value) = readPairs query ++ [(name, value)] := by
  have hpiece : readPairs (serialize name ++ '=' :: serialize value) = [(name, value)] := by
    rw [readPairs_single (fun c hc => mem_serialize hc) fun h => (mem_serialize h).1 rfl,
      decode_serialize, decode_serialize]
  unfold appendPair
  split
  · rename_i hempty
    rw [List.isEmpty_iff.mp hempty]
    exact hpiece
  · rw [List.append_assoc, List.append_assoc, List.singleton_append, readPairs_append, hpiece]

end

end McpgSql.Library.Form
