import McpgSql.Library.Text
import McpgSql.Library.Utf8
import McpgSql.Params
import Mathlib.Data.List.TakeWhile

/-!
# The placeholders of a text

The grammar of `:name` placeholders on the characters of an SQL text (`parts`), and
`rewrite_placeholders`, which walks its bytes. A placeholder is a `:` and a name,
outside of quotes, where `::` is skipped from the left.

* `parts_induct`: induction along the parts of a text;
* `rewritePlaceholders_eq`: the rewriting follows the grammar, but that it writes
  each byte of the other characters as a character.
-/

namespace McpgSql.Sql

open Library

/-! ## The grammar -/

/-- Where a character stands. -/
inductive Quote where
  | outside
  /-- In `'...'`. -/
  | literal
  /-- In `"..."`. -/
  | identifier
deriving DecidableEq, Repr

/-- Where the character after `c` stands. -/
def Quote.next : Quote → Char → Quote
  | .outside, c => if c = '\'' then .literal else if c = '"' then .identifier else .outside
  | .literal, c => if c = '\'' then .outside else .literal
  | .identifier, c => if c = '"' then .outside else .identifier

/-- A part of a text: a character, or a placeholder with its name. -/
inductive Part where
  | char (c : Char)
  | hole (name : String)
deriving DecidableEq, Repr

/-- `[A-Za-z0-9_]`. -/
def isNameChar (c : Char) : Bool := c.isAlphanum || c = '_'

/-- The parts of a text from left to right. The first `skip` characters belong to the
part before them. -/
def parts : Quote → Nat → List Char → List Part
  | _, _, [] => []
  | q, skip + 1, _ :: cs => parts q skip cs
  | q, 0, c :: cs =>
    if q = .outside ∧ c = ':' then
      if cs.head? = some ':' then .char ':' :: .char ':' :: parts q 1 cs
      else if (cs.takeWhile isNameChar).isEmpty then .char ':' :: parts q 0 cs
      else .hole (String.ofList (cs.takeWhile isNameChar)) ::
        parts q (cs.takeWhile isNameChar).length cs
    else .char c :: parts (q.next c) 0 cs

/-- The parts of an SQL text. -/
def partsOf (sql : String) : List Part := parts .outside 0 sql.toList

/-- A part as it stands in the text. -/
def Part.source : Part → List Char
  | .char c => [c]
  | .hole name => ':' :: name.toList

/-- The names of the placeholders, from left to right. -/
def names : List Part → List String
  | [] => []
  | .char _ :: ps => names ps
  | .hole name :: ps => name :: names ps

/-- The driver's placeholder for the `i`-th argument, counted from one. -/
def positional (driver : DriverKind) (i : Nat) : List Char :=
  match driver with
  | .postgres => '$' :: (toString i).toList
  | .mysql | .mariadb | .sqlite => ['?']

/-- The text with the driver's placeholders after `i` of them, and the other characters
as `copy` writes them. -/
def filled (driver : DriverKind) (copy : Char → List Char) : Nat → List Part → List Char
  | _, [] => []
  | i, .char c :: ps => copy c ++ filled driver copy i ps
  | i, .hole _ :: ps => positional driver (i + 1) ++ filled driver copy (i + 1) ps

example : partsOf "a=:x::t" = [.char 'a', .char '=', .hole "x", .char ':', .char ':', .char 't'] := by
  decide

/-! ## Reading the parts -/

theorem parts_skip (q : Quote) (skip : Nat) (cs : List Char) :
    parts q skip cs = parts q 0 (cs.drop skip) := by
  induction skip generalizing cs with
  | zero => rfl
  | succ skip ih =>
    cases cs with
    | nil => rfl
    | cons c cs => exact ih cs

theorem parts_cast (cs : List Char) :
    parts .outside 0 (':' :: ':' :: cs) = .char ':' :: .char ':' :: parts .outside 0 cs := rfl

theorem parts_lone {cs : List Char} (hcast : cs.head? ≠ some ':')
    (hname : cs.takeWhile isNameChar = []) :
    parts .outside 0 (':' :: cs) = .char ':' :: parts .outside 0 cs := by
  rw [parts, if_pos ⟨rfl, rfl⟩, if_neg hcast, if_pos (List.isEmpty_iff.mpr hname)]

theorem parts_hole {cs : List Char} (hname : cs.takeWhile isNameChar ≠ []) :
    parts .outside 0 (':' :: cs) = .hole (String.ofList (cs.takeWhile isNameChar)) ::
      parts .outside 0 (cs.dropWhile isNameChar) := by
  have hcast : cs.head? ≠ some ':' := by
    intro h
    obtain ⟨rest, rfl⟩ := List.head?_eq_some_iff.mp h
    exact hname rfl
  rw [parts, if_pos ⟨rfl, rfl⟩, if_neg hcast, if_neg (by simpa [List.isEmpty_iff] using hname),
    parts_skip, drop_length_takeWhile]

theorem parts_char {q : Quote} {c : Char} (h : ¬(q = .outside ∧ c = ':')) (cs : List Char) :
    parts q 0 (c :: cs) = .char c :: parts (q.next c) 0 cs := by
  rw [parts, if_neg h]

/-- Induction along the parts of a text. -/
theorem parts_induct {P : Quote → List Char → Prop} (nil : ∀ q, P q [])
    (cast : ∀ cs, P .outside cs → P .outside (':' :: ':' :: cs))
    (lone : ∀ cs, cs.head? ≠ some ':' → cs.takeWhile isNameChar = [] → P .outside cs →
      P .outside (':' :: cs))
    (hole : ∀ cs, cs.takeWhile isNameChar ≠ [] → P .outside (cs.dropWhile isNameChar) →
      P .outside (':' :: cs))
    (char : ∀ q c cs, ¬(q = .outside ∧ c = ':') → P (q.next c) cs → P q (c :: cs))
    (q : Quote) (cs : List Char) : P q cs := by
  induction hlen : cs.length using Nat.strong_induction_on generalizing q cs with
  | _ n ih =>
    subst hlen
    cases cs with
    | nil => exact nil q
    | cons c cs =>
      by_cases hcolon : q = .outside ∧ c = ':'
      · obtain ⟨rfl, rfl⟩ := hcolon
        by_cases hcast : cs.head? = some ':'
        · obtain ⟨rest, rfl⟩ := List.head?_eq_some_iff.mp hcast
          exact cast rest (ih _ (by simp only [List.length_cons]; omega) _ rest rfl)
        · by_cases hname : cs.takeWhile isNameChar = []
          · exact lone cs hcast hname (ih _ (by simp) _ cs rfl)
          · have hle := (List.dropWhile_suffix (l := cs) isNameChar).length_le
            exact hole cs hname (ih _ (by simp only [List.length_cons]; omega) _ _ rfl)
      · exact char q c cs hcolon (ih _ (by simp) _ cs rfl)

/-- The parts are the text, taken apart. -/
theorem source_parts (q : Quote) (cs : List Char) : (parts q 0 cs).flatMap Part.source = cs := by
  refine parts_induct (P := fun q cs => (parts q 0 cs).flatMap Part.source = cs) (fun q => rfl)
    (fun cs ih => ?_) (fun cs hcast hname ih => ?_) (fun cs hname ih => ?_)
    (fun q c cs h ih => ?_) q cs
  · rw [parts_cast, List.flatMap_cons, List.flatMap_cons, ih]
    rfl
  · rw [parts_lone hcast hname, List.flatMap_cons, ih]
    rfl
  · rw [parts_hole hname, List.flatMap_cons, ih]
    simp [Part.source, List.takeWhile_append_dropWhile]
  · rw [parts_char h, List.flatMap_cons, ih]
    rfl

/-- The names of the placeholders are such. -/
theorem isNameChar_of_hole {q : Quote} {cs : List Char} {name : String}
    (h : .hole name ∈ parts q 0 cs) : ∀ c ∈ name.toList, isNameChar c = true := by
  refine parts_induct (P := fun q cs => .hole name ∈ parts q 0 cs →
    ∀ c ∈ name.toList, isNameChar c = true) (fun q h => ?_)
    (fun cs ih h => ?_) (fun cs hcast hname ih h => ?_) (fun cs hname ih h => ?_)
    (fun q c cs hnot ih h => ?_) q cs h
  · cases q <;> cases h
  · rw [parts_cast] at h
    exact ih (by simpa using h)
  · rw [parts_lone hcast hname] at h
    exact ih (by simpa using h)
  · rw [parts_hole hname] at h
    rcases List.mem_cons.mp h with h | h
    · obtain rfl := Part.hole.inj h
      intro c hc
      rw [String.toList_ofList] at hc
      exact List.mem_takeWhile_imp hc
    · exact ih h
  · rw [parts_char hnot] at h
    exact ih (by simpa using h)

/-! ## Characters and their bytes -/

/-- The bytes of a text. -/
def bytes (cs : List Char) : List UInt8 := cs.flatMap String.utf8EncodeChar

/-- What the rewriting writes for a character: each of its bytes as a character. -/
def copied (c : Char) : List Char := (String.utf8EncodeChar c).map asChar

/-- What the scanners ask of a byte, they ask of the ASCII character. -/
theorem ascii_byte {c : Char} (h : c.val.toNat < 128) :
    (c.toUInt8 = 39 ↔ c = '\'') ∧ (c.toUInt8 = 34 ↔ c = '"') ∧ (c.toUInt8 = 58 ↔ c = ':') ∧
      (c.toUInt8 = 59 ↔ c = ';') ∧ isNameByte c.toUInt8 = isNameChar c ∧ asChar c.toUInt8 = c :=
  of_ascii (P := fun c => (c.toUInt8 = 39 ↔ c = '\'') ∧ (c.toUInt8 = 34 ↔ c = '"') ∧
    (c.toUInt8 = 58 ↔ c = ':') ∧ (c.toUInt8 = 59 ↔ c = ';') ∧
    isNameByte c.toUInt8 = isNameChar c ∧ asChar c.toUInt8 = c) h (by decide)

theorem copied_of_ascii {c : Char} (h : c.val.toNat < 128) : copied c = [c] := by
  rw [copied, (utf8EncodeChar_of_ascii h).1, List.map_singleton, (ascii_byte h).2.2.2.2.2]

/-- A character of a name is ASCII. -/
theorem ascii_of_isNameChar {c : Char} (h : isNameChar c = true) : c.val.toNat < 128 := by
  refine (identifier_char ?_).1
  rw [Bool.or_eq_true]
  exact .inl h

theorem isNameByte_of_not_ascii {b : UInt8} (h : 128 ≤ b.toNat) : isNameByte b = false := by
  have hb := b.toNat_lt
  simp only [isNameByte, Bool.or_eq_false_iff, Bool.and_eq_false_iff, decide_eq_false_iff_not,
    ge_iff_le, UInt8.le_iff_toNat_le, ← UInt8.toNat_inj, UInt8.reduceToNat]
  omega

/-- A name is read from the bytes as from the characters. -/
theorem takeWhile_bytes (cs : List Char) :
    (bytes cs).takeWhile isNameByte = (cs.takeWhile isNameChar).map Char.toUInt8 ∧
      (bytes cs).dropWhile isNameByte = bytes (cs.dropWhile isNameChar) := by
  induction cs with
  | nil => exact ⟨rfl, rfl⟩
  | cons c cs ih =>
    rw [bytes, List.flatMap_cons]
    by_cases hc : c.val.toNat < 128
    · obtain ⟨-, -, -, -, hname, -⟩ := ascii_byte hc
      rw [(utf8EncodeChar_of_ascii hc).1, List.singleton_append]
      cases h : isNameChar c with
      | true =>
        rw [h] at hname
        rw [List.takeWhile_cons_of_pos hname, List.dropWhile_cons_of_pos hname,
          List.takeWhile_cons_of_pos h, List.dropWhile_cons_of_pos h, List.map_cons]
        exact ⟨congrArg _ ih.1, ih.2⟩
      | false =>
        have h' : ¬isNameChar c = true := by rw [h]; exact Bool.false_ne_true
        have hname' : ¬isNameByte c.toUInt8 = true := by rw [hname]; exact h'
        rw [List.takeWhile_cons_of_neg hname', List.dropWhile_cons_of_neg hname',
          List.takeWhile_cons_of_neg h', List.dropWhile_cons_of_neg h', bytes, List.flatMap_cons,
          (utf8EncodeChar_of_ascii hc).1]
        exact ⟨rfl, rfl⟩
    · obtain ⟨hlen, hbytes⟩ := encodeChar_of_not_ascii (not_lt.mp hc)
      have h' : ¬isNameChar c = true := fun h => hc (ascii_of_isNameChar h)
      rw [List.takeWhile_cons_of_neg h', List.dropWhile_cons_of_neg h', bytes, List.flatMap_cons]
      cases henc : String.utf8EncodeChar c with
      | nil => rw [henc] at hlen; cases hlen
      | cons b bs =>
        have hb := isNameByte_of_not_ascii (hbytes b (by rw [henc]; exact List.mem_cons_self))
        have hb : ¬isNameByte b = true := by rw [hb]; exact Bool.false_ne_true
        rw [List.cons_append, List.takeWhile_cons_of_neg hb, List.dropWhile_cons_of_neg hb]
        exact ⟨rfl, rfl⟩

/-- The name that is read from the bytes. -/
theorem map_asChar_takeWhile (cs : List Char) :
    ((bytes cs).takeWhile isNameByte).map asChar = cs.takeWhile isNameChar := by
  rw [(takeWhile_bytes cs).1, List.map_map]
  refine (List.map_congr_left fun c hc => ?_).trans (List.map_id _)
  exact (ascii_byte (ascii_of_isNameChar (List.mem_takeWhile_imp hc))).2.2.2.2.2

theorem bytes_colon (cs : List Char) : bytes (':' :: cs) = 58 :: bytes cs := rfl

theorem head?_bytes {cs : List Char} : (bytes cs).head? = some 58 ↔ cs.head? = some ':' := by
  cases cs with
  | nil => exact ⟨nofun, nofun⟩
  | cons c cs =>
    rw [bytes, List.flatMap_cons, List.head?_cons, Option.some.injEq]
    by_cases hc : c.val.toNat < 128
    · rw [(utf8EncodeChar_of_ascii hc).1, List.singleton_append, List.head?_cons, Option.some.injEq]
      exact (ascii_byte hc).2.2.1
    · obtain ⟨hlen, hbytes⟩ := encodeChar_of_not_ascii (not_lt.mp hc)
      have hne : c ≠ ':' := by rintro rfl; exact hc (by decide)
      cases henc : String.utf8EncodeChar c with
      | nil => rw [henc] at hlen; cases hlen
      | cons b bs =>
        have hb : 128 ≤ b.toNat := hbytes b (by rw [henc]; exact List.mem_cons_self)
        have hb : b ≠ 58 := by rintro rfl; exact absurd hb (by decide)
        simp [hne, hb]

/-! ## The rewriting follows the grammar -/

/-- The flags of the loop say where it stands. -/
structure At (q : Quote) (st : Rewriting) : Prop where
  single : st.inSingleQuote = decide (q = .literal)
  double : st.inDoubleQuote = decide (q = .identifier)

/-- The loop has written `cs` and stands at `q`. -/
def wrote (st : Rewriting) (q : Quote) (cs : List Char) : Rewriting :=
  { st with
    out := st.out ++ cs
    inSingleQuote := decide (q = .literal)
    inDoubleQuote := decide (q = .identifier) }

theorem at_wrote (st : Rewriting) (q : Quote) (cs : List Char) : At q (wrote st q cs) := ⟨rfl, rfl⟩

variable {driver : DriverKind} {q : Quote} {st : Rewriting}

/-- A byte that is not ASCII is written as a character. -/
theorem rewriteLoop_high {n : Nat} {bs rest : List UInt8} (h : ∀ b ∈ bs, 128 ≤ b.toNat) :
    rewriteLoop driver (n + bs.length) (bs ++ rest) st =
      rewriteLoop driver n rest { st with out := st.out ++ bs.map asChar } := by
  induction bs generalizing st with
  | nil => simp
  | cons b bs ih =>
    obtain ⟨hb, hbs⟩ := List.forall_mem_cons.mp h
    have hne : ∀ a : UInt8, a.toNat < 128 → b ≠ a := by
      rintro a ha rfl
      omega
    rw [List.length_cons, ← Nat.add_assoc, List.cons_append, rewriteLoop]
    simp only [hne 39 (by decide), hne 34 (by decide), hne 58 (by decide), decide_false,
      Bool.false_and, Bool.false_eq_true, if_false]
    rw [ih hbs, List.map_cons, List.append_assoc, List.singleton_append]

/-- A character other than a quote, as `q` has them, keeps the place. -/
theorem Quote.next_of_not_ascii {c : Char} (h : 128 ≤ c.val.toNat) : q.next c = q := by
  have hsingle : c ≠ '\'' := by rintro rfl; exact absurd h (by decide)
  have hdouble : c ≠ '"' := by rintro rfl; exact absurd h (by decide)
  cases q <;> simp [Quote.next, hsingle, hdouble]

/-- A character that does not begin a placeholder or a cast is copied. -/
theorem rewriteLoop_char {n : Nat} {c : Char} {rest : List UInt8}
    (hcolon : ¬(q = .outside ∧ c = ':')) (hat : At q st) :
    rewriteLoop driver (n + (String.utf8EncodeChar c).length) (String.utf8EncodeChar c ++ rest) st =
      rewriteLoop driver n rest (wrote st (q.next c) (copied c)) := by
  by_cases hc : c.val.toNat < 128
  · obtain ⟨hsingle, hdouble, hcolon', -, -, hchar⟩ := ascii_byte hc
    rw [(utf8EncodeChar_of_ascii hc).1, List.singleton_append, List.length_singleton, rewriteLoop,
      copied_of_ascii hc, hat.single, hat.double, hchar]
    simp only [hsingle, hdouble, hcolon']
    by_cases h₁ : c = '\''
    · subst h₁
      cases q <;> rfl
    · by_cases h₂ : c = '"'
      · subst h₂
        cases q <;> rfl
      · have hq : q.next c = q := by cases q <;> simp [Quote.next, h₁, h₂]
        have hplace : ¬(decide (c = ':') && !decide (q = .literal) && !decide (q = .identifier)) := by
          cases q <;> simp_all
        rw [hq, if_neg (by simp [h₁]), if_neg (by simp [h₂]), if_neg hplace]
        rfl
  · obtain ⟨-, hbytes⟩ := encodeChar_of_not_ascii (not_lt.mp hc)
    rw [Quote.next_of_not_ascii (not_lt.mp hc), rewriteLoop_high hbytes, wrote, ← hat.single,
      ← hat.double]
    rfl

theorem placeholder_eq (order : List String) :
    placeholder driver order = positional driver order.length := by
  cases driver <;> rfl

/-- The three branches of a `:` outside of quotes. -/
theorem rewriteLoop_colon {n : Nat} {rest : List UInt8} (hat : At .outside st) :
    rewriteLoop driver (n + 1) (58 :: rest) st =
      if rest.head? = some 58 then rewriteLoop driver n rest.tail (wrote st .outside [':', ':'])
      else if (rest.takeWhile isNameByte).isEmpty then
        rewriteLoop driver n rest (wrote st .outside [':'])
      else
        let order := st.order ++ [String.ofList ((rest.takeWhile isNameByte).map asChar)]
        rewriteLoop driver n (rest.dropWhile isNameByte)
          (wrote { st with order } .outside (positional driver order.length)) := by
  rw [rewriteLoop, hat.single, hat.double]
  simp only [placeholder_eq, wrote]
  rfl

/-- What the loop has written at the end, and the names that it has found. -/
theorem rewriteLoop_eq {n : Nat} {cs : List Char} (hn : (bytes cs).length ≤ n) (hat : At q st) :
    (rewriteLoop driver n (bytes cs) st).out =
        st.out ++ filled driver copied st.order.length (parts q 0 cs) ∧
      (rewriteLoop driver n (bytes cs) st).order = st.order ++ names (parts q 0 cs) := by
  revert n st
  refine parts_induct (P := fun q cs => ∀ {n st}, (bytes cs).length ≤ n → At q st →
    (rewriteLoop driver n (bytes cs) st).out =
        st.out ++ filled driver copied st.order.length (parts q 0 cs) ∧
      (rewriteLoop driver n (bytes cs) st).order = st.order ++ names (parts q 0 cs))
    (fun q n st hn hat => ?_) (fun cs ih n st hn hat => ?_)
    (fun cs hcast hname ih n st hn hat => ?_) (fun cs hname ih n st hn hat => ?_)
    (fun q c cs hnot ih n st hn hat => ?_) q cs
  · cases n <;> simp [rewriteLoop, bytes, parts, filled, names]
  · rw [bytes_colon, bytes_colon, List.length_cons, List.length_cons] at hn
    obtain ⟨m, rfl⟩ : ∃ m, n = m + 1 := ⟨n - 1, by omega⟩
    have hrest := ih (n := m) (by omega) (at_wrote st .outside [':', ':'])
    rw [bytes_colon, bytes_colon, rewriteLoop_colon hat, if_pos (List.head?_cons ..),
      List.tail_cons, hrest.1, hrest.2, parts_cast]
    simp [wrote, filled, names, copied_of_ascii]
  · rw [bytes_colon, List.length_cons] at hn
    obtain ⟨m, rfl⟩ : ∃ m, n = m + 1 := ⟨n - 1, by omega⟩
    have hrest := ih (n := m) (by omega) (at_wrote st .outside [':'])
    rw [bytes_colon, rewriteLoop_colon hat, if_neg (head?_bytes.not.mpr hcast),
      (takeWhile_bytes cs).1, hname, List.map_nil, if_pos List.isEmpty_nil, hrest.1, hrest.2,
      parts_lone hcast hname]
    simp [wrote, filled, names, copied_of_ascii]
  · rw [bytes_colon, List.length_cons] at hn
    obtain ⟨m, rfl⟩ : ∃ m, n = m + 1 := ⟨n - 1, by omega⟩
    have hcast : (bytes cs).head? ≠ some 58 := by
      intro h
      obtain ⟨rest, rfl⟩ := List.head?_eq_some_iff.mp (head?_bytes.mp h)
      exact hname rfl
    have hbytes : (bytes (cs.dropWhile isNameChar)).length ≤ m := by
      rw [← (takeWhile_bytes cs).2]
      exact (List.dropWhile_suffix _).length_le.trans (by omega)
    have hne : ¬((bytes cs).takeWhile isNameByte).isEmpty = true := by
      rw [(takeWhile_bytes cs).1]
      simpa [List.isEmpty_iff] using hname
    rw [bytes_colon, rewriteLoop_colon hat, if_neg hcast, if_neg hne, map_asChar_takeWhile,
      (takeWhile_bytes cs).2, parts_hole hname]
    simp only [List.length_append, List.length_singleton]
    have hrest := ih hbytes (at_wrote
      { st with order := st.order ++ [String.ofList (cs.takeWhile isNameChar)] } .outside
      (positional driver (st.order.length + 1)))
    rw [hrest.1, hrest.2]
    simp [wrote, filled, names]
  · rw [bytes, List.flatMap_cons, List.length_append, Nat.add_comm] at hn
    rw [bytes, List.flatMap_cons, ← Nat.sub_add_cancel (le_of_add_le_right hn),
      rewriteLoop_char hnot hat, parts_char hnot]
    have hrest := ih (n := n - (String.utf8EncodeChar c).length)
      (by rw [bytes]; omega) (at_wrote st (q.next c) (copied c))
    rw [bytes] at hrest
    rw [hrest.1, hrest.2]
    simp [wrote, filled, names]

/-- The rewriting follows the grammar, but for the characters that it copies by their
bytes. -/
theorem rewritePlaceholders_eq (sql : String) (driver : DriverKind) :
    rewritePlaceholders sql driver =
      (String.ofList (filled driver copied 0 (partsOf sql)), names (partsOf sql)) := by
  have hinit : At .outside {} := ⟨rfl, rfl⟩
  have h : (rewriteLoop driver _ (bytes sql.toList) {}).out = _ ∧ _ := rewriteLoop_eq le_rfl hinit
  rw [rewritePlaceholders, utf8_eq_flatMap]
  rw [bytes] at h
  exact Prod.ext (congrArg String.ofList h.1) h.2

end McpgSql.Sql
