import McpgSql.Sql.Placeholders

/-!
# Rewritten statements

What a driver gets of an SQL text: the text with its own placeholders, and the
arguments in their order.

* `preserves_iff`: the other characters are copied exactly where the text is ASCII;
* `binds_own_arguments`: the placeholders are numbered from left to right, none is left,
  and each is bound to the argument of its name.
-/

namespace McpgSql.Sql

open Library

variable (driver : DriverKind) {q : Quote}

/-! ## The text -/

theorem filled_congr {f g : Char → List Char} {ps : List Part}
    (h : ∀ c, .char c ∈ ps → f c = g c) (i : Nat) : filled driver f i ps = filled driver g i ps := by
  induction ps generalizing i with
  | nil => rfl
  | cons p ps ih =>
    have ih := fun i => ih (fun c hc => h c (List.mem_cons_of_mem _ hc)) i
    cases p with
    | char c => rw [filled, filled, h c List.mem_cons_self, ih]
    | hole name => rw [filled, filled, ih]

theorem length_filled_le {f g : Char → List Char} (h : ∀ c, (f c).length ≤ (g c).length)
    (i : Nat) (ps : List Part) : (filled driver f i ps).length ≤ (filled driver g i ps).length := by
  induction ps generalizing i with
  | nil => exact le_rfl
  | cons p ps ih =>
    cases p with
    | char c =>
      have hc := h c
      have hps := ih i
      simp only [filled, List.length_append]
      omega
    | hole name =>
      have hps := ih (i + 1)
      simp only [filled, List.length_append]
      omega

/-- A character that is written longer makes the text longer. -/
theorem length_filled_lt {f g : Char → List Char} (h : ∀ c, (f c).length ≤ (g c).length)
    {c : Char} (hlt : (f c).length < (g c).length) {ps : List Part} (hc : .char c ∈ ps) (i : Nat) :
    (filled driver f i ps).length < (filled driver g i ps).length := by
  induction ps generalizing i with
  | nil => cases hc
  | cons p ps ih =>
    rcases List.mem_cons.mp hc with rfl | hmem
    · have hps := length_filled_le driver h i ps
      simp only [filled, List.length_append]
      omega
    · cases p with
      | char d =>
        have hd := h d
        have hps := ih hmem i
        simp only [filled, List.length_append]
        omega
      | hole name =>
        have hps := ih hmem (i + 1)
        simp only [filled, List.length_append]
        omega

theorem length_le_copied (c : Char) : [c].length ≤ (copied c).length := by
  by_cases hc : c.val.toNat < 128
  · rw [copied_of_ascii hc]
  · have := (encodeChar_of_not_ascii (not_lt.mp hc)).1
    rw [copied, List.length_map, List.length_singleton]
    omega

/-- A character that is not ASCII is not in a placeholder. -/
theorem char_mem_parts {cs : List Char} {c : Char} (hmem : c ∈ cs) (hc : 128 ≤ c.val.toNat) :
    .char c ∈ parts q 0 cs := by
  rw [← source_parts q cs] at hmem
  obtain ⟨p, hp, hmem⟩ := List.mem_flatMap.mp hmem
  cases p with
  | char d =>
    obtain rfl := List.mem_singleton.mp hmem
    exact hp
  | hole name =>
    rcases List.mem_cons.mp hmem with rfl | hmem
    · exact absurd hc (by decide)
    · have := ascii_of_isNameChar (isNameChar_of_hole hp c hmem)
      omega

/-- The output is the text with the driver's placeholders, and every other character
where and as it was. -/
def Preserves (sql : String) (driver : DriverKind) : Prop :=
  (rewritePlaceholders sql driver).1 = String.ofList (filled driver (fun c => [c]) 0 (partsOf sql))

/-- The rewriting preserves the text exactly where it is ASCII. -/
theorem preserves_iff (sql : String) (driver : DriverKind) :
    Preserves sql driver ↔ ∀ c ∈ sql.toList, c.val.toNat < 128 := by
  rw [Preserves, rewritePlaceholders_eq]
  constructor
  · intro h c hmem
    by_contra hc
    have hc := not_lt.mp hc
    have hlong : [c].length < (copied c).length := by
      rw [copied, List.length_map]
      exact (encodeChar_of_not_ascii hc).1
    have hlt := length_filled_lt driver length_le_copied hlong
      (char_mem_parts (q := .outside) hmem hc) 0
    rw [partsOf] at h
    rw [String.ofList_injective h] at hlt
    exact lt_irrefl _ hlt
  · intro h
    refine congrArg String.ofList (filled_congr driver (fun c hc => copied_of_ascii (h c ?_)) 0)
    rw [← source_parts .outside sql.toList]
    exact List.mem_flatMap.mpr ⟨_, hc, List.mem_singleton.mpr rfl⟩

/-- A letter in a literal is written as two. -/
theorem accent_not_preserved : ¬Preserves "SELECT 'é'" .postgres := by
  unfold Preserves
  decide

/-! ## Rewriting again -/

/-- The character stays where it is in the grammar: it begins nothing and ends
nothing. -/
def Plain (q : Quote) (c : Char) : Prop := q.next c = q ∧ ¬(q = .outside ∧ c = ':')

theorem parts_plain {cs : List Char} (h : ∀ c ∈ cs, Plain q c) (rest : List Char) :
    parts q 0 (cs ++ rest) = cs.map .char ++ parts q 0 rest := by
  induction cs with
  | nil => rfl
  | cons c cs ih =>
    obtain ⟨⟨hnext, hcolon⟩, hcs⟩ := List.forall_mem_cons.mp h
    rw [List.cons_append, parts_char hcolon, hnext, ih hcs, List.map_cons, List.cons_append]

theorem names_append (ps ps' : List Part) : names (ps ++ ps') = names ps ++ names ps' := by
  induction ps with
  | nil => rfl
  | cons p ps ih => cases p <;> simp [names, ih]

theorem names_chars (cs : List Char) : names (cs.map .char) = [] := by
  induction cs with
  | nil => rfl
  | cons c cs ih => exact ih

/-- The characters that are written for one that is not ASCII are not ASCII. -/
theorem not_ascii_of_copied {c d : Char} (hc : 128 ≤ c.val.toNat) (hd : d ∈ copied c) :
    128 ≤ d.val.toNat := by
  obtain ⟨b, hb, rfl⟩ := List.mem_map.mp hd
  have hlow := (encodeChar_of_not_ascii hc).2 b hb
  have hhigh := b.toNat_lt
  have hvalid : b.toNat.isValidChar := Or.inl (by omega)
  rw [asChar, Char.ofNat, dif_pos hvalid]
  exact hlow

theorem plain_of_not_ascii {c : Char} (hc : 128 ≤ c.val.toNat) : Plain q c :=
  ⟨Quote.next_of_not_ascii hc, by rintro ⟨-, rfl⟩; exact absurd hc (by decide)⟩

/-- A character that is copied is read as such again. -/
theorem names_copied {c : Char} (hcolon : ¬(q = .outside ∧ c = ':')) (rest : List Char) :
    names (parts q 0 (copied c ++ rest)) = names (parts (q.next c) 0 rest) := by
  by_cases hc : c.val.toNat < 128
  · rw [copied_of_ascii hc, List.singleton_append, parts_char hcolon]
    rfl
  · have hc := not_lt.mp hc
    rw [parts_plain fun d hd => plain_of_not_ascii (not_ascii_of_copied hc hd), names_append,
      names_chars, Quote.next_of_not_ascii hc]
    rfl

/-- A driver's placeholder is read as plain text. -/
theorem names_positional (i : Nat) (rest : List Char) :
    names (parts .outside 0 (positional driver i ++ rest)) = names (parts .outside 0 rest) := by
  have hplain : ∀ c ∈ positional driver i, Plain .outside c := by
    intro c hc
    have hc : c = '$' ∨ c = '?' ∨ c.isDigit = true := by
      cases driver with
      | postgres =>
        rcases List.mem_cons.mp hc with rfl | hc
        · exact .inl rfl
        · rw [show (toString i : String) = Nat.repr i from rfl, Nat.toList_repr] at hc
          exact .inr (.inr (Nat.isDigit_of_mem_toDigits (by decide) (by decide) hc))
      | mysql | mariadb | sqlite => exact .inr (.inl (List.mem_singleton.mp hc))
    have hne : c ≠ '\'' ∧ c ≠ '"' ∧ c ≠ ':' := by
      rcases hc with rfl | rfl | hc
      · decide
      · decide
      · refine ⟨?_, ?_, ?_⟩ <;> rintro rfl <;> exact absurd hc (by decide)
    exact ⟨by simp [Quote.next, hne.1, hne.2.1], fun h => hne.2.2 h.2⟩
  rw [parts_plain hplain, names_append, names_chars]
  rfl

/-- What stands after a lone `:` does not make it a placeholder or a cast in the
output. -/
theorem lone_filled {cs : List Char} (hcast : cs.head? ≠ some ':')
    (hname : cs.takeWhile isNameChar = []) (i : Nat) :
    (filled driver copied i (parts .outside 0 cs)).head? ≠ some ':' ∧
      (filled driver copied i (parts .outside 0 cs)).takeWhile isNameChar = [] := by
  cases cs with
  | nil => exact ⟨nofun, rfl⟩
  | cons c cs =>
    have hcolon : c ≠ ':' := fun h => hcast (by rw [h, List.head?_cons])
    have hc : ¬isNameChar c = true := by
      intro h
      rw [List.takeWhile_cons_of_pos h] at hname
      cases hname
    rw [parts_char (fun h => hcolon h.2), filled]
    obtain ⟨d, ds, hds, hd, hdname⟩ : ∃ d ds, copied c = d :: ds ∧ d ≠ ':' ∧ ¬isNameChar d = true := by
      by_cases hascii : c.val.toNat < 128
      · exact ⟨c, [], copied_of_ascii hascii, hcolon, hc⟩
      · have hlen := length_le_copied c
        have hhigh : ∀ d ∈ copied c, _ := fun d hd => not_ascii_of_copied (not_lt.mp hascii) hd
        cases hds : copied c with
        | nil => rw [hds] at hlen; cases hlen
        | cons d ds =>
          have hd := hhigh d (by rw [hds]; exact List.mem_cons_self)
          refine ⟨d, ds, rfl, ?_, fun h => ?_⟩
          · rintro rfl
            exact absurd hd (by decide)
          · have := ascii_of_isNameChar h
            omega
    rw [hds, List.cons_append, List.head?_cons, List.takeWhile_cons_of_neg hdname]
    exact ⟨fun h => hd (Option.some.inj h), rfl⟩

/-- The output has no placeholders. -/
theorem names_filled (q : Quote) (cs : List Char) (i : Nat) :
    names (parts q 0 (filled driver copied i (parts q 0 cs))) = [] := by
  revert i
  refine parts_induct (P := fun q cs => ∀ i,
    names (parts q 0 (filled driver copied i (parts q 0 cs))) = []) (fun q i => ?_)
    (fun cs ih i => ?_) (fun cs hcast hname ih i => ?_) (fun cs hname ih i => ?_)
    (fun q c cs h ih i => ?_) q cs
  · cases q <;> rfl
  · rw [parts_cast]
    exact ih i
  · obtain ⟨hcast', hname'⟩ := lone_filled driver hcast hname i
    rw [parts_lone hcast hname, filled, copied_of_ascii (by decide), List.singleton_append,
      parts_lone hcast' hname']
    exact ih i
  · rw [parts_hole hname, filled, names_positional]
    exact ih (i + 1)
  · rw [parts_char h, filled, names_copied h]
    exact ih i

/-! ## The arguments -/

/-- The placeholders are found as the grammar has them, numbered from left to right;
the output has none; and the arguments bind where every name has one, each to the
argument of its name. -/
theorem binds_own_arguments (sql : String) (driver : DriverKind) :
    let order := names (partsOf sql)
    let text := String.ofList (filled driver copied 0 (partsOf sql))
    rewritePlaceholders sql driver = (text, order) ∧
    (∀ again, (rewritePlaceholders text again).2 = []) ∧
    ∀ args : List (String × Value),
      ((∃ bound, collectBoundParams (.obj args) order = .ok bound) ↔
        ∀ name ∈ order, ∃ value, Assoc.get? args name = some value) ∧
      ∀ bound, collectBoundParams (.obj args) order = .ok bound → bound.length = order.length ∧
        ∀ (i : Nat) (name : String), order[i]? = some name →
          ∃ value, Assoc.get? args name = some value ∧ bound[i]? = some { name, value } := by
  intro order text
  refine ⟨rewritePlaceholders_eq sql driver, fun again => ?_, fun args => ⟨?_, fun bound h => ?_⟩⟩
  · rw [rewritePlaceholders_eq]
    show names (partsOf text) = []
    rw [partsOf, String.toList_ofList]
    exact names_filled driver .outside sql.toList 0
  · simp only [collectBoundParams_obj, Option.ne_none_iff_exists']
    exact ⟨fun ⟨_, h, _⟩ => h, fun h => ⟨_, h, rfl⟩⟩
  · obtain ⟨hall, rfl⟩ := collectBoundParams_obj.mp h
    refine ⟨List.length_map _, fun i name hname => ?_⟩
    obtain ⟨value, hvalue⟩ := Option.ne_none_iff_exists'.mp
      (hall name (List.mem_of_getElem? hname))
    refine ⟨value, hvalue, ?_⟩
    rw [List.getElem?_map, hname, Option.map_some, hvalue, Option.getD_some]

end McpgSql.Sql
