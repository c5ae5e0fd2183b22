import McpgSql.Sql.Lexer

/-!
# One statement

`reject_multi_statement` counts the semicolons outside of quotes. It takes a quote
character for a quote wherever it stands, also in a comment, where a database does
not.

* `rejectMultiStatement_iff`: what the guard accepts, on characters;
* `single_of_clean`: a text that the guard accepts is one statement where its comments hold
  no quote characters;
* `separated_iff`: without its comments a text is read by the guard as a database reads it;
* `single_of_accepted`: both, for the texts that the guard accepts.
-/

namespace McpgSql.Sql

open Library

variable {q : Quote}

/-! ## What the guard reads -/

/-- Where the text after `cs` stands, as the guard counts quotes. -/
def Quote.after (q : Quote) (cs : List Char) : Quote := cs.foldl Quote.next q

theorem Quote.after_append (q : Quote) (a b : List Char) : q.after (a ++ b) = (q.after a).after b :=
  List.foldl_append

/-- No semicolon stands outside of the guard's quotes. -/
def Hushed (q : Quote) (cs : List Char) : Prop :=
  ∀ a b, cs = a ++ ';' :: b → q.after a ≠ .outside

theorem hushed_cons {c : Char} {cs : List Char} :
    Hushed q (c :: cs) ↔ ¬(q = .outside ∧ c = ';') ∧ Hushed (q.next c) cs := by
  constructor
  · refine fun h => ⟨?_, fun a b heq => ?_⟩
    · rintro ⟨rfl, rfl⟩
      exact h [] cs rfl rfl
    · exact h (c :: a) b (by rw [heq, List.cons_append])
  · rintro ⟨hc, h⟩ a b heq
    cases a with
    | nil =>
      obtain ⟨rfl, rfl⟩ := List.cons.inj heq
      exact fun hq => hc ⟨hq, rfl⟩
    | cons e a =>
      obtain ⟨rfl, rfl⟩ := List.cons.inj heq
      exact h a b rfl

/-- The first semicolon outside of the guard's quotes. -/
theorem hushed_or_first (q : Quote) (cs : List Char) :
    Hushed q cs ∨ ∃ a b, cs = a ++ ';' :: b ∧ Hushed q a ∧ q.after a = .outside := by
  induction cs generalizing q with
  | nil => exact .inl fun a b h => by cases a <;> cases h
  | cons c cs ih =>
    by_cases hc : q = .outside ∧ c = ';'
    · obtain ⟨rfl, rfl⟩ := hc
      exact .inr ⟨[], cs, rfl, fun a b h => by (cases a <;> cases h), rfl⟩
    · obtain h | ⟨a, b, rfl, ha, hout⟩ := ih (q.next c)
      · exact .inl (hushed_cons.mpr ⟨hc, h⟩)
      · exact .inr ⟨c :: a, b, rfl, hushed_cons.mpr ⟨hc, ha⟩, hout⟩

/-- The flags of the guard's loop say where it stands. -/
structure ScanAt (q : Quote) (st : Scan) : Prop where
  single : st.inSingle = decide (q = .literal)
  double : st.inDouble = decide (q = .identifier)

/-- The loop stands at `q`. -/
def scanned (st : Scan) (q : Quote) : Scan :=
  { st with inSingle := decide (q = .literal), inDouble := decide (q = .identifier) }

theorem scanned_scanned (st : Scan) (q q' : Quote) : scanned (scanned st q) q' = scanned st q' := rfl

theorem ScanAt.eq {st : Scan} (h : ScanAt q st) : scanned st q = st := by
  rw [scanned, ← h.single, ← h.double]

theorem scanLoop_high {st : Scan} {i : Nat} {bs rest : List UInt8} (h : ∀ b ∈ bs, 128 ≤ b.toNat) :
    scanLoop i (bs ++ rest) st = scanLoop (i + bs.length) rest st := by
  induction bs generalizing i with
  | nil => rfl
  | cons b bs ih =>
    obtain ⟨hb, hbs⟩ := List.forall_mem_cons.mp h
    have hne : ∀ a : UInt8, a.toNat < 128 → b ≠ a := by
      rintro a ha rfl
      omega
    rw [List.cons_append, scanLoop]
    simp only [hne 39 (by decide), hne 34 (by decide), hne 59 (by decide), decide_false,
      Bool.false_and, Bool.false_eq_true, if_false]
    rw [ih hbs, List.length_cons, Nat.add_right_comm, Nat.add_assoc]

/-- A character other than such a semicolon moves the loop on. -/
theorem scanLoop_char {st : Scan} {i : Nat} {c : Char} {rest : List UInt8}
    (hsemi : ¬(q = .outside ∧ c = ';')) (hat : ScanAt q st) :
    scanLoop i (String.utf8EncodeChar c ++ rest) st =
      scanLoop (i + (String.utf8EncodeChar c).length) rest (scanned st (q.next c)) := by
  by_cases hc : c.val.toNat < 128
  · obtain ⟨hsingle, hdouble, -, hsemi', -, -⟩ := ascii_byte hc
    rw [(utf8EncodeChar_of_ascii hc).1, List.singleton_append, List.length_singleton, scanLoop,
      hat.single, hat.double]
    simp only [hsingle, hdouble, hsemi']
    by_cases h₁ : c = '\''
    · subst h₁
      cases q with
      | outside | literal => rfl
      | identifier => exact congrArg (scanLoop (i + 1) rest) hat.eq.symm
    · by_cases h₂ : c = '"'
      · subst h₂
        cases q with
        | outside | identifier => rfl
        | literal => exact congrArg (scanLoop (i + 1) rest) hat.eq.symm
      · have hq : q.next c = q := by cases q <;> simp [Quote.next, h₁, h₂]
        have hplace : ¬(decide (c = ';') && !decide (q = .literal) && !decide (q = .identifier)) := by
          cases q <;> simp_all
        rw [hq, if_neg (by simp [h₁]), if_neg (by simp [h₂]), if_neg hplace, hat.eq]
  · obtain ⟨-, hbytes⟩ := encodeChar_of_not_ascii (not_lt.mp hc)
    rw [Quote.next_of_not_ascii (not_lt.mp hc), scanLoop_high hbytes, hat.eq]

theorem scanLoop_hushed {st : Scan} {cs : List Char} (h : Hushed q cs) (hat : ScanAt q st)
    (i : Nat) (rest : List UInt8) :
    scanLoop i (bytes cs ++ rest) st =
      scanLoop (i + (bytes cs).length) rest (scanned st (q.after cs)) := by
  induction cs generalizing q i st with
  | nil => rw [show scanned st (q.after []) = st from hat.eq]; rfl
  | cons c cs ih =>
    obtain ⟨hc, hcs⟩ := hushed_cons.mp h
    have hat' : ScanAt (q.next c) (scanned st (q.next c)) := ⟨rfl, rfl⟩
    rw [bytes, List.flatMap_cons, List.append_assoc, scanLoop_char hc hat,
      show List.flatMap String.utf8EncodeChar cs = bytes cs from rfl, ih hcs hat', scanned_scanned,
      List.length_append, Nat.add_assoc]
    rfl

theorem scanLoop_semi {st : Scan} {i : Nat} {rest : List UInt8} (hat : ScanAt .outside st) :
    scanLoop i (59 :: rest) st =
      if st.lastSemi.isSome then .error i else scanLoop (i + 1) rest { st with lastSemi := some i } := by
  rw [scanLoop, hat.single, hat.double]
  rfl

/-- The loop at the first semicolon that counts. -/
theorem scanLoop_first {st : Scan} {a : List Char} (ha : Hushed .outside a)
    (hout : Quote.outside.after a = .outside) (hat : ScanAt .outside st) (i : Nat) (b : List Char) :
    scanLoop i (bytes (a ++ ';' :: b)) st =
      if st.lastSemi.isSome then .error (i + (bytes a).length)
      else scanLoop (i + (bytes a).length + 1) (bytes b)
        { st with lastSemi := some (i + (bytes a).length) } := by
  rw [show bytes (a ++ ';' :: b) = bytes a ++ 59 :: bytes b from List.flatMap_append,
    scanLoop_hushed ha hat, hout, hat.eq, scanLoop_semi hat]

/-- The loop where no semicolon counts. -/
theorem scanLoop_end {st : Scan} {cs : List Char} (h : Hushed q cs) (hat : ScanAt q st) (i : Nat) :
    scanLoop i (bytes cs) st = .ok (scanned st (q.after cs)) := by
  have hscan := scanLoop_hushed h hat i []
  rwa [List.append_nil] at hscan

/-- The text after a semicolon, by its byte. -/
theorem charsFrom_semi (a b : List Char) : charsFrom ((bytes a).length + 1) (a ++ ';' :: b) = b := by
  induction a with
  | nil =>
    show charsFrom (0 + 1 - ';'.utf8Size) b = b
    cases b <;> rfl
  | cons c a ih =>
    rw [bytes, List.flatMap_cons, List.length_append, String.length_utf8EncodeChar, List.cons_append,
      charsFrom]
    have : c.utf8Size + (List.flatMap String.utf8EncodeChar a).length + 1 - c.utf8Size =
        (bytes a).length + 1 := by
      rw [bytes]
      omega
    rw [this, ih]

/-- The semicolon between two such parts is the only one that counts. -/
theorem eq_of_hushed {a b a₁ b₁ : List Char} (ha : Hushed .outside a)
    (hout : Quote.outside.after a = .outside) (hb : Hushed .outside b)
    (heq : a ++ ';' :: b = a₁ ++ ';' :: b₁) (hout₁ : Quote.outside.after a₁ = .outside) :
    b₁ = b := by
  obtain ⟨x, rfl, hx⟩ | ⟨x, rfl, hx⟩ := List.append_eq_append_iff.mp heq
  · cases x with
    | nil => exact (List.cons.inj hx).2.symm
    | cons e x =>
      obtain ⟨rfl, rfl⟩ := List.cons.inj hx
      rw [Quote.after_append, hout] at hout₁
      exact absurd hout₁ (hb x b₁ rfl)
  · cases x with
    | nil => exact (List.cons.inj hx).2
    | cons e x =>
      obtain ⟨rfl, rfl⟩ := List.cons.inj hx
      exact absurd hout₁ (ha a₁ x rfl)

/-- The guard accepts a text where only white space stands after each semicolon outside
of its quotes. -/
theorem rejectMultiStatement_iff {sql : String} :
    rejectMultiStatement sql = .ok () ↔ ∀ a b, sql.toList = a ++ ';' :: b →
      Quote.outside.after a = .outside → ∀ c ∈ b, isWhiteSpace c = true := by
  have hinit : ScanAt .outside {} := ⟨rfl, rfl⟩
  rw [rejectMultiStatement, utf8_eq_flatMap, show sql.toList.flatMap _ = bytes sql.toList from rfl]
  generalize sql.toList = cs
  obtain h | ⟨a, b, rfl, ha, hout⟩ := hushed_or_first .outside cs
  · rw [scanLoop_end h hinit]
    exact ⟨fun _ a b hab hout => absurd hout (h a b hab), fun _ => rfl⟩
  · have hat : ScanAt .outside { lastSemi := some (0 + (bytes a).length) } := ⟨rfl, rfl⟩
    rw [scanLoop_first ha hout hinit, if_neg (by decide)]
    obtain h | ⟨a', b', rfl, ha', hout'⟩ := hushed_or_first .outside b
    · rw [scanLoop_end h hat, Nat.zero_add]
      simp only [scanned, charsFrom_semi]
      cases hblank : b.any (!isWhiteSpace ·) with
      | true =>
        obtain ⟨c, hc, hnot⟩ := List.any_eq_true.mp hblank
        refine ⟨nofun, fun hall => ?_⟩
        rw [hall a b rfl hout c hc] at hnot
        cases hnot
      | false =>
        refine ⟨fun _ a₁ b₁ heq hout₁ c hc => ?_, fun _ => rfl⟩
        rw [eq_of_hushed ha hout h heq hout₁] at hc
        simpa using List.any_eq_false.mp hblank c hc
    · rw [scanLoop_first ha' hout' hat, if_pos (Option.isSome_some ..)]
      refine ⟨nofun, fun hall => ?_⟩
      have := hall a (a' ++ ';' :: b') rfl hout ';' (List.mem_append_right _ List.mem_cons_self)
      exact absurd this (by decide)

/-! ## What a database reads -/

/-- The text is one statement to the database: no token stands after a semicolon that is
outside of literals, identifiers and comments. -/
def SingleStatement (d : Dialect) (sql : String) : Prop :=
  ∀ a b, sql.toList = a ++ ';' :: b → lexed d .plain false a = .plain → fromToken d b = []

/-! ## Comments without quotes -/

/-- No comment holds a quote character. -/
def CleanComments (d : Dialect) : Lex → Bool → List Char → Prop
  | _, _, [] => True
  | s, true, _ :: cs => CleanComments d s false cs
  | s, false, c :: cs => (s.isComment = true → c ≠ '\'' ∧ c ≠ '"') ∧
    CleanComments d (s.step d cs.head? c).1 (s.step d cs.head? c).2 cs

instance decidableCleanComments (d : Dialect) :
    ∀ s taken cs, Decidable (CleanComments d s taken cs)
  | _, _, [] => isTrue trivial
  | s, true, _ :: cs => decidableCleanComments d s false cs
  | s, false, c :: cs =>
    have := decidableCleanComments d (s.step d cs.head? c).1 (s.step d cs.head? c).2 cs
    inferInstanceAs (Decidable ((s.isComment = true → c ≠ '\'' ∧ c ≠ '"') ∧
      CleanComments d (s.step d cs.head? c).1 (s.step d cs.head? c).2 cs))

/-- The quotes that the guard counts, where comments hold none. -/
def Lex.quote : Lex → Quote
  | .literal => .literal
  | .identifier => .identifier
  | .plain | .line | .block _ => .outside

variable {d : Dialect} {s : Lex}

/-- A character that takes none with it leads the guard where it leads the database. -/
theorem quote_step {c : Char} {next : Option Char} (hclean : s.isComment = true → c ≠ '\'' ∧ c ≠ '"')
    (h : (s.step d next c).2 = false) : s.quote.next c = (s.step d next c).1.quote := by
  cases s with
  | plain =>
    simp only [Lex.step] at h ⊢
    split_ifs at h ⊢ with h₁ h₂
    · simp [h₁, Lex.quote, Quote.next]
    · simp [h₂, Lex.quote, Quote.next]
    · simp [h₁, h₂, Lex.quote, Quote.next]
  | literal =>
    simp only [Lex.step] at h ⊢
    split_ifs at h ⊢ with h₁
    · simp [h₁, Lex.quote, Quote.next]
    · simp [not_not.mp h₁, Lex.quote, Quote.next]
  | identifier =>
    simp only [Lex.step] at h ⊢
    split_ifs at h ⊢ with h₁
    · simp [h₁, Lex.quote, Quote.next]
    · simp [not_not.mp h₁, Lex.quote, Quote.next]
  | line =>
    obtain ⟨h₁, h₂⟩ := hclean rfl
    simp only [Lex.step]
    split_ifs <;> simp [Lex.quote, Quote.next, h₁, h₂]
  | block depth =>
    obtain ⟨h₁, h₂⟩ := hclean rfl
    simp only [Lex.step] at h ⊢
    split_ifs at h ⊢
    simp [Lex.quote, Quote.next, h₁, h₂]

/-- Two characters that are taken together lead the guard where they lead the database. -/
theorem quote_step_pair {c : Char} {next : Option Char} (h : (s.step d next c).2 = true) :
    ∃ e, next = some e ∧ (s.quote.next c).next e = (s.step d next c).1.quote := by
  cases s with
  | plain =>
    simp only [Lex.step] at h ⊢
    split_ifs at h ⊢ with _ _ h₃ h₄
    · obtain ⟨rfl, rfl⟩ := h₃
      exact ⟨_, rfl, rfl⟩
    · obtain ⟨rfl, rfl⟩ := h₄
      exact ⟨_, rfl, rfl⟩
  | literal =>
    simp only [Lex.step] at h ⊢
    split_ifs at h ⊢ with h₁ h₂
    rw [not_not.mp h₁]
    exact ⟨_, h₂, rfl⟩
  | identifier =>
    simp only [Lex.step] at h ⊢
    split_ifs at h ⊢ with h₁ h₂
    rw [not_not.mp h₁]
    exact ⟨_, h₂, rfl⟩
  | line => cases h
  | block depth =>
    simp only [Lex.step] at h ⊢
    split_ifs at h ⊢ with h₁ h₂
    · obtain ⟨rfl, rfl⟩ := h₁
      cases depth <;> exact ⟨_, rfl, rfl⟩
    · obtain ⟨-, rfl, rfl⟩ := h₂
      exact ⟨_, rfl, rfl⟩

/-- Where comments hold no quotes, the guard counts the quotes that the database
reads. -/
theorem after_eq_quote {cs : List Char} (h : CleanComments d s false cs) :
    s.quote.after cs = (lexed d s false cs).quote := by
  induction hlen : cs.length using Nat.strong_induction_on generalizing s cs with
  | _ n ih =>
    subst hlen
    cases cs with
    | nil => rfl
    | cons c cs =>
      obtain ⟨hclean, hcs⟩ := h
      rw [lexed]
      cases htaken : (s.step d cs.head? c).2 with
      | false =>
        rw [htaken] at hcs
        rw [← ih cs.length (by simp) hcs rfl, ← quote_step hclean htaken]
        rfl
      | true =>
        obtain ⟨e, he, hquote⟩ := quote_step_pair htaken
        obtain ⟨rest, rfl⟩ := List.head?_eq_some_iff.mp he
        rw [htaken] at hcs
        rw [lexed, ← ih rest.length (by simp only [List.length_cons]; omega) hcs rfl, ← hquote]
        rfl

theorem step_semi (c : Char) : s.step d (some ';') c = s.step d none c := by
  cases s <;> simp [Lex.step]

/-- What is read before a semicolon does not depend on it. -/
theorem CleanComments.before {taken : Bool} {a b : List Char}
    (h : CleanComments d s taken (a ++ ';' :: b)) : CleanComments d s taken a := by
  induction a generalizing s taken with
  | nil => trivial
  | cons c a ih =>
    cases taken with
    | true => exact ih h
    | false =>
      rw [List.cons_append, CleanComments] at h
      obtain ⟨hclean, hcs⟩ := h
      have hstep : s.step d (a ++ ';' :: b).head? c = s.step d a.head? c := by
        cases a with
        | nil => exact step_semi c
        | cons e a => rfl
      rw [hstep] at hcs
      exact ⟨hclean, ih hcs⟩

theorem fromToken_blank {cs : List Char} (h : ∀ c ∈ cs, isWhiteSpace c = true ∧ d.space c = true) :
    fromToken d cs = [] := by
  induction cs with
  | nil => rfl
  | cons c cs ih =>
    obtain ⟨⟨hwhite, hspace⟩, hcs⟩ := List.forall_mem_cons.mp h
    obtain ⟨h₁, h₂, h₃, h₄, -⟩ := isWhiteSpace_ne hwhite
    rw [← ih hcs, fromToken, tokenText]
    simp [Lex.step, h₁, h₂, h₃, h₄, hspace, fromToken]

/-- The text after its last semicolon, from its end. -/
def ending (sql : String) : List Char := sql.toList.reverse.takeWhile (· ≠ ';')

/-- Where only white space follows the last semicolon, it is white space to the database. -/
def BlankEnding (d : Dialect) (sql : String) : Prop :=
  (∀ c ∈ ending sql, isWhiteSpace c = true) → ∀ c ∈ ending sql, d.space c = true

instance (d : Dialect) (sql : String) : Decidable (BlankEnding d sql) :=
  @instDecidableForall _ _ (List.decidableBAll _ _) (List.decidableBAll _ _)

/-- The white space after a semicolon is the ending. -/
theorem ending_eq {sql : String} {a b : List Char} (heq : sql.toList = a ++ ';' :: b)
    (hblank : ∀ c ∈ b, isWhiteSpace c = true) : ending sql = b.reverse := by
  have hkept : ∀ c ∈ b.reverse, decide (c ≠ ';') = true := by
    intro c hc
    obtain ⟨-, -, -, -, hsemi⟩ := isWhiteSpace_ne (hblank c (List.mem_reverse.mp hc))
    exact decide_eq_true hsemi
  rw [ending, heq, List.reverse_append, List.reverse_cons, List.append_assoc,
    List.takeWhile_append_of_pos hkept]
  exact List.append_nil _

/-- Where comments hold no quotes, and the white space at its end is the database's, a text
that the guard accepts is one statement. -/
theorem single_of_clean {sql : String} (h : rejectMultiStatement sql = .ok ())
    (hclean : CleanComments d .plain false sql.toList) (hspace : BlankEnding d sql) :
    SingleStatement d sql := by
  intro a b heq hplain
  rw [heq] at hclean
  have hout := after_eq_quote hclean.before
  rw [hplain] at hout
  have hblank := rejectMultiStatement_iff.mp h a b heq hout
  simp only [BlankEnding, ending_eq heq hblank, List.mem_reverse] at hspace
  exact fromToken_blank fun c hc => ⟨hblank c hc, hspace hblank c hc⟩

/-! ## Comments blanked out -/

/-- A character outside of tokens, with the white space of the database and no other. -/
def readAs (d : Dialect) (c : Char) : Char :=
  if d.space c then ' ' else if isWhiteSpace c then 'x' else c

/-- A character as it stands where `s` leads to `next`, blanked out in a comment. -/
def blanked (d : Dialect) (s next : Lex) (c : Char) : Char :=
  if s.isComment || next.isComment then ' '
  else if s = .plain ∧ next = .plain then readAs d c
  else c

/-- The second character of two that are taken together. -/
def blankedSecond (s : Lex) (c : Char) : Char :=
  if s = .literal ∨ s = .identifier then c else ' '

/-- The text with its comments blanked out. -/
def bare (d : Dialect) : Lex → Bool → List Char → List Char
  | _, _, [] => []
  | s, true, c :: cs => blankedSecond s c :: bare d s false cs
  | s, false, c :: cs =>
    blanked d s (s.step d cs.head? c).1 c :: bare d (s.step d cs.head? c).1 (s.step d cs.head? c).2 cs

def withoutComments (d : Dialect) (sql : String) : String :=
  String.ofList (bare d .plain false sql.toList)

example : withoutComments postgresql "SELECT 1 -- it's\n; DROP TABLE t" =
    "SELECT 1         ; DROP TABLE t" := by decide

/-- White space is neither a semicolon nor a quote character. -/
def Dialect.PlainSpace (d : Dialect) : Prop :=
  ∀ c ∈ [';', '\'', '"'], d.space c = false

instance (d : Dialect) : Decidable d.PlainSpace :=
  List.decidableBAll _ [';', '\'', '"']

/-- Only white space stands after a semicolon outside of the guard's quotes. -/
def Ends (q : Quote) (cs : List Char) : Prop :=
  ∀ a b, cs = a ++ ';' :: b → q.after a = .outside → ∀ c ∈ b, isWhiteSpace c = true

theorem ends_cons {c : Char} {cs : List Char} :
    Ends q (c :: cs) ↔
      (q = .outside → c = ';' → ∀ e ∈ cs, isWhiteSpace e = true) ∧ Ends (q.next c) cs := by
  constructor
  · refine fun h => ⟨?_, fun a b heq => ?_⟩
    · rintro rfl rfl
      exact h [] cs rfl rfl
    · exact h (c :: a) b (by rw [heq, List.cons_append])
  · rintro ⟨hc, h⟩ a b heq hout
    cases a with
    | nil =>
      obtain ⟨rfl, rfl⟩ := List.cons.inj heq
      exact hc hout rfl
    | cons e a =>
      obtain ⟨rfl, rfl⟩ := List.cons.inj heq
      exact h a b rfl hout

/-- No token stands after a semicolon that is outside of tokens. -/
def Separated (d : Dialect) (s : Lex) (cs : List Char) : Prop :=
  ∀ a b, cs = a ++ ';' :: b → lexed d s false a = .plain → fromToken d b = []

theorem step_taken {next : Option Char} {c : Char} (h : (s.step d next c).2 = true) :
    ∃ e, next = some e ∧ e ≠ ';' := by
  obtain ⟨e, he, -⟩ := quote_step_pair h
  refine ⟨e, he, ?_⟩
  rintro rfl
  rw [he, step_semi] at h
  obtain ⟨e, he, -⟩ := quote_step_pair h
  cases he

/-- What is read before a semicolon after the first character. -/
theorem lexed_cons_semi {c : Char} {a b : List Char} :
    lexed d s false (c :: a) = lexed d (s.step d (a ++ ';' :: b).head? c).1
      (s.step d (a ++ ';' :: b).head? c).2 a := by
  rw [lexed]
  cases a with
  | nil => rw [List.nil_append, List.head?_cons, step_semi]; rfl
  | cons e a => rfl

/-- A character that takes none with it. -/
theorem separated_cons {c : Char} {cs : List Char} (h : (s.step d cs.head? c).2 = false) :
    Separated d s (c :: cs) ↔
      (s = .plain → c = ';' → fromToken d cs = []) ∧ Separated d (s.step d cs.head? c).1 cs := by
  constructor
  · refine fun hs => ⟨?_, fun a b heq hplain => ?_⟩
    · rintro rfl rfl
      exact hs [] cs rfl rfl
    · subst heq
      refine hs (c :: a) b rfl ?_
      rwa [lexed_cons_semi (b := b), h]
  · rintro ⟨hc, hs⟩ a b heq hplain
    cases a with
    | nil =>
      obtain ⟨rfl, rfl⟩ := List.cons.inj heq
      exact hc hplain rfl
    | cons e a =>
      obtain ⟨rfl, htail⟩ : c = e ∧ cs = a ++ ';' :: b := List.cons.inj heq
      rw [lexed_cons_semi (b := b), ← htail, h] at hplain
      exact hs a b htail hplain

/-- Two characters that are taken together. -/
theorem separated_pair {c e : Char} {cs : List Char} (h : (s.step d (some e) c).2 = true) :
    Separated d s (c :: e :: cs) ↔ Separated d (s.step d (some e) c).1 cs := by
  have hc : ∀ b, s = .plain → c :: e :: cs ≠ ';' :: b := by
    rintro b rfl heq
    rw [(List.cons.inj heq).1] at h
    simp [Lex.step] at h
  have he : e ≠ ';' := by
    obtain ⟨e', he', hne⟩ := step_taken h
    cases he'
    exact hne
  constructor
  · intro hs a b heq hplain
    subst heq
    refine hs (c :: e :: a) b rfl ?_
    rw [lexed, List.head?_cons, h, lexed]
    exact hplain
  · intro hs a b heq hplain
    cases a with
    | nil => exact absurd heq (hc b hplain)
    | cons c' a =>
      obtain ⟨rfl, htail⟩ := List.cons.inj heq
      cases a with
      | nil => exact absurd (List.cons.inj htail).1 he
      | cons e' a =>
        obtain ⟨rfl, hrest⟩ := List.cons.inj htail
        rw [lexed, List.head?_cons, h, lexed] at hplain
        exact hs a b hrest hplain

/-- Between tokens, what begins no comment is kept, with the white space of the database. -/
theorem blanked_plain {next : Lex} {c : Char} (hnext : next.isComment = false) :
    blanked d .plain next c = if next = .plain then readAs d c else c := by
  rw [blanked, hnext]
  simp [Lex.isComment]

theorem isWhiteSpace_readAs (c : Char) : isWhiteSpace (readAs d c) = d.space c := by
  rw [readAs]
  cases hspace : d.space c with
  | true => rfl
  | false =>
    cases hwhite : isWhiteSpace c with
    | true => rfl
    | false => simpa using hwhite

/-- Only a quote character leads out of what stands between tokens into a quoted one. -/
theorem step_plain {next : Option Char} {c : Char}
    (h : (Lex.plain.step d next c).1.isComment = false) :
    (Lex.plain.step d next c).1 = .plain ∧ c ≠ '\'' ∧ c ≠ '"' ∨
      (Lex.plain.step d next c).1 ≠ .plain ∧ (c = '\'' ∨ c = '"') := by
  simp only [Lex.step] at h ⊢
  split_ifs at h ⊢ with h₁ h₂
  · exact .inr ⟨by decide, .inl h₁⟩
  · exact .inr ⟨by decide, .inr h₂⟩
  · cases h
  · cases h
  · exact .inl ⟨rfl, h₁, h₂⟩

/-- A comment leads to no quoted token. -/
theorem step_comment {next : Option Char} {c : Char}
    (h : s.isComment = true ∨ (s.step d next c).1.isComment = true) :
    s.quote = .outside ∧ (s.step d next c).1.quote = .outside := by
  cases s with
  | plain | literal | identifier =>
    simp only [Lex.step] at h ⊢
    split_ifs at h ⊢ <;> simp_all [Lex.isComment, Lex.quote]
  | line =>
    simp only [Lex.step]
    split_ifs <;> exact ⟨rfl, rfl⟩
  | block depth =>
    simp only [Lex.step]
    split_ifs
    · cases depth <;> exact ⟨rfl, rfl⟩
    · exact ⟨rfl, rfl⟩
    · exact ⟨rfl, rfl⟩

/-- What follows is blank without its comments where no token follows. -/
theorem bare_blank_iff (hd : d.PlainSpace) {taken : Bool} {cs : List Char}
    (hs : s.quote = .outside) :
    (∀ c ∈ bare d s taken cs, isWhiteSpace c = true) ↔ tokenText d s taken cs = [] := by
  induction cs generalizing s taken with
  | nil => simp [bare, tokenText]
  | cons c cs ih =>
    cases taken with
    | true =>
      have hquoted : ¬(s = .literal ∨ s = .identifier) := by
        rintro (rfl | rfl) <;> cases hs
      rw [bare, tokenText, List.forall_mem_cons, ih hs, blankedSecond, if_neg hquoted]
      exact and_iff_right (by decide)
    | false =>
      rw [bare, tokenText, List.forall_mem_cons]
      cases hcomment : s.isComment || (s.step d cs.head? c).1.isComment with
      | true =>
        have hnext := (step_comment (Bool.or_eq_true _ _ ▸ hcomment)).2
        rw [blanked, hcomment, if_pos rfl, Bool.true_or, if_pos rfl, ih hnext]
        exact and_iff_right (by decide)
      | false =>
        obtain ⟨hnot, hnext⟩ := Bool.or_eq_false_iff.mp hcomment
        obtain rfl : s = .plain := by
          cases s with
          | plain => rfl
          | literal | identifier => cases hs
          | line | block => cases hnot
        rw [Bool.false_or, blanked_plain hnext]
        obtain ⟨hplain, h₁, h₂⟩ | ⟨hplain, hc⟩ := step_plain hnext
        · rw [if_pos hplain, isWhiteSpace_readAs, hplain]
          cases hspace : d.space c with
          | true => rw [if_pos rfl, ih rfl]; exact and_iff_right rfl
          | false => simp
        · have hspace : d.space c = false := by
            rcases hc with rfl | rfl <;> exact hd _ (by simp)
          have hwhite : isWhiteSpace c = false := by
            rcases hc with rfl | rfl <;> decide
          rw [if_neg hplain, hspace, hwhite]
          simp

/-- The guard goes on from what is no quote character as it stood. -/
theorem Quote.next_of_ne {c : Char} (h₁ : c ≠ '\'') (h₂ : c ≠ '"') : q.next c = q := by
  cases q <;> simp [Quote.next, h₁, h₂]

theorem readAs_ne {c : Char} (h₁ : c ≠ '\'') (h₂ : c ≠ '"') :
    readAs d c ≠ '\'' ∧ readAs d c ≠ '"' := by
  rw [readAs]
  split_ifs
  · decide
  · decide
  · exact ⟨h₁, h₂⟩

/-- In a comment, and where one begins or ends, the guard stays outside of quotes. -/
theorem next_blanked_comment {next : Option Char} {c : Char}
    (h : (s.isComment || (s.step d next c).1.isComment) = true) :
    s.quote.next (blanked d s (s.step d next c).1 c) = .outside := by
  rw [blanked, if_pos h, (step_comment (Bool.or_eq_true _ _ ▸ h)).1]
  rfl

/-- Elsewhere it goes on as from the character itself. -/
theorem next_blanked {next : Option Char} {c : Char}
    (h : (s.isComment || (s.step d next c).1.isComment) = false) :
    s.quote.next (blanked d s (s.step d next c).1 c) = s.quote.next c := by
  rw [blanked, h, if_neg Bool.false_ne_true]
  by_cases hplain : s = .plain ∧ (s.step d next c).1 = .plain
  · rw [if_pos hplain]
    obtain ⟨rfl, hplain⟩ := hplain
    obtain ⟨-, h₁, h₂⟩ | ⟨hnot, -⟩ := step_plain (Bool.or_eq_false_iff.mp h).2
    · obtain ⟨h₃, h₄⟩ := readAs_ne (d := d) h₁ h₂
      rw [Quote.next_of_ne h₁ h₂, Quote.next_of_ne h₃ h₄]
    · exact absurd hplain hnot
  · rw [if_neg hplain]

/-- Without comments, the guard stands where the database does after a character that takes
none with it. -/
theorem quote_blanked {next : Option Char} {c : Char} (h : (s.step d next c).2 = false) :
    s.quote.next (blanked d s (s.step d next c).1 c) = (s.step d next c).1.quote := by
  cases hcomment : s.isComment || (s.step d next c).1.isComment with
  | true =>
    rw [next_blanked_comment hcomment, (step_comment (Bool.or_eq_true _ _ ▸ hcomment)).2]
  | false =>
    rw [next_blanked hcomment, quote_step _ h]
    intro hs
    rw [hs] at hcomment
    cases hcomment

/-- Two characters that are taken together stand in quotes, or begin or end a comment. -/
theorem step_pair {next : Option Char} {c : Char} (h : (s.step d next c).2 = true) :
    (s.isComment || (s.step d next c).1.isComment) = true ∨
      ((s.step d next c).1 = .literal ∨ (s.step d next c).1 = .identifier) := by
  cases s with
  | plain =>
    simp only [Lex.step] at h ⊢
    split_ifs at h ⊢
    · exact .inl rfl
    · exact .inl rfl
  | literal =>
    simp only [Lex.step] at h ⊢
    split_ifs at h ⊢
    exact .inr (.inl rfl)
  | identifier =>
    simp only [Lex.step] at h ⊢
    split_ifs at h ⊢
    exact .inr (.inr rfl)
  | line | block => exact .inl rfl

/-- And after two that are taken together. -/
theorem quote_blanked_pair {c e : Char} (h : (s.step d (some e) c).2 = true) :
    (s.quote.next (blanked d s (s.step d (some e) c).1 c)).next
      (blankedSecond (s.step d (some e) c).1 e) = (s.step d (some e) c).1.quote := by
  obtain ⟨e', he, hpair⟩ := quote_step_pair h
  cases he
  cases hcomment : s.isComment || (s.step d (some e) c).1.isComment with
  | true =>
    have hnext := (step_comment (Bool.or_eq_true _ _ ▸ hcomment)).2
    have hquoted : ¬((s.step d (some e) c).1 = .literal ∨ (s.step d (some e) c).1 = .identifier) := by
      rintro (heq | heq) <;> rw [heq] at hnext <;> cases hnext
    rw [next_blanked_comment hcomment, blankedSecond, if_neg hquoted, hnext]
    rfl
  | false =>
    have hquoted := (step_pair h).resolve_left (by rw [hcomment]; exact Bool.false_ne_true)
    rw [next_blanked hcomment, ← hpair, blankedSecond, if_pos hquoted]

/-- The semicolons outside of quotes, without comments. -/
theorem blanked_semi (hd : d.PlainSpace) {next : Option Char} {c : Char} :
    s.quote = .outside ∧ blanked d s (s.step d next c).1 c = ';' ↔ s = .plain ∧ c = ';' := by
  constructor
  · rintro ⟨hs, hsemi⟩
    rw [blanked] at hsemi
    split_ifs at hsemi with hcomment hplain
    · cases hsemi
    · refine ⟨hplain.1, ?_⟩
      rw [readAs] at hsemi
      split_ifs at hsemi
      · cases hsemi
      · cases hsemi
      · exact hsemi
    · refine ⟨?_, hsemi⟩
      cases s with
      | plain => rfl
      | literal | identifier => cases hs
      | line | block => exact absurd rfl hcomment
  · rintro ⟨rfl, rfl⟩
    refine ⟨rfl, ?_⟩
    have hstep : (Lex.plain.step d next ';').1 = .plain := by simp [Lex.step]
    rw [hstep, blanked_plain rfl, if_pos rfl, readAs, hd ';' (by simp)]
    rfl

/-- Without its comments, a text is read by the guard as the database reads it. -/
theorem separated_iff (hd : d.PlainSpace) {cs : List Char} :
    Separated d s cs ↔ Ends s.quote (bare d s false cs) := by
  induction hlen : cs.length using Nat.strong_induction_on generalizing s cs with
  | _ n ih =>
    subst hlen
    cases cs with
    | nil =>
      constructor <;> intro _ a b heq
      · cases a <;> cases heq
      · cases a <;> cases heq
    | cons c cs =>
      have hsemi : s = .plain → c = ';' →
          (fromToken d cs = [] ↔ ∀ e ∈ bare d (s.step d cs.head? c).1 (s.step d cs.head? c).2 cs,
            isWhiteSpace e = true) := by
        rintro rfl rfl
        have hstep : Lex.plain.step d cs.head? ';' = (.plain, false) := by simp [Lex.step]
        rw [hstep]
        exact (bare_blank_iff hd rfl).symm
      rw [bare, ends_cons, ← and_imp, blanked_semi hd]
      cases htaken : (s.step d cs.head? c).2 with
      | false =>
        rw [separated_cons htaken, quote_blanked htaken, ih cs.length (by simp) rfl]
        rw [htaken] at hsemi
        refine and_congr_left fun _ => ⟨?_, ?_⟩
        · exact fun h hc => (hsemi hc.1 hc.2).mp (h hc.1 hc.2)
        · exact fun h hs hc => (hsemi hs hc).mpr (h ⟨hs, hc⟩)
      | true =>
        obtain ⟨e, he, hne⟩ := step_taken htaken
        obtain ⟨rest, rfl⟩ := List.head?_eq_some_iff.mp he
        have hfirst : ¬(s = .plain ∧ c = ';') := by
          rintro ⟨rfl, rfl⟩
          simp [Lex.step] at htaken
        have hsecond : blankedSecond (s.step d (some e) c).1 e ≠ ';' := by
          rw [blankedSecond]
          split_ifs
          · exact hne
          · decide
        rw [List.head?_cons] at htaken ⊢
        rw [separated_pair htaken, bare, ends_cons, quote_blanked_pair htaken,
          ih rest.length (by simp only [List.length_cons]; omega) rfl]
        exact ⟨fun h => ⟨fun hc => absurd hc hfirst, fun _ hc => absurd hc hsecond, h⟩,
          fun h => h.2.2⟩

/-! ## Accepted texts -/

/-- A text that the guard accepts is one statement where no comment holds a quote character
and the white space at its end is the database's; and it is one exactly where the guard
accepts it with its comments blanked out. -/
theorem single_of_accepted (d : Dialect) (hd : d.PlainSpace) {sql : String}
    (h : rejectMultiStatement sql = .ok ()) :
    (CleanComments d .plain false sql.toList → BlankEnding d sql → SingleStatement d sql) ∧
      (SingleStatement d sql ↔ rejectMultiStatement (withoutComments d sql) = .ok ()) := by
  refine ⟨single_of_clean h, ?_⟩
  rw [rejectMultiStatement_iff, withoutComments, String.toList_ofList]
  exact separated_iff hd

/-- The theorem at a text with a semicolon in a literal and one at its end. -/
theorem literal_single : SingleStatement postgresql "SELECT 'a; b'; " :=
  (single_of_accepted postgresql (by decide) (by decide)).1 (by decide)
    (by decide)

/-- A quote character in a comment hides the semicolon after it. -/
theorem stacked_accepted : rejectMultiStatement "SELECT 1 -- it's\n; DROP TABLE t" = .ok () ∧
    ¬SingleStatement postgresql "SELECT 1 -- it's\n; DROP TABLE t" := by
  refine ⟨by decide, fun h => ?_⟩
  have := h "SELECT 1 -- it's\n".toList " DROP TABLE t".toList (by decide)
    (by decide)
  exact absurd this (by decide)

end McpgSql.Sql
