import McpgSql.Sql.Lexer

/-!
# Statements on roles and privileges

`reject_privileged_ddl` refuses the texts that begin with a statement on roles or
privileges, behind white space and comments that do not nest (`privileged_rejected`). A
comment in a comment, which PostgreSQL skips, it does not (`nested_comment_accepted`).

The result is about texts where no `--` comment before the keywords is ended by a carriage
return alone: there the guard and PostgreSQL read on from different places.
-/

namespace McpgSql.Sql

open Library

/-- A character of a word, as PostgreSQL reads identifiers and keywords. -/
def isWordChar (c : Char) : Bool := c.isAlphanum || c = '_' || c = '$' || 128 ≤ c.val.toNat

/-- The word that a text begins with. -/
def word (cs : List Char) : List Char := cs.takeWhile isWordChar

/-- The first token of the text is GRANT or REVOKE, or it is CREATE, ALTER or DROP and the
next one is USER, ROLE, DATABASE or GROUP; in any letter case. -/
def Privileged (d : Dialect) (sql : String) : Prop :=
  let text := fromToken d sql.toList
  let rest := fromToken d (text.drop (word text).length)
  asciiUppercase (word text) ∈ ["GRANT", "REVOKE"] ∨
    asciiUppercase (word text) ∈ ["CREATE", "ALTER", "DROP"] ∧
      asciiUppercase (word rest) ∈ ["USER", "ROLE", "DATABASE", "GROUP"]

instance (d : Dialect) (sql : String) : Decidable (Privileged d sql) :=
  inferInstanceAs (Decidable (_ ∨ _ ∧ _))

/-- PostgreSQL with comments that do not nest, as the guard documents it. -/
def nonNested : Dialect := { postgresql with nests := false }

/-- No `--` comment before the first token is ended by a carriage return alone. -/
def NewlineEnded (d : Dialect) : Lex → Bool → List Char → Prop
  | _, _, [] => True
  | s, true, _ :: cs => NewlineEnded d s false cs
  | s, false, c :: cs =>
    (s = .line → c = '\r' → cs.head? = some '\n') ∧
      (s.isComment || (s.step d cs.head? c).1.isComment || d.space c →
        NewlineEnded d (s.step d cs.head? c).1 (s.step d cs.head? c).2 cs)

instance decidableNewlineEnded (d : Dialect) :
    ∀ s taken cs, Decidable (NewlineEnded d s taken cs)
  | _, _, [] => isTrue trivial
  | s, true, _ :: cs => decidableNewlineEnded d s false cs
  | s, false, c :: cs =>
    have := decidableNewlineEnded d (s.step d cs.head? c).1 (s.step d cs.head? c).2 cs
    inferInstanceAs (Decidable ((s = .line → c = '\r' → cs.head? = some '\n') ∧
      (s.isComment || (s.step d cs.head? c).1.isComment || d.space c →
        NewlineEnded d (s.step d cs.head? c).1 (s.step d cs.head? c).2 cs)))

/-- Neither before the first token nor between it and the second. -/
def KeywordsAfterNewlines (d : Dialect) (sql : String) : Prop :=
  let text := fromToken d sql.toList
  NewlineEnded d .plain false sql.toList ∧
    NewlineEnded d .plain false (text.drop (word text).length)

instance (d : Dialect) (sql : String) : Decidable (KeywordsAfterNewlines d sql) :=
  inferInstanceAs (Decidable (_ ∧ _))

/-! ## Skipping -/

/-- A carriage return in a line of comment apart, the guard reads comments so. -/
theorem step_nonNested {s : Lex} {c : Char} (h : ¬(s = .line ∧ c = '\r')) (next : Option Char) :
    s.step nonNested next c = s.step (documented asciiSpace) next c := by
  cases s with
  | plain | literal | identifier | block => rfl
  | line =>
    have hc : c ≠ '\r' := fun hc => h ⟨rfl, hc⟩
    simp [Lex.step, nonNested, postgresql, documented, hc]

/-- Where a newline ends the lines of comment, a text is read from the same token on: a
carriage return and the newline after it lead where the newline does. -/
theorem tokenText_nonNested {s : Lex} {taken : Bool} {cs : List Char}
    (h : NewlineEnded nonNested s taken cs) :
    tokenText nonNested s taken cs = tokenText (documented asciiSpace) s taken cs := by
  induction hlen : cs.length using Nat.strong_induction_on generalizing s taken cs with
  | _ n ih =>
    subst hlen
    cases cs with
    | nil => rfl
    | cons c cs =>
      cases taken with
      | true =>
        rw [tokenText, tokenText]
        exact ih cs.length (by simp) h rfl
      | false =>
        obtain ⟨hline, hcs⟩ := h
        by_cases hcr : s = .line ∧ c = '\r'
        · obtain ⟨rfl, rfl⟩ := hcr
          obtain ⟨rest, rfl⟩ := List.head?_eq_some_iff.mp (hline rfl rfl)
          have hrest : NewlineEnded nonNested .plain false rest := (hcs rfl).2 rfl
          have hafter := ih rest.length (by simp only [List.length_cons]; omega) hrest rfl
          exact hafter
        · have hspace : (documented asciiSpace).space c = nonNested.space c := rfl
          rw [tokenText, tokenText, ← step_nonNested hcr, hspace]
          by_cases hskip :
              s.isComment || (s.step nonNested cs.head? c).1.isComment || nonNested.space c
          · rw [if_pos hskip, if_pos hskip]
            exact ih cs.length (by simp) (hcs hskip) rfl
          · rw [if_neg hskip, if_neg hskip]

/-- A privileged statement is one as the guard reads comments. -/
theorem privileged_documented {sql : String} (h : Privileged nonNested sql)
    (hline : KeywordsAfterNewlines nonNested sql) : Privileged (documented asciiSpace) sql := by
  obtain ⟨hfirst, hsecond⟩ := hline
  have htext : fromToken nonNested sql.toList = fromToken (documented asciiSpace) sql.toList :=
    tokenText_nonNested hfirst
  rw [htext] at hsecond
  have hrest : fromToken nonNested _ = fromToken (documented asciiSpace) _ :=
    tokenText_nonNested hsecond
  simp only [Privileged, htext, hrest] at h
  exact h

theorem step_documented (space space' : Char → Bool) (s : Lex) (next : Option Char) (c : Char) :
    s.step (documented space) next c = s.step (documented space') next c := by
  cases s <;> rfl

/-- With more white space, a text is read from the same token on. -/
theorem tokenText_widen {space space' : Char → Bool} (hle : ∀ c, space c = true → space' c = true)
    {s : Lex} {taken : Bool} {cs rest : List Char} {c : Char}
    (h : tokenText (documented space) s taken cs = c :: rest) (hc : space' c = false) :
    tokenText (documented space') s taken cs = c :: rest := by
  induction cs generalizing s taken with
  | nil => cases h
  | cons e cs ih =>
    cases taken with
    | true => exact ih h
    | false =>
      rw [tokenText, step_documented space space'] at h
      rw [tokenText]
      generalize s.step (documented space') cs.head? e = next at h ⊢
      cases hcomment : s.isComment || next.1.isComment with
      | true =>
        rw [hcomment, Bool.true_or, if_pos rfl] at h
        rw [Bool.true_or, if_pos rfl]
        exact ih h
      | false =>
        rw [hcomment, Bool.false_or] at h
        rw [Bool.false_or]
        by_cases hspace : space e = true
        · rw [if_pos (show (documented space).space e = true from hspace)] at h
          rw [if_pos (show (documented space').space e = true from hle e hspace)]
          exact ih h
        · rw [if_neg (show ¬(documented space).space e = true from hspace)] at h
          obtain ⟨rfl, rfl⟩ := List.cons.inj h
          rw [if_neg (show ¬(documented space').space e = true by simp [documented, hc])]

theorem isWhiteSpace_of_asciiSpace (c : Char) (h : asciiSpace c = true) : isWhiteSpace c = true := by
  simp only [asciiSpace, Bool.or_eq_true, decide_eq_true_eq] at h
  rcases h with ((((rfl | rfl) | rfl) | rfl) | rfl) | rfl <;> decide

/-! ## Words -/

/-- What is a letter in upper case is one. -/
theorem isAlpha_of_toUpper {c : Char} (h : c.toUpper.isAlpha = true) : c.isAlpha = true := by
  by_cases hc : c.val.toNat < 128
  · exact of_ascii (P := fun c => c.toUpper.isAlpha = true → c.isAlpha = true) hc
      (by decide) h
  · have hz : ¬c.val ≤ 'z'.val := by
      rw [UInt32.le_iff_toNat_le]
      show ¬c.val.toNat ≤ 122
      omega
    have hkeep : c.toUpper = c := dif_neg fun h => hz h.2
    rwa [hkeep] at h

theorem isWhiteSpace_of_isAlpha {c : Char} (h : c.isAlpha = true) : isWhiteSpace c = false :=
  isWhiteSpace_of_isAlphanum (by simp [Char.isAlphanum, h])

/-- A keyword is letters. -/
theorem isAlpha_of_mem_word {cs : List Char} {keywords : List String}
    (h : asciiUppercase (word cs) ∈ keywords)
    (hletters : ∀ k ∈ keywords, ∀ c ∈ k.toList, c.isAlpha = true) :
    ∀ c ∈ word cs, c.isAlpha = true := by
  intro c hc
  refine isAlpha_of_toUpper (hletters _ h _ ?_)
  rw [asciiUppercase, String.toList_ofList]
  exact List.mem_map.mpr ⟨c, hc, rfl⟩

/-- The guard reads a word of letters as it is. -/
theorem leadingWord_eq {cs : List Char} (h : ∀ c ∈ word cs, c.isAlpha = true) :
    leadingWord cs = word cs := by
  induction cs with
  | nil => rfl
  | cons c cs ih =>
    rw [word] at h ⊢
    by_cases hc : isWordChar c = true
    · rw [List.takeWhile_cons_of_pos hc] at h ⊢
      obtain ⟨halpha, hcs⟩ := List.forall_mem_cons.mp h
      rw [leadingWord, List.takeWhile_cons_of_pos (by simp [halpha])]
      exact congrArg _ (ih hcs)
    · rw [List.takeWhile_cons_of_neg hc, leadingWord, List.takeWhile_cons_of_neg]
      intro hlead
      simp only [Bool.or_eq_true, decide_eq_true_eq] at hlead
      refine hc ?_
      rcases hlead with hlead | rfl
      · simp [isWordChar, Char.isAlphanum, hlead]
      · rfl

/-- What the guard skips before a keyword. -/
theorem fromToken_keyword {cs : List Char} {keywords : List String}
    (h : asciiUppercase (word (fromToken (documented asciiSpace) cs)) ∈ keywords)
    (hletters : ∀ k ∈ keywords, k ≠ "" ∧ k.toList.all Char.isAlpha = true) :
    stripLeadingWhitespaceAndComments cs = fromToken (documented asciiSpace) cs ∧
      leadingWord (fromToken (documented asciiSpace) cs) =
        word (fromToken (documented asciiSpace) cs) := by
  have halpha := isAlpha_of_mem_word h fun k hk => List.all_eq_true.mp (hletters k hk).2
  refine ⟨?_, leadingWord_eq halpha⟩
  rw [stripLeadingWhitespaceAndComments, stripLoop_eq (Nat.lt_succ_self _)]
  cases htext : fromToken (documented asciiSpace) cs with
  | nil =>
    rw [htext] at h
    exact absurd rfl (hletters _ h).1
  | cons c rest =>
    rw [htext] at h halpha
    have hc : c.isAlpha = true := by
      by_cases hword : isWordChar c = true
      · exact halpha c (by rw [word, List.takeWhile_cons_of_pos hword]; exact List.mem_cons_self)
      · rw [word, List.takeWhile_cons_of_neg hword] at h
        exact absurd rfl (hletters _ h).1
    exact tokenText_widen isWhiteSpace_of_asciiSpace htext (isWhiteSpace_of_isAlpha hc)

/-! ## The guard -/

/-- The guard refuses what begins with a statement on roles or privileges as it reads
comments. -/
theorem documented_rejected {sql : String} (h : Privileged (documented asciiSpace) sql) :
    ∃ e, rejectPrivilegedDdl sql = .error e := by
  have hempty : ∀ keywords : List String, "" ∉ keywords → ∀ k ∈ keywords, ¬k.isEmpty = true := by
    rintro keywords hnot k hk hempty
    rw [String.isEmpty_iff.mp hempty] at hk
    exact hnot hk
  rw [rejectPrivilegedDdl]
  rcases h with hfirst | ⟨hfirst, hsecond⟩
  · obtain ⟨hstrip, hword⟩ := fromToken_keyword hfirst (by decide)
    simp only [hstrip, hword]
    rw [if_neg (hempty _ (by decide) _ hfirst), if_pos hfirst]
    exact ⟨_, rfl⟩
  · obtain ⟨hstrip, hword⟩ := fromToken_keyword hfirst (by decide)
    obtain ⟨hstrip', hword'⟩ := fromToken_keyword hsecond (by decide)
    have hother : ∀ k ∈ ["CREATE", "ALTER", "DROP"], k ∉ ["GRANT", "REVOKE"] := by decide
    simp only [hstrip, hword, hstrip', hword']
    rw [if_neg (hempty _ (by decide) _ hfirst), if_neg (hother _ hfirst), if_pos hfirst,
      if_pos hsecond]
    exact ⟨_, rfl⟩

/-- A text that begins with a statement on roles or privileges, behind white space and
comments that do not nest, is refused. -/
theorem privileged_rejected {sql : String} (h : Privileged nonNested sql)
    (hline : KeywordsAfterNewlines nonNested sql) : ∃ e, rejectPrivilegedDdl sql = .error e :=
  documented_rejected (privileged_documented h hline)

/-- The theorem at a statement behind a comment of each kind, with both ends of lines. -/
theorem hidden_role_rejected :
    ∃ e, rejectPrivilegedDdl "-- admin\r\n/* x */ Create/**/--\nROLE r" = .error e :=
  privileged_rejected (by decide) (by decide)

/-- PostgreSQL skips a comment in a comment, the guard does not. -/
theorem nested_comment_accepted :
    Privileged postgresql "/* a /* b */ */ GRANT ALL ON t TO u" ∧
      Accepted "/* a /* b */ */ GRANT ALL ON t TO u" := by
  refine ⟨by decide, ?_⟩
  unfold Accepted
  decide

end McpgSql.Sql
