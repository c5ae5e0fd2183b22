import McpgSql.Guards
import McpgSql.Sql.Placeholders

/-!
# How a database reads a text

The tokens that the guards of SQL texts are about, as a database reads them:
`'...'` and `"..."` with doubled quotes in them, `--` comments and `/* ... */`
comments. The dialects differ in what ends a line and in whether comments nest.

* `lexed`: where the text after a prefix stands;
* `tokenText`: a text from its first token on;
* `stripLoop_eq`: `strip_leading_whitespace_and_comments` reads comments that do not
  nest and lines that end with a newline.
-/

namespace McpgSql.Sql

/-! ## Tokens -/

/-- How a database reads comments and white space. -/
structure Dialect where
  /-- `/* ... */` comments nest. -/
  nests : Bool
  /-- What ends a `--` comment. -/
  endsLine : Char → Bool
  space : Char → Bool

/-- The white space of PostgreSQL's scanner. -/
def asciiSpace (c : Char) : Bool :=
  c = ' ' || c = '\t' || c = '\n' || c = '\r' || c = '\x0b' || c = '\x0c'

def postgresql : Dialect where
  nests := true
  endsLine c := c = '\n' || c = '\r'
  space := asciiSpace

/-- Where a text stands: between tokens or in one that is not quoted, in a literal, in a
quoted identifier, in a comment. -/
inductive Lex where
  | plain
  | literal
  | identifier
  | line
  /-- In this many comments around the innermost one. -/
  | block (depth : Nat)
deriving DecidableEq, Repr

namespace Lex

def isComment : Lex → Bool
  | .line | .block _ => true
  | .plain | .literal | .identifier => false

/-- What a character does before `next`: where it leads, and whether it takes that one
too. -/
def step (d : Dialect) (next : Option Char) : Lex → Char → Lex × Bool
  | .plain, c =>
    if c = '\'' then (.literal, false)
    else if c = '"' then (.identifier, false)
    else if c = '-' ∧ next = some '-' then (.line, true)
    else if c = '/' ∧ next = some '*' then (.block 0, true)
    else (.plain, false)
  | .literal, c =>
    if c ≠ '\'' then (.literal, false)
    else if next = some '\'' then (.literal, true)
    else (.plain, false)
  | .identifier, c =>
    if c ≠ '"' then (.identifier, false)
    else if next = some '"' then (.identifier, true)
    else (.plain, false)
  | .line, c => (if d.endsLine c then .plain else .line, false)
  | .block depth, c =>
    if c = '*' ∧ next = some '/' then (match depth with | 0 => .plain | n + 1 => .block n, true)
    else if d.nests ∧ c = '/' ∧ next = some '*' then (.block (depth + 1), true)
    else (.block depth, false)

end Lex

/-- Where the text after `cs` stands. With `taken`, the first character is of the token
before. -/
def lexed (d : Dialect) : Lex → Bool → List Char → Lex
  | s, _, [] => s
  | s, true, _ :: cs => lexed d s false cs
  | s, false, c :: cs => lexed d (s.step d cs.head? c).1 (s.step d cs.head? c).2 cs

/-- A text from its first token on: white space and comments are skipped. -/
def tokenText (d : Dialect) : Lex → Bool → List Char → List Char
  | _, _, [] => []
  | s, true, _ :: cs => tokenText d s false cs
  | s, false, c :: cs =>
    if s.isComment || (s.step d cs.head? c).1.isComment || d.space c then
      tokenText d (s.step d cs.head? c).1 (s.step d cs.head? c).2 cs
    else c :: cs

/-- The text from its first token on. -/
def fromToken (d : Dialect) (cs : List Char) : List Char := tokenText d .plain false cs

example : fromToken postgresql "-- x\r/* a /* b */ */ SELECT 1".toList = "SELECT 1".toList := by
  decide

/-! ## The guard's reading -/

/-- What `strip_leading_whitespace_and_comments` says it reads: comments do not nest,
and a line goes to the newline. -/
def documented (space : Char → Bool) : Dialect where
  nests := false
  endsLine c := c = '\n'
  space := space

theorem tokenText_comment {d : Dialect} {s : Lex} (h : s.isComment = true) (c : Char)
    (cs : List Char) : tokenText d s false (c :: cs) =
      tokenText d (s.step d cs.head? c).1 (s.step d cs.head? c).2 cs := by
  rw [tokenText, h, Bool.true_or, Bool.true_or, if_pos rfl]

section

variable {space : Char → Bool}

/-- A line is skipped to its newline. -/
theorem tokenText_line (cs : List Char) :
    tokenText (documented space) .line false cs =
      match cs.dropWhile (· ≠ '\n') with
      | _ :: rest => fromToken (documented space) rest
      | [] => [] := by
  induction cs with
  | nil => rfl
  | cons c cs ih =>
    rw [tokenText_comment rfl]
    by_cases hc : c = '\n'
    · subst hc
      rfl
    · rw [List.dropWhile_cons_of_pos (by simpa using hc), ← ih]
      simp [Lex.step, documented, hc]

/-- A comment is skipped to the first `*/`. -/
theorem tokenText_block (cs : List Char) :
    tokenText (documented space) (.block 0) false cs =
      match afterComment cs with
      | some rest => fromToken (documented space) rest
      | none => [] := by
  induction cs using afterComment.induct with
  | case1 => rfl
  | case2 rest => rfl
  | case3 c rest hnot ih =>
    rw [afterComment, ← ih, tokenText_comment rfl]
    · have hclose : ¬(c = '*' ∧ rest.head? = some '/') := by
        rintro ⟨rfl, h⟩
        obtain ⟨rest', rfl⟩ := List.head?_eq_some_iff.mp h
        exact hnot rest' rfl rfl
      simp [Lex.step, documented, hclose]
    · exact hnot

theorem length_afterComment {cs rest : List Char} (h : afterComment cs = some rest) :
    rest.length < cs.length := by
  induction cs using afterComment.induct with
  | case1 => cases h
  | case2 rest' =>
    cases h
    simp only [List.length_cons]
    omega
  | case3 c rest' hnot ih =>
    rw [afterComment] at h
    · exact (ih h).trans (by simp)
    · exact hnot

end

theorem isWhiteSpace_ne {c : Char} (h : isWhiteSpace c = true) :
    c ≠ '\'' ∧ c ≠ '"' ∧ c ≠ '-' ∧ c ≠ '/' ∧ c ≠ ';' := by
  refine ⟨?_, ?_, ?_, ?_, ?_⟩ <;> rintro rfl <;> exact absurd h (by decide)

theorem fromToken_dropWhile (cs : List Char) :
    fromToken (documented isWhiteSpace) (cs.dropWhile isWhiteSpace) =
      fromToken (documented isWhiteSpace) cs := by
  induction cs with
  | nil => rfl
  | cons c cs ih =>
    cases hc : isWhiteSpace c with
    | false => rw [List.dropWhile_cons_of_neg (by simp [hc])]
    | true =>
      obtain ⟨h₁, h₂, h₃, h₄, -⟩ := isWhiteSpace_ne hc
      rw [List.dropWhile_cons_of_pos hc, ih, fromToken, fromToken, tokenText]
      simp [Lex.step, h₁, h₂, h₃, h₄, documented, hc]

/-- A character that is no white space and begins no comment begins a token. -/
theorem fromToken_token {d : Dialect} {c : Char} {cs : List Char} (hspace : d.space c = false)
    (hline : ¬(c = '-' ∧ cs.head? = some '-')) (hblock : ¬(c = '/' ∧ cs.head? = some '*')) :
    fromToken d (c :: cs) = c :: cs := by
  rw [fromToken, tokenText, if_neg]
  rw [hspace, Lex.step, if_neg hline, if_neg hblock]
  by_cases h₁ : c = '\''
  · simp [h₁, Lex.isComment]
  · by_cases h₂ : c = '"'
    · simp [h₂, Lex.isComment]
    · simp [h₁, h₂, Lex.isComment]

theorem stripLoop_eq {n : Nat} {cs : List Char} (hn : cs.length < n) :
    stripLoop n cs = fromToken (documented isWhiteSpace) cs := by
  induction n generalizing cs with
  | zero => exact absurd hn (Nat.not_lt_zero _)
  | succ n ih =>
    have hlen := (List.dropWhile_suffix (l := cs) isWhiteSpace).length_le
    rw [← fromToken_dropWhile, stripLoop]
    cases hcs : cs.dropWhile isWhiteSpace with
    | nil => rfl
    | cons c tail =>
      rw [hcs, List.length_cons] at hlen
      have hspace : isWhiteSpace c = false := by
        have := List.head?_dropWhile_not isWhiteSpace cs
        rw [hcs] at this
        simpa using this
      by_cases hline : c = '-' ∧ tail.head? = some '-'
      · obtain ⟨rfl, h⟩ := hline
        obtain ⟨line, rfl⟩ := List.head?_eq_some_iff.mp h
        have hstep : fromToken (documented isWhiteSpace) ('-' :: '-' :: line) =
            tokenText (documented isWhiteSpace) .line false line := rfl
        rw [hstep, tokenText_line]
        have hline := (List.dropWhile_suffix (l := line) (· ≠ '\n')).length_le
        cases hrest : line.dropWhile (· ≠ '\n') with
        | nil => simp only [hrest]
        | cons e rest =>
          simp only [hrest]
          rw [hrest, List.length_cons] at hline
          exact ih (by simp only [List.length_cons] at hlen; omega)
      · by_cases hblock : c = '/' ∧ tail.head? = some '*'
        · obtain ⟨rfl, h⟩ := hblock
          obtain ⟨block, rfl⟩ := List.head?_eq_some_iff.mp h
          have hstep : fromToken (documented isWhiteSpace) ('/' :: '*' :: block) =
              tokenText (documented isWhiteSpace) (.block 0) false block := rfl
          rw [hstep, tokenText_block]
          cases hrest : afterComment block with
          | none => simp only [hrest]
          | some rest =>
            have hblock := length_afterComment hrest
            simp only [hrest]
            exact ih (by simp only [List.length_cons] at hlen; omega)
        · rw [fromToken_token hspace hline hblock]
          cases tail with
          | nil => simp
          | cons e tail =>
            simp only [List.head?_cons, Option.some.injEq] at hline hblock
            rcases Decidable.em (c = '-') with rfl | h₁
            · have he : e ≠ '-' := fun he => hline ⟨rfl, he⟩
              simp [he]
            · rcases Decidable.em (c = '/') with rfl | h₂
              · have he : e ≠ '*' := fun he => hblock ⟨rfl, he⟩
                simp [he]
              · simp [h₁, h₂]

end McpgSql.Sql
