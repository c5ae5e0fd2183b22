import Mathlib.Data.List.Basic

/-!
# Quoting by doubling

A text between two quotes in which each quote of the text stands twice (`quote`),
and its reading (`readQuoted`), which takes a quoted text from the front of a list
and leaves the rest. The two are inverse: `readQuoted_quote`, `eq_of_readQuoted`.
-/

namespace McpgSql.Library

variable {α : Type} [DecidableEq α] {q : α} {s rest text : List α}

/-- `s` with each quote doubled. -/
def doubled (q : α) (s : List α) : List α := s.flatMap fun c => if c = q then [q, q] else [c]

/-- `s` in quotes. -/
def quote (q : α) (s : List α) : List α := q :: (doubled q s ++ [q])

/-- What stands before the closing quote, and after it. -/
def readDoubled (q : α) : List α → Option (List α × List α)
  | [] => none
  | [c] => if c = q then some ([], []) else none
  | c :: d :: cs =>
    if c ≠ q then (readDoubled q (d :: cs)).map fun (s, rest) => (c :: s, rest)
    else if d = q then (readDoubled q cs).map fun (s, rest) => (q :: s, rest)
    else some ([], d :: cs)

/-- A quoted text at the front, and the rest. -/
def readQuoted (q : α) : List α → Option (List α × List α)
  | [] => none
  | c :: cs => if c = q then readDoubled q cs else none

@[simp] theorem doubled_nil : doubled q ([] : List α) = [] := rfl

theorem doubled_cons_self (q : α) (s : List α) : doubled q (q :: s) = q :: q :: doubled q s := by
  simp [doubled]

theorem doubled_cons_of_ne {c : α} (h : c ≠ q) (s : List α) :
    doubled q (c :: s) = c :: doubled q s := by
  simp [doubled, h]

theorem readDoubled_cons_of_ne {c : α} (h : c ≠ q) (cs : List α) :
    readDoubled q (c :: cs) = (readDoubled q cs).map fun (s, rest) => (c :: s, rest) := by
  cases cs with
  | nil => simp [readDoubled, h]
  | cons d cs => rw [readDoubled, if_pos h]

theorem readDoubled_pair (q : α) (cs : List α) :
    readDoubled q (q :: q :: cs) = (readDoubled q cs).map fun (s, rest) => (q :: s, rest) := by
  simp [readDoubled]

theorem readDoubled_close (h : rest.head? ≠ some q) : readDoubled q (q :: rest) = some ([], rest) := by
  cases rest with
  | nil => simp [readDoubled]
  | cons d rest =>
    have hd : d ≠ q := by simpa using h
    simp [readDoubled, hd]

/-- The closing quote is the first one that no quote follows. -/
theorem readDoubled_doubled (h : rest.head? ≠ some q) (s : List α) :
    readDoubled q (doubled q s ++ q :: rest) = some (s, rest) := by
  induction s with
  | nil => exact readDoubled_close h
  | cons c s ih =>
    by_cases hc : c = q
    · subst hc
      rw [doubled_cons_self, List.cons_append, List.cons_append, readDoubled_pair, ih]
      rfl
    · rw [doubled_cons_of_ne hc, List.cons_append, readDoubled_cons_of_ne hc, ih]
      rfl

/-- A quoted text is read as what was quoted, and nothing behind it is taken. -/
theorem readQuoted_quote (h : rest.head? ≠ some q) (s : List α) :
    readQuoted q (quote q s ++ rest) = some (s, rest) := by
  rw [quote, List.cons_append, readQuoted, if_pos rfl, List.append_assoc]
  exact readDoubled_doubled h s

theorem eq_of_readDoubled (h : readDoubled q text = some (s, rest)) :
    text = doubled q s ++ q :: rest := by
  induction text using readDoubled.induct (q := q) generalizing s rest with
  | case1 => cases h
  | case2 =>
    simp only [readDoubled, if_true, Option.some.injEq, Prod.mk.injEq] at h
    rw [← h.1, ← h.2]
    rfl
  | case3 c hc => simp [readDoubled, hc] at h
  | case4 c d cs hc ih =>
    rw [readDoubled, if_pos hc] at h
    obtain ⟨⟨s', rest'⟩, hread, he⟩ := Option.map_eq_some_iff.mp h
    cases he
    rw [doubled_cons_of_ne hc, ih hread, List.cons_append]
  | case5 c cs hc ih =>
    obtain rfl : c = q := by simpa using hc
    rw [readDoubled_pair] at h
    obtain ⟨⟨s', rest'⟩, hread, he⟩ := Option.map_eq_some_iff.mp h
    cases he
    rw [doubled_cons_self, ih hread, List.cons_append, List.cons_append]
  | case6 c d cs hc hd =>
    obtain rfl : c = q := by simpa using hc
    rw [readDoubled_close (by simpa using hd)] at h
    cases h
    rfl

/-- Only what `quote` writes is read. -/
theorem eq_of_readQuoted (h : readQuoted q text = some (s, rest)) : text = quote q s ++ rest := by
  cases text with
  | nil => cases h
  | cons c cs =>
    rw [readQuoted] at h
    split at h
    · rename_i hc
      rw [hc, eq_of_readDoubled h, quote, List.cons_append, List.append_assoc]
      rfl
    · cases h

theorem length_of_readQuoted (h : readQuoted q text = some (s, rest)) :
    rest.length < text.length := by
  rw [eq_of_readQuoted h, quote, List.cons_append, List.length_cons, List.length_append]
  omega

end McpgSql.Library
