import Mathlib.Data.List.TakeWhile
import McpgSql.Guards
import McpgSql.Library.Text

/-!
# Two scanners of one text

`rewrite_placeholders` and `reject_multi_statement` both count quotes, each in a
loop of its own. The guard takes a byte a round and leaves at a second semicolon;
a round of the rewriting (`rewriteRound`) may take a cast or a whole placeholder.

* `Visited`: where the rewriting begins a round, and what it holds there;
* `rewriteRound_spec`: what a round takes, and what it does to the quotes;
* `visited_quotes`, `scanLoop_quotes`: both count the quotes of the text so far;
* `scanners_agree`: so a semicolon is quoted for the one where it is for the other.
-/

namespace McpgSql.Sql

open Library

/-! ## Quotes -/

/-- Whether a text stands in a literal, and whether in a quoted identifier. -/
structure Quotes where
  single : Bool := false
  double : Bool := false
deriving DecidableEq, Repr

def Quotes.step (q : Quotes) (b : UInt8) : Quotes :=
  if b = 39 && !q.double then { q with single := !q.single }
  else if b = 34 && !q.single then { q with double := !q.double }
  else q

/-- Where the text after `bytes` stands. -/
def Quotes.after (q : Quotes) (bytes : List UInt8) : Quotes := bytes.foldl Quotes.step q

def quotesOfScan (scan : Scan) : Quotes := ⟨scan.inSingle, scan.inDouble⟩

def quotesOfRewriting (st : Rewriting) : Quotes := ⟨st.inSingleQuote, st.inDoubleQuote⟩

@[simp] theorem Quotes.after_nil (q : Quotes) : q.after [] = q := rfl

@[simp] theorem Quotes.after_cons (q : Quotes) (b : UInt8) (bytes : List UInt8) :
    q.after (b :: bytes) = (q.step b).after bytes := rfl

theorem Quotes.after_append (q : Quotes) (a b : List UInt8) :
    q.after (a ++ b) = (q.after a).after b :=
  List.foldl_append

theorem Quotes.step_of_ne {b : UInt8} (hs : b ≠ 39) (hd : b ≠ 34) (q : Quotes) : q.step b = q := by
  simp [Quotes.step, hs, hd]

/-- Bytes other than quotes leave it where it stands. -/
theorem Quotes.after_of_ne {bytes : List UInt8} (h : ∀ b ∈ bytes, b ≠ 39 ∧ b ≠ 34) (q : Quotes) :
    q.after bytes = q := by
  induction bytes with
  | nil => rfl
  | cons b bytes ih =>
    obtain ⟨hb, hrest⟩ := List.forall_mem_cons.mp h
    rw [Quotes.after_cons, Quotes.step_of_ne hb.1 hb.2, ih hrest]

/-! ## The guard -/

theorem scanLoop_quotes {i : Nat} {bytes : List UInt8} {st scan : Scan}
    (h : scanLoop i bytes st = .ok scan) :
    quotesOfScan scan = (quotesOfScan st).after bytes := by
  induction bytes generalizing i st with
  | nil =>
    cases h
    rfl
  | cons c bytes ih =>
    rw [Quotes.after_cons]
    have hquotes : ∀ st', scanLoop (i + 1) bytes st' = .ok scan →
        quotesOfScan st' = (quotesOfScan st).step c →
        quotesOfScan scan = ((quotesOfScan st).step c).after bytes := by
      intro st' h' hst'
      rw [← hst']
      exact ih h'
    rw [scanLoop] at h
    split at h
    · rename_i hc
      exact hquotes _ h (by simp [quotesOfScan, Quotes.step, hc])
    · rename_i hsingle
      split at h
      · rename_i hc
        exact hquotes _ h (by simp [quotesOfScan, Quotes.step, hsingle, hc])
      · rename_i hdouble
        have hkeep : quotesOfScan st = (quotesOfScan st).step c := by
          simp [quotesOfScan, Quotes.step, hsingle, hdouble]
        split at h
        · split at h
          · cases h
          · exact hquotes _ h hkeep
        · exact hquotes _ h hkeep

theorem scanLoop_append (i : Nat) (a b : List UInt8) (st : Scan) :
    scanLoop i (a ++ b) st = (scanLoop i a st).bind fun scan => scanLoop (i + a.length) b scan := by
  induction a generalizing i st with
  | nil => rfl
  | cons c a ih =>
    have hnext : ∀ st', scanLoop (i + 1) (a ++ b) st' = (scanLoop (i + 1) a st').bind fun scan =>
        scanLoop (i + (c :: a).length) b scan := by
      intro st'
      rw [ih, List.length_cons, Nat.add_assoc, Nat.add_comm 1]
    simp only [List.cons_append, scanLoop, hnext]
    split
    · rfl
    · split
      · rfl
      · split
        · split <;> rfl
        · rfl

/-! ## The rounds of the rewriting -/

/-- One round of `rewrite_placeholders` at the byte `c` before `rest`: the bytes it takes, and
what it has written then. -/
def rewriteRound (driver : DriverKind) (c : UInt8) (rest : List UInt8) (st : Rewriting) :
    Nat × Rewriting :=
  if c = 39 && !st.inDoubleQuote then
    (1, { st with inSingleQuote := !st.inSingleQuote, out := st.out ++ [asChar c] })
  else if c = 34 && !st.inSingleQuote then
    (1, { st with inDoubleQuote := !st.inDoubleQuote, out := st.out ++ [asChar c] })
  else if c = 58 && !st.inSingleQuote && !st.inDoubleQuote then
    if rest.head? = some 58 then (2, { st with out := st.out ++ [':', ':'] })
    else if (rest.takeWhile isNameByte).isEmpty then (1, { st with out := st.out ++ [':'] })
    else
      let order := st.order ++ [String.ofList ((rest.takeWhile isNameByte).map asChar)]
      (1 + (rest.takeWhile isNameByte).length,
        { st with order, out := st.out ++ placeholder driver order })
  else (1, { st with out := st.out ++ [asChar c] })

variable {driver : DriverKind} {bytes : List UInt8}

/-- The loop is its rounds. -/
theorem rewriteLoop_round (n : Nat) (c : UInt8) (rest : List UInt8) (st : Rewriting) :
    rewriteLoop driver (n + 1) (c :: rest) st =
      rewriteLoop driver n ((c :: rest).drop (rewriteRound driver c rest st).1)
        (rewriteRound driver c rest st).2 := by
  rw [rewriteLoop, rewriteRound]
  split
  · rfl
  · split
    · rfl
    · split
      · split
        · rw [List.drop_succ_cons, List.drop_one]
        · split
          · rfl
          · rw [Nat.add_comm, List.drop_succ_cons, drop_length_takeWhile]
      · rfl

/-- The bytes that both scanners look for. -/
def isMark (b : UInt8) : Bool := b = 39 || b = 34 || b = 59

theorem isMark_of_isNameByte {b : UInt8} (h : isNameByte b = true) : isMark b = false := by
  by_contra hmark
  simp only [isMark, Bool.not_eq_false, Bool.or_eq_true, decide_eq_true_eq] at hmark
  rcases hmark with (rfl | rfl) | rfl <;> cases h

/-- A round takes a byte and what belongs to it, none of it a quote or a semicolon; the quotes
are as after the byte. Only a colon outside of quotes has anything belong to it. -/
theorem rewriteRound_spec (driver : DriverKind) (c : UInt8) (rest : List UInt8) (st : Rewriting) :
    ∃ n ≤ rest.length, (rewriteRound driver c rest st).1 = n + 1 ∧
      (∀ b ∈ rest.take n, isMark b = false) ∧
      quotesOfRewriting (rewriteRound driver c rest st).2 = (quotesOfRewriting st).step c ∧
      (0 < n → c = 58 ∧ quotesOfRewriting st = {}) := by
  unfold rewriteRound
  split
  · rename_i hc
    refine ⟨0, Nat.zero_le _, rfl, by simp, ?_, fun h => absurd h (by simp)⟩
    simp [quotesOfRewriting, Quotes.step, hc]
  · rename_i hsingle
    split
    · rename_i hc
      refine ⟨0, Nat.zero_le _, rfl, by simp, ?_, fun h => absurd h (by simp)⟩
      simp [quotesOfRewriting, Quotes.step, hsingle, hc]
    · rename_i hdouble
      have hkeep : quotesOfRewriting st = (quotesOfRewriting st).step c := by
        simp [quotesOfRewriting, Quotes.step, hsingle, hdouble]
      split
      · rename_i hcolon
        replace hcolon : c = 58 ∧ quotesOfRewriting st = {} := by
          simp only [Bool.and_eq_true, decide_eq_true_eq, Bool.not_eq_true'] at hcolon
          exact ⟨hcolon.1.1, by simp [quotesOfRewriting, hcolon.1.2, hcolon.2]⟩
        split
        · rename_i hcast
          obtain ⟨rest', rfl⟩ := List.head?_eq_some_iff.mp hcast
          exact ⟨1, by simp, rfl, by simp [isMark], hkeep, fun _ => hcolon⟩
        · split
          · exact ⟨0, Nat.zero_le _, rfl, by simp, hkeep, fun h => absurd h (by simp)⟩
          · refine ⟨(rest.takeWhile isNameByte).length, (List.takeWhile_prefix _).length_le,
              Nat.add_comm _ _, ?_, hkeep, fun _ => hcolon⟩
            intro b hb
            rw [← List.prefix_iff_eq_take.mp (List.takeWhile_prefix _)] at hb
            exact isMark_of_isNameByte (List.mem_takeWhile_imp hb)
      · exact ⟨0, Nat.zero_le _, rfl, by simp, hkeep, fun h => absurd h (by simp)⟩

/-! ## Where the rounds begin -/

/-- `rewrite_placeholders` begins a round at byte `i` and has written `st`. -/
inductive Visited (driver : DriverKind) (bytes : List UInt8) : Nat → Rewriting → Prop
  | start : Visited driver bytes 0 {}
  | round {i : Nat} {c : UInt8} {rest : List UInt8} {st : Rewriting} : Visited driver bytes i st →
      bytes.drop i = c :: rest →
      Visited driver bytes (i + (rewriteRound driver c rest st).1) (rewriteRound driver c rest st).2

/-- The text up to the end of a round. -/
theorem take_round {i n : Nat} {c : UInt8} {rest : List UInt8} (h : bytes.drop i = c :: rest) :
    bytes.take (i + (n + 1)) = bytes.take i ++ c :: rest.take n := by
  rw [List.take_add, h, List.take_succ_cons]

theorem not_quote_of_not_isMark {b : UInt8} (h : isMark b = false) : b ≠ 39 ∧ b ≠ 34 := by
  simp only [isMark, Bool.or_eq_false_iff, decide_eq_false_iff_not] at h
  exact h.1

/-- Inside a round the quotes stay as they are after its first byte. -/
theorem after_round {i m : Nat} {c : UInt8} {rest : List UInt8} (h : bytes.drop i = c :: rest)
    (hmark : ∀ b ∈ rest.take m, isMark b = false) (q : Quotes) :
    q.after (bytes.take (i + (m + 1))) = (q.after (bytes.take i)).step c := by
  rw [take_round h, Quotes.after_append, Quotes.after_cons,
    Quotes.after_of_ne fun b hb => not_quote_of_not_isMark (hmark b hb)]

/-- At every round, the quotes are those of the text before it. -/
theorem visited_quotes {i : Nat} {st : Rewriting} (h : Visited driver bytes i st) :
    quotesOfRewriting st = Quotes.after {} (bytes.take i) := by
  induction h with
  | start => rfl
  | @round i c rest st _ hdrop ih =>
    obtain ⟨n, _, hn, hmark, hquotes, _⟩ := rewriteRound_spec driver c rest st
    rw [hn, hquotes, after_round hdrop hmark, ih]

theorem exists_drop {i : Nat} (h : i < bytes.length) : ∃ c rest, bytes.drop i = c :: rest :=
  ⟨_, _, List.drop_eq_getElem_cons h⟩

/-- Every byte is taken by a round. -/
theorem exists_round (driver : DriverKind) {i : Nat} (h : i < bytes.length) :
    ∃ p c rest st, Visited driver bytes p st ∧ bytes.drop p = c :: rest ∧ p ≤ i ∧
      i < p + (rewriteRound driver c rest st).1 := by
  have hbegin : ∀ {p st}, Visited driver bytes p st → p < bytes.length →
      ∃ p' c rest st, Visited driver bytes p' st ∧ bytes.drop p' = c :: rest ∧ p' ≤ p ∧
        p < p' + (rewriteRound driver c rest st).1 := by
    intro p st hv hp
    obtain ⟨c, rest, hdrop⟩ := exists_drop hp
    obtain ⟨n, _, hn, _⟩ := rewriteRound_spec driver c rest st
    exact ⟨p, c, rest, st, hv, hdrop, le_rfl, by omega⟩
  induction i with
  | zero => exact hbegin .start h
  | succ i ih =>
    obtain ⟨p, c, rest, st, hv, hdrop, hp, hi⟩ := ih (by omega)
    by_cases hin : i + 1 < p + (rewriteRound driver c rest st).1
    · exact ⟨p, c, rest, st, hv, hdrop, by omega, hin⟩
    · have hnext := hv.round hdrop
      have hend : i + 1 = p + (rewriteRound driver c rest st).1 := by omega
      rw [← hend] at hnext
      exact hbegin hnext h

/-- A byte that a round takes after its first. -/
theorem mem_round {p i n : Nat} {c b : UInt8} {rest : List UInt8} (hdrop : bytes.drop p = c :: rest)
    (hp : p < i) (hi : i < p + (n + 1)) (hb : bytes[i]? = some b) : b ∈ rest.take n := by
  have hget : (bytes.drop p)[i - p]? = some b := by
    rw [List.getElem?_drop, Nat.add_sub_cancel' hp.le, hb]
  rw [hdrop, show i - p = i - p - 1 + 1 by omega, List.getElem?_cons_succ] at hget
  apply List.mem_of_getElem? (i := i - p - 1)
  rw [List.getElem?_take_of_lt (by omega), hget]

/-- A round begins at every quote and semicolon. -/
theorem visited_mark {i : Nat} {b : UInt8} (hb : bytes[i]? = some b) (hmark : isMark b = true) :
    ∃ st, Visited driver bytes i st := by
  obtain ⟨p, c, rest, st, hv, hdrop, hp, hi⟩ :=
    exists_round driver (List.getElem?_eq_some_iff.mp hb).1
  obtain ⟨n, _, hn, hrest, _⟩ := rewriteRound_spec driver c rest st
  rcases Nat.eq_or_lt_of_le hp with rfl | hlt
  · exact ⟨st, hv⟩
  · rw [hn] at hi
    have hfalse := hrest b (mem_round hdrop hlt hi hb)
    rw [hmark] at hfalse
    cases hfalse

/-! ## The loop passes where its rounds begin -/

theorem rewriteLoop_fuel {n m : Nat} {bytes : List UInt8} {st : Rewriting}
    (hn : bytes.length ≤ n) (hm : bytes.length ≤ m) :
    rewriteLoop driver n bytes st = rewriteLoop driver m bytes st := by
  induction n generalizing m bytes st with
  | zero =>
    rw [List.length_eq_zero_iff.mp (Nat.le_zero.mp hn)]
    cases m <;> rfl
  | succ n ih =>
    cases bytes with
    | nil => cases m <;> rfl
    | cons c rest =>
      obtain ⟨m, rfl⟩ : ∃ m', m = m' + 1 := Nat.exists_eq_succ_of_ne_zero (Nat.ne_zero_of_lt hm)
      obtain ⟨k, _, hk, _⟩ := rewriteRound_spec driver c rest st
      simp only [List.length_cons, Nat.add_le_add_iff_right] at hn hm
      rw [rewriteLoop_round, rewriteLoop_round, hk, List.drop_succ_cons]
      apply ih
      · rw [List.length_drop]
        omega
      · rw [List.length_drop]
        omega

theorem visited_le {i : Nat} {st : Rewriting} (h : Visited driver bytes i st) :
    i ≤ bytes.length := by
  induction h with
  | start => exact Nat.zero_le _
  | @round i c rest st _ hdrop _ =>
    obtain ⟨n, hle, hn, _⟩ := rewriteRound_spec driver c rest st
    have hlen := congrArg List.length hdrop
    simp only [List.length_drop, List.length_cons] at hlen
    omega

/-- From where a round begins, the loop runs as it does from the start. -/
theorem rewriteLoop_visited {i : Nat} {st : Rewriting} (h : Visited driver bytes i st) :
    rewriteLoop driver bytes.length bytes {} =
      rewriteLoop driver (bytes.drop i).length (bytes.drop i) st := by
  induction h with
  | start => rfl
  | @round i c rest st _ hdrop ih =>
    obtain ⟨n, hle, hn, _⟩ := rewriteRound_spec driver c rest st
    rw [ih, ← List.drop_drop, hdrop, List.length_cons, rewriteLoop_round]
    apply rewriteLoop_fuel
    · rw [hn, List.drop_succ_cons, List.length_drop]
      omega
    · exact le_rfl

/-- The end is reached, with what is returned. -/
theorem visited_end (sql : String) (driver : DriverKind) :
    ∃ st, Visited driver (utf8 sql) (utf8 sql).length st ∧
      rewritePlaceholders sql driver = (String.ofList st.out, st.order) := by
  have hend : ∃ st, Visited driver (utf8 sql) (utf8 sql).length st := by
    rcases Nat.eq_zero_or_pos (utf8 sql).length with hnil | hpos
    · rw [hnil]
      exact ⟨{}, .start⟩
    · obtain ⟨p, c, rest, st, hv, hdrop, hp, hi⟩ := exists_round driver (Nat.sub_lt hpos Nat.one_pos)
      have hle := visited_le (hv.round hdrop)
      have heq : p + (rewriteRound driver c rest st).1 = (utf8 sql).length := by omega
      exact ⟨_, heq ▸ hv.round hdrop⟩
  obtain ⟨st, hv⟩ := hend
  refine ⟨st, hv, ?_⟩
  have hloop := rewriteLoop_visited hv
  rw [List.drop_length] at hloop
  rw [rewritePlaceholders, hloop]
  rfl

/-! ## The two agree -/

/-- At byte `i` the guard stands with these quotes: it has found no second semicolon before. -/
def GuardAt (bytes : List UInt8) (i : Nat) (q : Quotes) : Prop :=
  ∃ scan, scanLoop 0 (bytes.take i) {} = .ok scan ∧ quotesOfScan scan = q

/-- From there the guard's loop runs as it does from the start. -/
theorem GuardAt.loop {i : Nat} {q : Quotes} (h : GuardAt bytes i q) (hi : i ≤ bytes.length) :
    ∃ scan, quotesOfScan scan = q ∧
      scanLoop 0 bytes {} = scanLoop i (bytes.drop i) scan := by
  obtain ⟨scan, hscan, hq⟩ := h
  have hrun := scanLoop_append 0 (bytes.take i) (bytes.drop i) {}
  rw [List.take_append_drop, hscan, List.length_take, Nat.zero_add, Nat.min_eq_left hi] at hrun
  exact ⟨scan, hq, hrun⟩

/-- A guard that finds no second semicolon stands at every byte. -/
theorem exists_guardAt {scan : Scan} (h : scanLoop 0 bytes {} = .ok scan) (i : Nat) :
    ∃ q, GuardAt bytes i q := by
  have hrun := scanLoop_append 0 (bytes.take i) (bytes.drop i) {}
  rw [List.take_append_drop, h] at hrun
  cases hfront : scanLoop 0 (bytes.take i) {} with
  | error at_ =>
    rw [hfront] at hrun
    cases hrun
  | ok front => exact ⟨_, front, hfront, rfl⟩

/-- A placeholder that stands where `st` is reached is bound. -/
def Binds (driver : DriverKind) (st : Rewriting) : Prop :=
  ∀ rest : List UInt8, rest.takeWhile isNameByte ≠ [] →
    (rewriteRound driver 58 rest st).2.order ≠ st.order

/-- Byte `i` is in a region where placeholders are bound: they are at the round that takes it. -/
def BindsAt (driver : DriverKind) (bytes : List UInt8) (i : Nat) : Prop :=
  ∃ p c rest st, Visited driver bytes p st ∧ bytes.drop p = c :: rest ∧ p ≤ i ∧
    i < p + (rewriteRound driver c rest st).1 ∧ Binds driver st

theorem GuardAt.eq_after {i : Nat} {q : Quotes} (h : GuardAt bytes i q) :
    q = Quotes.after {} (bytes.take i) := by
  obtain ⟨scan, hscan, rfl⟩ := h
  exact scanLoop_quotes hscan

/-- Placeholders are bound outside of quotes. -/
theorem binds_iff (driver : DriverKind) (st : Rewriting) :
    Binds driver st ↔ quotesOfRewriting st = {} := by
  have h39 : (58 : UInt8) ≠ 39 := by decide
  have h34 : (58 : UInt8) ≠ 34 := by decide
  constructor
  · intro h
    by_contra hq
    have hquoted : (!st.inSingleQuote && !st.inDoubleQuote) = false := by
      by_contra hout
      simp only [Bool.not_eq_false, Bool.and_eq_true, Bool.not_eq_true'] at hout
      exact hq (by simp [quotesOfRewriting, hout.1, hout.2])
    apply h [120] (by decide)
    simp [rewriteRound, h39, h34, hquoted]
  · intro h rest hname
    simp only [quotesOfRewriting, Quotes.mk.injEq] at h
    have hcast : rest.head? ≠ some 58 := by
      intro hhead
      obtain ⟨rest', rfl⟩ := List.head?_eq_some_iff.mp hhead
      exact hname (by simp [isNameByte])
    simp [rewriteRound, h39, h34, h.1, h.2, hcast, hname]

/-- In every byte of a round that stands outside of quotes, the text does. -/
theorem after_of_round {p i : Nat} {c : UInt8} {rest : List UInt8} {st : Rewriting}
    (hv : Visited driver bytes p st) (hdrop : bytes.drop p = c :: rest) (hp : p ≤ i)
    (hi : i < p + (rewriteRound driver c rest st).1) :
    Quotes.after {} (bytes.take i) = {} ↔ quotesOfRewriting st = {} := by
  obtain ⟨n, _, hn, hrest, _, hlong⟩ := rewriteRound_spec driver c rest st
  rcases Nat.eq_or_lt_of_le hp with rfl | hlt
  · rw [visited_quotes hv]
  · obtain ⟨rfl, hq⟩ := hlong (by omega)
    have hmark : ∀ b ∈ rest.take (i - p - 1), isMark b = false := fun b hb =>
      hrest b (List.take_subset_take_left _ (by omega) hb)
    have hafter := after_round hdrop hmark {}
    rw [show p + (i - p - 1 + 1) = i by omega, ← visited_quotes hv, hq] at hafter
    rw [hafter, hq]
    decide

/-- Both scanners count the same quotes wherever the rewriting begins a round, which it does at
every quote; so a byte is quoted for the guard exactly where no placeholder is bound. -/
theorem scanners_agree (sql : String) (driver : DriverKind) :
    (∀ i st q, Visited driver (utf8 sql) i st → GuardAt (utf8 sql) i q →
      quotesOfRewriting st = q) ∧
    (∀ i, (utf8 sql)[i]? = some 39 ∨ (utf8 sql)[i]? = some 34 →
      ∃ st, Visited driver (utf8 sql) i st) ∧
    (∀ i q, i < (utf8 sql).length → GuardAt (utf8 sql) i q →
      (BindsAt driver (utf8 sql) i ↔ q = {})) := by
  refine ⟨?_, ?_, ?_⟩
  · intro i st q hv hq
    rw [visited_quotes hv, hq.eq_after]
  · rintro i (hb | hb)
    · exact visited_mark hb rfl
    · exact visited_mark hb rfl
  · intro i q hi hq
    rw [hq.eq_after]
    constructor
    · rintro ⟨p, c, rest, st, hv, hdrop, hp, hlt, hbinds⟩
      exact (after_of_round hv hdrop hp hlt).mpr ((binds_iff driver st).mp hbinds)
    · intro houtside
      obtain ⟨p, c, rest, st, hv, hdrop, hp, hlt⟩ := exists_round driver hi
      exact ⟨p, c, rest, st, hv, hdrop, hp, hlt,
        (binds_iff driver st).mpr ((after_of_round hv hdrop hp hlt).mp houtside)⟩

end McpgSql.Sql
