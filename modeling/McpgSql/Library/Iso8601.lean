import Mathlib.Data.List.DropRight
import Mathlib.Data.List.TakeWhile

/-!
# Durations of ISO 8601

A duration is an optional sign, a `P`, years, months and days, and after a `T` hours,
minutes and seconds; each is a number with its designator and may be left out, but not all
of them, and not all after a `T`. The seconds may have a fraction, here of microseconds.

* `parseDuration`: the duration a text says;
* `readField_piece`, `readField_skips`: a field that stands there is read, and one that
  does not is left out.
-/

namespace McpgSql.Library.Iso8601

/-- The fields of a duration; the seconds in microseconds. -/
structure Duration where
  negative : Bool
  years : Option Nat
  months : Option Nat
  days : Option Nat
  hours : Option Nat
  minutes : Option Nat
  micros : Option Nat
deriving DecidableEq, Repr

/-- How many designators the duration has. -/
def Duration.designators (d : Duration) : Nat :=
  [d.years, d.months, d.days, d.hours, d.minutes, d.micros].countP Option.isSome

def Duration.sign (d : Duration) : Int := if d.negative then -1 else 1

def Duration.totalMonths (d : Duration) : Int := d.sign * (12 * d.years.getD 0 + d.months.getD 0 : Nat)

def Duration.totalDays (d : Duration) : Int := d.sign * (d.days.getD 0 : Nat)

def Duration.totalMicros (d : Duration) : Int :=
  d.sign * (3600000000 * d.hours.getD 0 + 60000000 * d.minutes.getD 0 + d.micros.getD 0 : Nat)

/-! ## Parsing -/

def digitsValue (ds : List Char) : Nat := Nat.ofDigitChars 10 ds 0

/-- A number before the designator `d`, when one stands there. -/
def readField (d : Char) (cs : List Char) : Option Nat × List Char :=
  let number := cs.takeWhile Char.isDigit
  match cs.dropWhile Char.isDigit with
  | c :: rest => if c = d ∧ number ≠ [] then (some (digitsValue number), rest) else (none, cs)
  | [] => (none, cs)

/-- A fraction of a second, of at most six digits, in microseconds. -/
def fractionValue (ds : List Char) : Nat := digitsValue (ds ++ List.replicate (6 - ds.length) '0')

/-- The seconds, in microseconds, when they stand there. -/
def readSeconds (cs : List Char) : Option Nat × List Char :=
  let number := cs.takeWhile Char.isDigit
  match cs.dropWhile Char.isDigit with
  | [] => (none, cs)
  | c :: rest =>
    if c = '.' then
      let fraction := rest.takeWhile Char.isDigit
      match readField 'S' rest with
      | (some _, after) =>
        if number ≠ [] ∧ fraction.length ≤ 6 then
          (some (1000000 * digitsValue number + fractionValue fraction), after)
        else (none, cs)
      | (none, _) => (none, cs)
    else
      let (seconds, after) := readField 'S' cs
      (seconds.map (1000000 * ·), after)

/-- The duration after its `P`. -/
def readDuration (negative : Bool) (cs : List Char) : Option Duration :=
  let (years, cs) := readField 'Y' cs
  let (months, cs) := readField 'M' cs
  let (days, cs) := readField 'D' cs
  match cs with
  | [] =>
    if years.isSome ∨ months.isSome ∨ days.isSome then
      some { negative, years, months, days, hours := none, minutes := none, micros := none }
    else none
  | 'T' :: cs =>
    let (hours, cs) := readField 'H' cs
    let (minutes, cs) := readField 'M' cs
    let (micros, cs) := readSeconds cs
    if cs = [] ∧ (hours.isSome ∨ minutes.isSome ∨ micros.isSome) then
      some { negative, years, months, days, hours, minutes, micros }
    else none
  | _ :: _ => none

def parseDuration (text : String) : Option Duration :=
  match text.toList with
  | '-' :: 'P' :: cs => readDuration true cs
  | 'P' :: cs => readDuration false cs
  | _ => none

/-- A duration that parses has a designator. -/
theorem designators_of_readDuration {negative : Bool} {cs : List Char} {d : Duration}
    (h : readDuration negative cs = some d) : 0 < d.designators := by
  have hpos : ∀ {d : Duration}, d.years.isSome ∨ d.months.isSome ∨ d.days.isSome ∨ d.hours.isSome ∨
      d.minutes.isSome ∨ d.micros.isSome → 0 < d.designators := by
    intro d hsome
    rw [Duration.designators, List.countP_pos_iff]
    rcases hsome with h | h | h | h | h | h <;> exact ⟨_, by simp, h⟩
  unfold readDuration at h
  dsimp only at h
  split at h
  · split at h
    · rename_i hsome
      obtain rfl := Option.some.inj h
      exact hpos (by tauto)
    · cases h
  · split at h
    · rename_i hsome
      obtain rfl := Option.some.inj h
      exact hpos (by tauto)
    · cases h
  · cases h

/-! ## Reading what was written -/

/-- A field that is not zero, with its designator. -/
def piece (n : Nat) (d : Char) : List Char := if n = 0 then [] else Nat.toDigits 10 n ++ [d]

/-- What comes back of a field. -/
def shown (n : Nat) : Option Nat := if n = 0 then none else some n

theorem shown_getD (n : Nat) : (shown n).getD 0 = n := by
  unfold shown
  split
  · rename_i h
    exact h.symm
  · rfl

theorem shown_isSome (n : Nat) : (shown n).isSome ↔ n ≠ 0 := by
  unfold shown
  split <;> simp_all

variable {n : Nat} {d d' : Char} {cs rest : List Char}

theorem takeWhile_number {ds : List Char} (hds : ∀ c ∈ ds, c.isDigit = true) (hd : d.isDigit = false) :
    (ds ++ d :: rest).takeWhile Char.isDigit = ds := by
  rw [List.takeWhile_append_of_pos hds, List.takeWhile_cons_of_neg (by simp [hd]), List.append_nil]

theorem dropWhile_number {ds : List Char} (hds : ∀ c ∈ ds, c.isDigit = true) (hd : d.isDigit = false) :
    (ds ++ d :: rest).dropWhile Char.isDigit = d :: rest := by
  rw [List.dropWhile_append_of_pos hds, List.dropWhile_cons_of_neg (by simp [hd])]

/-- A number is read up to its designator. -/
theorem readField_number {ds : List Char} (hds : ∀ c ∈ ds, c.isDigit = true) (hne : ds ≠ [])
    (hd : d.isDigit = false) : readField d (ds ++ d :: rest) = (some (digitsValue ds), rest) := by
  unfold readField
  rw [takeWhile_number hds hd, dropWhile_number hds hd]
  exact if_pos ⟨rfl, hne⟩

theorem isDigit_of_mem_toDigits {c : Char} (h : c ∈ Nat.toDigits 10 n) : c.isDigit = true :=
  Nat.isDigit_of_mem_toDigits (by decide) (by decide) h

theorem digitsValue_toDigits (n : Nat) : digitsValue (Nat.toDigits 10 n) = n :=
  Nat.ofDigitChars_ten_toDigits

/-- No field of designator `d` stands at `cs`. -/
def Skips (d : Char) (cs : List Char) : Prop := readField d cs = (none, cs)

theorem skips_nil : Skips d [] := rfl

/-- A number of another designator is left. -/
theorem skips_number (hd' : d'.isDigit = false) (hne : d' ≠ d) :
    Skips d (Nat.toDigits 10 n ++ d' :: rest) := by
  unfold Skips readField
  rw [dropWhile_number (fun _ => isDigit_of_mem_toDigits) hd']
  exact if_neg fun h => hne h.1

theorem skips_of_not_digit (h : d'.isDigit = false) : Skips d (d' :: rest) := by
  unfold Skips readField
  rw [List.dropWhile_cons_of_neg (by simp [h]), List.takeWhile_cons_of_neg (by simp [h])]
  exact if_neg fun hread => hread.2 rfl

theorem skips_piece (hd' : d'.isDigit = false) (hne : d' ≠ d) (h : Skips d rest) :
    Skips d (piece n d' ++ rest) := by
  unfold piece
  split
  · exact h
  · rw [List.append_assoc]
    exact skips_number hd' hne

theorem readField_piece (hd : d.isDigit = false) (h : Skips d rest) :
    readField d (piece n d ++ rest) = (shown n, rest) := by
  unfold piece shown
  split
  · exact h
  · rw [List.append_assoc, List.singleton_append,
      readField_number (fun _ => isDigit_of_mem_toDigits) Nat.toDigits_ne_nil hd, digitsValue_toDigits]

/-! ## Fractions -/

/-- The digits after the point, without the zeros at their end. -/
def fractionDigits (micros : Nat) : List Char :=
  ((Nat.toDigits 10 micros).leftpad 6 '0').rdropWhile (· = '0')

/-- The seconds and their fraction. -/
def secondsPiece (seconds micros : Nat) : List Char :=
  if seconds ≠ 0 ∨ micros ≠ 0 then
    Nat.toDigits 10 seconds ++ ((if micros = 0 then [] else '.' :: fractionDigits micros) ++ ['S'])
  else []

theorem isDigit_of_mem_leftpad {c : Char} (h : c ∈ (Nat.toDigits 10 n).leftpad 6 '0') :
    c.isDigit = true := by
  rw [List.leftpad, List.mem_append] at h
  rcases h with h | h
  · rw [List.eq_of_mem_replicate h]
    rfl
  · exact isDigit_of_mem_toDigits h

theorem isDigit_of_mem_fractionDigits {c : Char} (h : c ∈ fractionDigits n) : c.isDigit = true :=
  isDigit_of_mem_leftpad ((List.rdropWhile_prefix _ _).subset h)

/-- Zeros at the end of six digits are not lost. -/
theorem rdropWhile_append_replicate {l : List Char} (h : l.length = 6) :
    l.rdropWhile (· = '0') ++ List.replicate (6 - (l.rdropWhile (· = '0')).length) '0' = l := by
  have hsplit : l.rdropWhile (· = '0') ++ l.rtakeWhile (· = '0') = l :=
    List.rdropWhile_append_rtakeWhile
  have hzeros : l.rtakeWhile (· = '0') = List.replicate (l.rtakeWhile (· = '0')).length '0' :=
    List.eq_replicate_of_mem fun c hc => by simpa using List.mem_rtakeWhile_imp hc
  have hlen := congrArg List.length hsplit
  rw [List.length_append, h] at hlen
  have hcount : 6 - (l.rdropWhile (· = '0')).length = (l.rtakeWhile (· = '0')).length := by omega
  rw [hcount, ← hzeros, hsplit]

theorem length_leftpad_toDigits (h : n < 1000000) : ((Nat.toDigits 10 n).leftpad 6 '0').length = 6 := by
  have hlen := (Nat.length_toDigits_le_iff (b := 10) (k := 6) (by decide) (by decide)).mpr h
  rw [List.length_leftpad]
  omega

theorem fractionValue_fractionDigits (h : n < 1000000) : fractionValue (fractionDigits n) = n := by
  unfold fractionValue fractionDigits
  rw [rdropWhile_append_replicate (length_leftpad_toDigits h), digitsValue, List.leftpad,
    Nat.ofDigitChars_append, Nat.ofDigitChars_replicate_zero, Nat.mul_zero,
    Nat.ofDigitChars_ten_toDigits]

theorem length_fractionDigits (h : n < 1000000) : (fractionDigits n).length ≤ 6 :=
  length_leftpad_toDigits h ▸ (List.rdropWhile_prefix _ _).length_le

theorem fractionDigits_ne_nil (h : n < 1000000) (hn : n ≠ 0) : fractionDigits n ≠ [] := by
  intro hnil
  refine hn ?_
  rw [← fractionValue_fractionDigits h, hnil]
  rfl

/-- No field of another designator stands at the seconds. -/
theorem skips_secondsPiece {seconds micros : Nat} (hS : d ≠ 'S') (hpoint : d ≠ '.') :
    Skips d (secondsPiece seconds micros) := by
  unfold secondsPiece
  split
  · split
    · exact skips_number rfl hS.symm
    · exact skips_number rfl hpoint.symm
  · exact skips_nil

theorem readSeconds_piece (seconds : Nat) {micros : Nat} (h : micros < 1000000) :
    readSeconds (secondsPiece seconds micros) = (shown (1000000 * seconds + micros), []) := by
  unfold secondsPiece
  split
  · rename_i hsome
    have hshown : shown (1000000 * seconds + micros) = some (1000000 * seconds + micros) :=
      if_neg (by omega)
    rw [hshown]
    have hwhole : ∀ c ∈ Nat.toDigits 10 seconds, c.isDigit = true := fun _ => isDigit_of_mem_toDigits
    unfold readSeconds
    split
    · rename_i hzero
      rw [List.nil_append, dropWhile_number hwhole rfl, hzero]
      show (Option.map (1000000 * ·) (readField 'S' _).1, (readField 'S' _).2) = _
      rw [readField_number hwhole Nat.toDigits_ne_nil rfl, digitsValue_toDigits]
      rfl
    · rename_i hmicros
      have hfraction : ∀ c ∈ fractionDigits micros, c.isDigit = true := fun _ =>
        isDigit_of_mem_fractionDigits
      rw [List.cons_append, dropWhile_number hwhole rfl, takeWhile_number hwhole rfl]
      show (match readField 'S' (fractionDigits micros ++ ['S']) with
        | (some _, after) => _
        | (none, _) => _) = _
      rw [readField_number hfraction (fractionDigits_ne_nil h hmicros) rfl, takeWhile_number hfraction rfl,
        digitsValue_toDigits, fractionValue_fractionDigits h]
      exact if_pos ⟨Nat.toDigits_ne_nil, length_fractionDigits h⟩
  · rename_i hnone
    have hzero : 1000000 * seconds + micros = 0 := by omega
    rw [hzero]
    rfl

end McpgSql.Library.Iso8601
