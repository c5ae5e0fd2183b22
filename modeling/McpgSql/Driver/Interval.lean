import Mathlib.Algebra.Group.Int.Defs
import McpgSql.Library.Iso8601

/-!
# Intervals

A PostgreSQL interval has months, days and microseconds, each with a sign of its own.
`pgIntervalToIso8601` writes it as a duration of ISO 8601, which has one sign for all: the
components of an interval of mixed signs lose theirs.

`pgIntervalToIso8601_reads_back`: the duration it writes, as a reader of ISO 8601 reads it.
-/

namespace McpgSql.Driver

open Library.Iso8601

/-- `PgInterval`. -/
structure Interval where
  months : Int32
  days : Int32
  microseconds : Int64
deriving DecidableEq

inductive Sign where
  | positive
  | negative
  | mixed
deriving DecidableEq, Repr

def classifySign (months days : Int32) (micros : Int64) : Sign :=
  let anyPos := 0 < months.toInt || 0 < days.toInt || 0 < micros.toInt
  let anyNeg := months.toInt < 0 || days.toInt < 0 || micros.toInt < 0
  match anyPos, anyNeg with
  | true, true => .mixed
  | false, true => .negative
  | _, false => .positive

/-- The fraction of a second: six digits, without the zeros at their end. -/
def formatFracMicros (frac : Nat) : String :=
  String.ofList (((Nat.toDigits 10 frac).leftpad 6 '0').rdropWhile (· = '0'))

def usPerSec : Nat := 1000000
def secPerMin : Nat := 60
def secPerHour : Nat := 3600

/-- A field and its designator, when it is not zero. -/
def writeField (out : String) (n : Nat) (designator : String) : String :=
  if n ≠ 0 then out ++ Nat.repr n ++ designator else out

/-- The seconds, when they or their fraction are not zero. -/
def writeSeconds (out : String) (seconds fracMicros : Nat) : String :=
  if seconds ≠ 0 ∨ fracMicros ≠ 0 then
    if fracMicros = 0 then out ++ Nat.repr seconds ++ "S"
    else out ++ Nat.repr seconds ++ "." ++ formatFracMicros fracMicros ++ "S"
  else out

/-- Render an interval as an ISO 8601 duration. -/
def pgIntervalToIso8601 (iv : Interval) : String :=
  if iv.months = 0 ∧ iv.days = 0 ∧ iv.microseconds = 0 then "PT0S"
  else
    let sign := classifySign iv.months iv.days iv.microseconds
    -- `unsigned_abs`: the absolute value of a minimum is in the unsigned type.
    let absMonths := iv.months.toInt.natAbs
    let absDays := iv.days.toInt.natAbs
    let absMicros := iv.microseconds.toInt.natAbs
    let years := absMonths / 12
    let remMonths := absMonths % 12
    let totalSecs := absMicros / usPerSec
    let fracMicros := absMicros % usPerSec
    let hours := totalSecs / secPerHour
    let remAfterHours := totalSecs % secPerHour
    let minutes := remAfterHours / secPerMin
    let seconds := remAfterHours % secPerMin
    let out := if sign = .negative then "-" else ""
    let out := out ++ "P"
    let out := writeField out years "Y"
    let out := writeField out remMonths "M"
    let out := writeField out absDays "D"
    if absMicros ≠ 0 then
      let out := out ++ "T"
      let out := writeField out hours "H"
      let out := writeField out minutes "M"
      writeSeconds out seconds fracMicros
    else out

example : pgIntervalToIso8601 ⟨14, 3, 14706000000⟩ = "P1Y2M3DT4H5M6S" := by decide

example : pgIntervalToIso8601 ⟨0, 0, -1⟩ = "-PT0.000001S" := by decide

/-! ## The text -/

variable {iv : Interval}

theorem toList_writeField {designator : String} {d : Char} (h : designator.toList = [d]) (out : String)
    (n : Nat) : (writeField out n designator).toList = out.toList ++ piece n d := by
  unfold writeField piece
  by_cases hn : n = 0
  · rw [if_neg (not_not.mpr hn), if_pos hn, List.append_nil]
  · rw [if_pos hn, if_neg hn, String.toList_append, String.toList_append, Nat.toList_repr, h,
      List.append_assoc]

theorem toList_writeSeconds (out : String) (seconds fracMicros : Nat) :
    (writeSeconds out seconds fracMicros).toList = out.toList ++ secondsPiece seconds fracMicros := by
  unfold writeSeconds secondsPiece
  split
  · split
    · simp only [String.toList_append, Nat.toList_repr, List.append_assoc, List.nil_append]
      rfl
    · simp only [String.toList_append, Nat.toList_repr, List.append_assoc, formatFracMicros,
        String.toList_ofList]
      rfl
  · rw [List.append_nil]

/-- The hours, minutes, seconds and microseconds of the time. -/
def timePieces (absMicros : Nat) : List Char :=
  piece (absMicros / usPerSec / secPerHour) 'H' ++
    (piece (absMicros / usPerSec % secPerHour / secPerMin) 'M' ++
      secondsPiece (absMicros / usPerSec % secPerHour % secPerMin) (absMicros % usPerSec))

/-- The years, months and days, before what follows them. -/
def datePieces (absMonths absDays : Nat) (rest : List Char) : List Char :=
  piece (absMonths / 12) 'Y' ++ (piece (absMonths % 12) 'M' ++ (piece absDays 'D' ++ rest))

/-- The duration of an interval that is not zero. -/
def durationPieces (absMonths absDays absMicros : Nat) : List Char :=
  datePieces absMonths absDays (if absMicros ≠ 0 then 'T' :: timePieces absMicros else [])

theorem toList_pgIntervalToIso8601 (h : ¬(iv.months = 0 ∧ iv.days = 0 ∧ iv.microseconds = 0)) :
    (pgIntervalToIso8601 iv).toList =
      (if classifySign iv.months iv.days iv.microseconds = .negative then ['-'] else []) ++ 'P' ::
        durationPieces iv.months.toInt.natAbs iv.days.toInt.natAbs iv.microseconds.toInt.natAbs := by
  have hsign : (if classifySign iv.months iv.days iv.microseconds = .negative then "-" else "").toList =
      if classifySign iv.months iv.days iv.microseconds = .negative then ['-'] else [] := by
    split <;> rfl
  unfold pgIntervalToIso8601 durationPieces datePieces
  rw [if_neg h]
  dsimp only
  split
  · rw [toList_writeSeconds, toList_writeField (d := 'M') rfl, toList_writeField (d := 'H') rfl,
      String.toList_append, toList_writeField (d := 'D') rfl, toList_writeField (d := 'M') rfl,
      toList_writeField (d := 'Y') rfl, String.toList_append, hsign]
    simp only [List.append_assoc, timePieces]
    rfl
  · rw [toList_writeField (d := 'D') rfl, toList_writeField (d := 'M') rfl,
      toList_writeField (d := 'Y') rfl, String.toList_append, hsign]
    simp only [List.append_assoc, List.append_nil]
    rfl

/-! ## The duration that it says -/

/-- The fields of a duration of these components. -/
def durationOf (negative : Bool) (absMonths absDays absMicros : Nat) : Duration where
  negative := negative
  years := shown (absMonths / 12)
  months := shown (absMonths % 12)
  days := shown absDays
  hours := shown (absMicros / usPerSec / secPerHour)
  minutes := shown (absMicros / usPerSec % secPerHour / secPerMin)
  micros := shown (1000000 * (absMicros / usPerSec % secPerHour % secPerMin) + absMicros % usPerSec)

/-- The date is read up to what cannot be a part of it. -/
theorem read_datePieces (absMonths absDays : Nat) {rest : List Char} (hY : Skips 'Y' rest) (hM : Skips 'M' rest)
    (hD : Skips 'D' rest) :
    readField 'Y' (datePieces absMonths absDays rest) = (shown (absMonths / 12),
      piece (absMonths % 12) 'M' ++ (piece absDays 'D' ++ rest)) ∧
    readField 'M' (piece (absMonths % 12) 'M' ++ (piece absDays 'D' ++ rest)) =
      (shown (absMonths % 12), piece absDays 'D' ++ rest) ∧
    readField 'D' (piece absDays 'D' ++ rest) = (shown absDays, rest) := by
  refine ⟨readField_piece rfl ?_, readField_piece rfl ?_, readField_piece rfl hD⟩
  · exact skips_piece rfl (by decide) (skips_piece rfl (by decide) hY)
  · exact skips_piece rfl (by decide) hM

theorem read_timePieces (absMicros : Nat) :
    readField 'H' (timePieces absMicros) = (shown (absMicros / usPerSec / secPerHour),
      piece (absMicros / usPerSec % secPerHour / secPerMin) 'M' ++
        secondsPiece (absMicros / usPerSec % secPerHour % secPerMin) (absMicros % usPerSec)) ∧
    readField 'M' (piece (absMicros / usPerSec % secPerHour / secPerMin) 'M' ++
        secondsPiece (absMicros / usPerSec % secPerHour % secPerMin) (absMicros % usPerSec)) =
      (shown (absMicros / usPerSec % secPerHour / secPerMin),
        secondsPiece (absMicros / usPerSec % secPerHour % secPerMin) (absMicros % usPerSec)) := by
  refine ⟨readField_piece rfl ?_, readField_piece rfl ?_⟩
  · exact skips_piece rfl (by decide) (skips_secondsPiece (by decide) (by decide))
  · exact skips_secondsPiece (by decide) (by decide)

theorem readDuration_pieces (negative : Bool) {absMonths absDays absMicros : Nat}
    (h : ¬(absMonths = 0 ∧ absDays = 0 ∧ absMicros = 0)) :
    readDuration negative (durationPieces absMonths absDays absMicros) =
      some (durationOf negative absMonths absDays absMicros) := by
  unfold durationPieces readDuration
  by_cases hmicros : absMicros = 0
  · obtain ⟨hY, hM, hD⟩ := read_datePieces absMonths absDays (skips_nil : Skips 'Y' []) skips_nil skips_nil
    rw [if_neg (not_not.mpr hmicros)]
    simp only [hY, hM, hD]
    rw [if_pos (by simp only [shown_isSome]; omega)]
    subst hmicros
    rfl
  · have hT : 'T'.isDigit = false := rfl
    have hskips : ∀ letter, Skips letter ('T' :: timePieces absMicros) := fun _ => skips_of_not_digit hT
    obtain ⟨hY, hM, hD⟩ := read_datePieces absMonths absDays (hskips 'Y') (hskips 'M') (hskips 'D')
    obtain ⟨hH, hmin⟩ := read_timePieces absMicros
    have hsec := readSeconds_piece (absMicros / usPerSec % secPerHour % secPerMin)
      (show absMicros % usPerSec < 1000000 from Nat.mod_lt _ (by decide))
    rw [if_pos hmicros]
    simp only [hY, hM, hD, hH, hmin, hsec]
    have htime : absMicros / usPerSec / secPerHour ≠ 0 ∨
        absMicros / usPerSec % secPerHour / secPerMin ≠ 0 ∨
        1000000 * (absMicros / usPerSec % secPerHour % secPerMin) + absMicros % usPerSec ≠ 0 := by
      simp only [usPerSec, secPerHour, secPerMin]
      omega
    simp only [← shown_isSome] at htime
    exact if_pos ⟨trivial, htime⟩

/-- Nothing is lost in the fields. -/
theorem durationOf_totals (negative : Bool) (absMonths absDays absMicros : Nat) :
    (durationOf negative absMonths absDays absMicros).totalMonths =
      (if negative then -1 else 1) * (absMonths : Int) ∧
    (durationOf negative absMonths absDays absMicros).totalDays =
      (if negative then -1 else 1) * (absDays : Int) ∧
    (durationOf negative absMonths absDays absMicros).totalMicros =
      (if negative then -1 else 1) * (absMicros : Int) := by
  have hmonths : 12 * (absMonths / 12) + absMonths % 12 = absMonths := Nat.div_add_mod _ _
  have hmicros : 3600000000 * (absMicros / 1000000 / 3600) + 60000000 * (absMicros / 1000000 % 3600 / 60) +
      (1000000 * (absMicros / 1000000 % 3600 % 60) + absMicros % 1000000) = absMicros := by omega
  unfold Duration.totalMonths Duration.totalDays Duration.totalMicros Duration.sign durationOf
  simp only [shown_getD, usPerSec, secPerHour, secPerMin, hmonths, hmicros, and_self]

/-! ## Reading it back -/

/-- The components that are not zero have one sign. -/
def OneSigned (iv : Interval) : Prop :=
  (0 ≤ iv.months.toInt ∧ 0 ≤ iv.days.toInt ∧ 0 ≤ iv.microseconds.toInt) ∨
    (iv.months.toInt ≤ 0 ∧ iv.days.toInt ≤ 0 ∧ iv.microseconds.toInt ≤ 0)

theorem classifySign_negative_iff : classifySign iv.months iv.days iv.microseconds = .negative ↔
    (iv.months.toInt ≤ 0 ∧ iv.days.toInt ≤ 0 ∧ iv.microseconds.toInt ≤ 0) ∧
      (iv.months.toInt < 0 ∨ iv.days.toInt < 0 ∨ iv.microseconds.toInt < 0) := by
  unfold classifySign
  dsimp only
  split <;> simp_all <;> omega

theorem isZero_iff : (iv.months = 0 ∧ iv.days = 0 ∧ iv.microseconds = 0) ↔
    (iv.months.toInt.natAbs = 0 ∧ iv.days.toInt.natAbs = 0 ∧ iv.microseconds.toInt.natAbs = 0) := by
  simp only [Int.natAbs_eq_zero, ← Int32.toInt_inj, ← Int64.toInt_inj, Int32.toInt_zero, Int64.toInt_zero]

/-- What the text of an interval that is not zero says. -/
theorem parseDuration_pgIntervalToIso8601
    (h : ¬(iv.months = 0 ∧ iv.days = 0 ∧ iv.microseconds = 0)) :
    parseDuration (pgIntervalToIso8601 iv) =
      some (durationOf (classifySign iv.months iv.days iv.microseconds = .negative)
        iv.months.toInt.natAbs iv.days.toInt.natAbs iv.microseconds.toInt.natAbs) := by
  have hread := fun negative => readDuration_pieces negative (isZero_iff.not.mp h)
  rw [parseDuration, toList_pgIntervalToIso8601 h]
  by_cases hsign : classifySign iv.months iv.days iv.microseconds = .negative
  · rw [if_pos hsign]
    simp only [hsign, decide_true, List.cons_append, List.nil_append, hread]
  · rw [if_neg hsign]
    simp only [hsign, decide_false, List.nil_append, hread]

/-- The three components of an interval or of a duration. -/
def components (iv : Interval) : Int × Int × Int :=
  (iv.months.toInt, iv.days.toInt, iv.microseconds.toInt)

def durationComponents (d : Duration) : Int × Int × Int := (d.totalMonths, d.totalDays, d.totalMicros)

/-- The sign of the text and the absolute values give the components of an interval of one
sign. -/
theorem signed_components (h : OneSigned iv) :
    let sign : Int := if classifySign iv.months iv.days iv.microseconds = .negative then -1 else 1
    sign * iv.months.toInt.natAbs = iv.months.toInt ∧ sign * iv.days.toInt.natAbs = iv.days.toInt ∧
      sign * iv.microseconds.toInt.natAbs = iv.microseconds.toInt := by
  intro sign
  unfold OneSigned at h
  by_cases hsign : classifySign iv.months iv.days iv.microseconds = .negative
  · have hneg := (classifySign_negative_iff.mp hsign).1
    have : sign = -1 := if_pos hsign
    rw [this]
    omega
  · have : sign = 1 := if_neg hsign
    rw [this]
    rw [classifySign_negative_iff] at hsign
    omega

/-- The text of every interval is a duration. That of an interval of one sign says its
components, that of another their absolute values. -/
theorem parse_components (iv : Interval) : ∃ d, parseDuration (pgIntervalToIso8601 iv) = some d ∧
    0 < d.designators ∧ (OneSigned iv → durationComponents d = components iv) ∧
    (¬OneSigned iv → durationComponents d =
      (↑iv.months.toInt.natAbs, ↑iv.days.toInt.natAbs, ↑iv.microseconds.toInt.natAbs)) := by
  by_cases hzero : iv.months = 0 ∧ iv.days = 0 ∧ iv.microseconds = 0
  · obtain ⟨months, days, microseconds⟩ := iv
    obtain ⟨rfl, rfl, rfl⟩ := hzero
    refine ⟨_, rfl, by decide, fun _ => by decide, fun _ => by decide⟩
  · have hparse := parseDuration_pgIntervalToIso8601 hzero
    obtain ⟨hmonths, hdays, hmicros⟩ := durationOf_totals
      (classifySign iv.months iv.days iv.microseconds = .negative)
      iv.months.toInt.natAbs iv.days.toInt.natAbs iv.microseconds.toInt.natAbs
    refine ⟨_, hparse, ?_, fun hone => ?_, fun hmixed => ?_⟩
    · exact designators_of_readDuration (readDuration_pieces _ (isZero_iff.not.mp hzero))
    · obtain ⟨h1, h2, h3⟩ := signed_components hone
      simp only [durationComponents, components, hmonths, hdays, hmicros, decide_eq_true_eq, h1, h2, h3]
    · have hsign : ¬classifySign iv.months iv.days iv.microseconds = .negative := fun hneg =>
        hmixed (.inr (classifySign_negative_iff.mp hneg).1)
      rw [durationComponents, hmonths, hdays, hmicros, if_neg (by simpa using hsign), Int.one_mul,
        Int.one_mul, Int.one_mul]

/-- What an interval's text says. It is always a duration with a designator; for intervals
of one sign nothing is lost, and the others lose their signs and no more. -/
theorem pgIntervalToIso8601_reads_back :
    (∀ iv, ∃ d, parseDuration (pgIntervalToIso8601 iv) = some d ∧ 0 < d.designators ∧
      (OneSigned iv → durationComponents d = components iv) ∧
      (¬OneSigned iv → durationComponents d =
        (↑iv.months.toInt.natAbs, ↑iv.days.toInt.natAbs, ↑iv.microseconds.toInt.natAbs))) ∧
    ∀ iv iv', OneSigned iv → OneSigned iv' → pgIntervalToIso8601 iv = pgIntervalToIso8601 iv' →
      iv = iv' := by
  refine ⟨parse_components, fun iv iv' hone hone' htext => ?_⟩
  obtain ⟨d, hd, -, hcomponents, -⟩ := parse_components iv
  obtain ⟨d', hd', -, hcomponents', -⟩ := parse_components iv'
  rw [htext, hd'] at hd
  obtain rfl := Option.some.inj hd
  have heq := (hcomponents hone).symm.trans (hcomponents' hone')
  simp only [components, Prod.mk.injEq, Int32.toInt_inj, Int64.toInt_inj] at heq
  obtain ⟨months, days, microseconds⟩ := iv
  obtain ⟨rfl, rfl, rfl⟩ := heq
  rfl

/-- The theorem at the least interval and at one of mixed signs. -/
theorem leastInterval_reads_back :
    (∃ d, parseDuration (pgIntervalToIso8601 ⟨Int32.minValue, Int32.minValue, Int64.minValue⟩) = some d ∧
      durationComponents d = (-2 ^ 31, -2 ^ 31, -2 ^ 63)) ∧
    ∃ d, parseDuration (pgIntervalToIso8601 ⟨1, -3, 0⟩) = some d ∧ durationComponents d = (1, 3, 0) := by
  obtain ⟨d, hd, -, hone, -⟩ :=
    pgIntervalToIso8601_reads_back.1 ⟨Int32.minValue, Int32.minValue, Int64.minValue⟩
  obtain ⟨d', hd', -, -, hmixed⟩ := pgIntervalToIso8601_reads_back.1 ⟨1, -3, 0⟩
  refine ⟨⟨d, hd, hone ?_⟩, d', hd', hmixed ?_⟩
  · exact .inr (by decide)
  · unfold OneSigned
    decide

end McpgSql.Driver
