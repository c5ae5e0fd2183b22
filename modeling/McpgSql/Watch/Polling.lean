import Mathlib.Data.List.Count
import McpgSql.Cache.Freshness
import McpgSql.Protocol

/-!
# The polling watch

`poll_loop` runs its tracking query at every tick and compares the first column of the
first row with the one of the last successful poll; an error leaves everything as it
was. No value yet and an empty answer are the same `None`: a poll that finds a value
after an empty one sets the baseline in silence.

Over every run the events are the changes less these first values
(`emitted_add_appearances`), so they are as many as the changes iff no poll finds a
value right after one that found none (`detects_iff`). The loop of the cache's watcher
bumps its version as often (`bumps_eq_emitted`).
-/

namespace McpgSql.Watch

open Cache

/-- What a tracking query answers: the rows of its batch, or an error. -/
abbrev Outcome := Except SqlError (List Value)

/-- Between two ticks: the cursor to compare with, and what was emitted. -/
structure Polling where
  lastCursor : Option Value := none
  emitted : List WatchEvent := []
deriving DecidableEq

section

-- `==` of JSON values: doubles compare by their value, not by their bits.
variable (same : Value → Value → Bool)

/-- `==` of two cursors. -/
def sameCursor : Option Value → Option Value → Bool
  | none, none => true
  | some v, some w => same v w
  | _, _ => false

/-- One tick: only a change is emitted, not the first value. -/
def Polling.tick (s : Polling) : Outcome → Polling
  | .ok rows =>
    let cursor := firstScalar rows
    if sameCursor same cursor s.lastCursor then s
    else
      { lastCursor := cursor
        emitted := if s.lastCursor.isSome then s.emitted ++ [{}] else s.emitted }
  | .error _ => s

/-- `poll_loop`, until it is cancelled. -/
def pollLoop (outcomes : List Outcome) : Polling :=
  outcomes.foldl (Polling.tick same) {}

/-- The batches of the successful polls. -/
def successes (outcomes : List Outcome) : List (List Value) :=
  outcomes.filterMap Except.toOption

/-- What the successful polls found; a batch without rows is `none`. -/
def trackingValues (outcomes : List Outcome) : List (Option Value) :=
  (successes outcomes).map firstScalar

/-- The polls that found another value than the one before them. -/
def changes (values : List (Option Value)) : Nat :=
  (values.zip values.tail).countP fun (last, v) => !sameCursor same last v

/-- The polls that found a value after one that found none. -/
def appearances (values : List (Option Value)) : Nat :=
  (values.zip values.tail).countP fun (last, v) => last.isNone && v.isSome

/-- Every change is emitted, and the errors do nothing. -/
def Detects (outcomes : List Outcome) : Prop :=
  (pollLoop same outcomes).emitted.length = changes same (trackingValues outcomes) ∧
    pollLoop same outcomes = pollLoop same ((successes outcomes).map .ok)

end

variable {same : Value → Value → Bool}

theorem sameCursor_equivalence (h : Equivalence fun v w => same v w = true) :
    Equivalence fun a b => sameCursor same a b = true where
  refl
  | none => rfl
  | some v => h.refl v
  symm {a b} hab := by
    cases a <;> cases b
    case some.some v w => exact h.symm hab
    all_goals exact hab
  trans {a b c} hab hbc := by
    cases a <;> cases b <;> cases c
    case some.some.some => exact h.trans hab hbc
    all_goals first | exact hab | exact hbc | cases hab

/-- Errors leave no trace. -/
theorem foldl_tick_successes (s : Polling) (outcomes : List Outcome) :
    outcomes.foldl (Polling.tick same) s =
      ((successes outcomes).map .ok).foldl (Polling.tick same) s := by
  induction outcomes generalizing s with
  | nil => rfl
  | cons outcome outcomes ih =>
    cases outcome with
    | ok rows => exact ih _
    | error e => exact ih s

theorem isSome_of_sameCursor {a b : Option Value} (h : sameCursor same a b = true) :
    a.isSome = b.isSome := by
  cases a <;> cases b <;> first | rfl | cases h

section

variable (hsame : Equivalence fun v w => same v w = true)
include hsame

/-- One poll after one that found `v`, or before any of them `none`: the cursor stays
the last value, and an event is emitted where the value changed. -/
theorem tick_ok {s : Polling} {v : Option Value} (hv : sameCursor same s.lastCursor v = true)
    (rows : List Value) :
    sameCursor same (s.tick same (.ok rows)).lastCursor (firstScalar rows) = true ∧
      (s.tick same (.ok rows)).emitted.length = s.emitted.length +
        if v.isSome && !sameCursor same v (firstScalar rows) then 1 else 0 := by
  have heqv := sameCursor_equivalence hsame
  have hcmp : sameCursor same (firstScalar rows) s.lastCursor =
      sameCursor same v (firstScalar rows) := by
    rw [Bool.eq_iff_iff]
    exact ⟨fun h => heqv.symm (heqv.trans h hv), fun h => heqv.symm (heqv.trans hv h)⟩
  have hsome := isSome_of_sameCursor hv
  cases hw : sameCursor same v (firstScalar rows) with
  | true =>
    have ht : s.tick same (.ok rows) = s := if_pos (hcmp.trans hw)
    rw [ht]
    exact ⟨heqv.trans hv hw, by simp⟩
  | false =>
    have ht : s.tick same (.ok rows) =
        { lastCursor := firstScalar rows
          emitted := if s.lastCursor.isSome then s.emitted ++ [{}] else s.emitted } :=
      if_neg (by rw [hcmp, hw]; decide)
    rw [ht]
    refine ⟨heqv.refl _, ?_⟩
    rw [hsome]
    cases v <;> simp

/-- The events of the polls after one that found `v`. -/
theorem emitted_length (batches : List (List Value)) {s : Polling} {v : Option Value}
    (hv : sameCursor same s.lastCursor v = true) :
    ((batches.map .ok).foldl (Polling.tick same) s).emitted.length = s.emitted.length +
      ((v :: batches.map firstScalar).zip (batches.map firstScalar)).countP
        fun (last, w) => last.isSome && !sameCursor same last w := by
  induction batches generalizing s v with
  | nil => rfl
  | cons rows batches ih =>
    obtain ⟨hlast, hlen⟩ := tick_ok hsame hv rows
    rw [List.map_cons, List.foldl_cons, ih hlast, hlen, List.map_cons, List.zip_cons_cons,
      List.countP_cons, Nat.add_right_comm, Nat.add_assoc]

omit hsame in
/-- A change from a value, or to the first value after none. -/
theorem countP_changes (pairs : List (Option Value × Option Value)) :
    pairs.countP (fun (last, w) => last.isSome && !sameCursor same last w) +
      pairs.countP (fun (last, w) => last.isNone && w.isSome) =
      pairs.countP fun (last, w) => !sameCursor same last w := by
  induction pairs with
  | nil => rfl
  | cons pair pairs ih =>
    obtain ⟨last, w⟩ := pair
    have hpair : (if last.isSome && !sameCursor same last w then 1 else 0) +
        (if last.isNone && w.isSome then 1 else 0) =
        if !sameCursor same last w then 1 else 0 := by
      cases last <;> cases w <;> simp [sameCursor]
    rw [List.countP_cons, List.countP_cons, List.countP_cons, ← ih, Nat.add_add_add_comm, hpair]

/-- The events, and the values that came after none, are the changes. -/
theorem emitted_add_appearances (outcomes : List Outcome) :
    (pollLoop same outcomes).emitted.length + appearances (trackingValues outcomes) =
      changes same (trackingValues outcomes) := by
  rw [pollLoop, foldl_tick_successes, trackingValues, appearances, changes,
    emitted_length hsame (v := none) _ rfl]
  cases successes outcomes with
  | nil => rfl
  | cons rows batches =>
    -- the first success emits nothing, as after a poll that found none
    rw [← countP_changes]
    simp

/-- Every change is emitted iff no poll finds a value right after one that found none. -/
theorem detects_iff (outcomes : List Outcome) :
    Detects same outcomes ↔
      ∀ pair ∈ (trackingValues outcomes).zip (trackingValues outcomes).tail,
        pair.1 = none → pair.2 = none := by
  have hcount := emitted_add_appearances hsame outcomes
  have herrors : pollLoop same outcomes = pollLoop same ((successes outcomes).map .ok) :=
    foldl_tick_successes {} outcomes
  have hnone : appearances (trackingValues outcomes) = 0 ↔
      ∀ pair ∈ (trackingValues outcomes).zip (trackingValues outcomes).tail,
        pair.1 = none → pair.2 = none := by
    rw [appearances, List.countP_eq_zero]
    simp
  rw [← hnone, Detects, and_iff_left herrors]
  omega

end

/-- Two values with an error between them: the change is emitted. -/
theorem change_after_error_detected :
    Detects (fun v w => decide (v = w))
      [.ok [.num (.pos 1)], .error (.execute "gone"), .ok [.num (.pos 2)]] :=
  (detects_iff (by simpa using eq_equivalence) _).mpr (by decide)

/-- The first row of an empty table: the value changes, and nothing is emitted. -/
theorem first_row_not_detected :
    ¬ Detects (fun v w => decide (v = w)) [.ok [], .ok [.num (.pos 1)]] :=
  fun h => absurd h.1 (by decide)

/-- One poll of the cache's watcher is one tick. -/
theorem finish_eq_tick {i : Invalidator} {s : Polling}
    (h : i.lastCursor = s.lastCursor ∧ i.bumps = s.emitted.length) (began seen : Nat)
    (rows : List Value) :
    (i.finish began seen rows).lastCursor =
        (s.tick (fun v w => decide (v = w)) (.ok rows)).lastCursor ∧
      (i.finish began seen rows).bumps =
        (s.tick (fun v w => decide (v = w)) (.ok rows)).emitted.length := by
  obtain ⟨hlast, hbumps⟩ := h
  have hsame (a b : Option Value) : sameCursor (fun v w => decide (v = w)) a b = true ↔ a = b := by
    cases a <;> cases b <;> simp [sameCursor]
  simp only [Invalidator.finish, Polling.tick, hsame, hlast]
  by_cases hc : firstScalar rows = s.lastCursor
  · simp [hc, hbumps]
  · cases hl : s.lastCursor <;> simp_all [Invalidator.bump]

/-- The cache's watcher bumps its version as often as the polling watch emits. -/
theorem bumps_eq_emitted (polls : List (Nat × Nat × List Value)) :
    (polls.foldl (fun i (began, seen, rows) => i.finish began seen rows) ({} : Invalidator)).bumps =
      (pollLoop (fun v w => decide (v = w)) (polls.map fun poll => .ok poll.2.2)).emitted.length := by
  suffices ∀ {i : Invalidator} {s : Polling},
      i.lastCursor = s.lastCursor ∧ i.bumps = s.emitted.length →
      (polls.foldl (fun i (began, seen, rows) => i.finish began seen rows) i).bumps =
        ((polls.map fun poll => .ok poll.2.2).foldl
          (Polling.tick fun v w => decide (v = w)) s).emitted.length from this ⟨rfl, rfl⟩
  induction polls with
  | nil => exact fun h => h.2
  | cons poll polls ih => exact fun h => ih (finish_eq_tick h ..)

end McpgSql.Watch
