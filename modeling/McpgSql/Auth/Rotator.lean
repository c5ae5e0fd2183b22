import Mathlib.Algebra.Group.Nat.Defs
import Mathlib.Data.List.Basic
import McpgSql.Library.Machine

/-!
# Rotating the token of a pool

A pool with cloud authentication opens its connections with a token that a task
replaces at an interval derived from the token's lifetime; the lifetime of a
connection is capped by the same value. The two add up: a connection that is
opened just before the token is replaced has an old token and a whole lifetime
before it.

* `window`: until the next token is applied, an interval and the delays may pass;
* `outlives_iff_sum`: no connection outlives its token exactly where that window and
  the lifetime fit into the token's lifetime;
* `no_connection_outlives_iff`: the same in terms of what is configured.

A time is a number of nanoseconds.
-/

namespace McpgSql.Auth

open Library

def second : Nat := 1000000000

def millisecond : Nat := 1000000

/-- `Duration::MAX`. -/
def durationMax : Nat := 2 ^ 64 * second - 1

/-! ## What is configured -/

structure RotatorConfig where
  /-- How long before the end of a token's lifetime it is replaced. -/
  safetyMargin : Nat := 60 * second
  minInterval : Nat := 5 * second

/-- The interval between two tokens of this lifetime; `none` when it does not end. -/
def RotatorConfig.intervalFor (cfg : RotatorConfig) (ttl : Nat) : Option Nat :=
  if ttl = durationMax then none
  else
    let target := ttl - cfg.safetyMargin
    some (max target cfg.minInterval)

/-- The cap on the lifetime of the pool's connections. -/
def RotatorConfig.poolMaxLifetimeFor (cfg : RotatorConfig) (ttl : Nat) : Option Nat :=
  if ttl = durationMax then none else some (max (ttl - cfg.safetyMargin) cfg.minInterval)

/-- The lifetime that `connect` sets for the pool, from the configured milliseconds and the
lifetime of the tokens; `none` when connections are not recycled. -/
def maxLifetime (cfg : RotatorConfig) (maxLifetimeMs ttl : Nat) : Option Nat :=
  let maxLifetimeMs := match cfg.poolMaxLifetimeFor ttl with
    | some cap =>
      -- `as_millis() as u64` wraps.
      let capMs := cap / millisecond % 2 ^ 64
      if maxLifetimeMs = 0 || capMs < maxLifetimeMs then capMs else maxLifetimeMs
    | none => maxLifetimeMs
  if maxLifetimeMs = 0 then none else some (maxLifetimeMs * millisecond)

/-! ## Runs -/

/-- Where the task stands: asleep since a time, or with a token fetched at a time and not
applied. -/
inductive Phase where
  | sleeping (since : Nat)
  | fetched (time : Nat)
deriving DecidableEq, Repr

/-- When a connection was opened, and when the token it was opened with was fetched. -/
structure Connection where
  opened : Nat
  fetched : Nat
deriving DecidableEq, Repr

/-- The task and the pool; `applied` is when the token was fetched that the pool opens
connections with. -/
structure Rotation where
  now : Nat
  applied : Nat
  phase : Phase
  connections : List Connection := []

inductive Action where
  /-- Time passes. -/
  | pass (d : Nat)
  /-- The tick: a token is fetched, or it is not. -/
  | fetch (ok : Bool)
  /-- The fetched token is applied, or it is not; the task sleeps again. -/
  | apply (ok : Bool)
  /-- The pool opens a connection. -/
  | connect
deriving DecidableEq, Repr

/-- A step of a task with this interval. -/
def Rotation.next (interval : Nat) (s : Rotation) : Action → Option Rotation
  | .pass d => some { s with now := s.now + d }
  | .fetch ok => match s.phase with
    | .sleeping since =>
      if since + interval ≤ s.now then
        some { s with phase := if ok then .fetched s.now else .sleeping s.now }
      else none
    | .fetched _ => none
  | .apply ok => match s.phase with
    | .fetched time =>
      some { s with applied := if ok then time else s.applied, phase := .sleeping s.now }
    | .sleeping _ => none
  | .connect => some { s with connections := ⟨s.now, s.applied⟩ :: s.connections }

/-- `connect` has fetched a token and the pool has it; the task is not spawned. -/
def Rotation.Started (s : Rotation) : Prop :=
  s.applied = s.now ∧ s.phase = .fetched s.now ∧ s.connections = []

/-- The pool of `connect` and the task that it spawns. -/
def rotation (interval : Nat) : Machine Rotation Action where
  init := Rotation.Started
  step s a s' := s.next interval a = some s'

/-- Every fetch succeeds, at most `late` after it is due, and every token is applied at most
`late` after it was fetched. -/
def Punctual (interval late : Nat) (s : Rotation) : Action → Prop
  | .pass d => match s.phase with
    | .sleeping since => s.now + d ≤ since + interval + late
    | .fetched time => s.now + d ≤ time + late
  | .fetch ok | .apply ok => ok = true
  | .connect => True

/-- The connection is recycled before its token ends. -/
def Connection.RecycledBy (lifetime : Option Nat) (ttl : Nat) (c : Connection) : Prop :=
  ∃ l, lifetime = some l ∧ c.opened + l ≤ c.fetched + ttl

/-! ## The window of a token -/

/-- How far a phase is behind the token that the pool has. -/
def Phase.Near (interval late : Nat) (s : Rotation) : Phase → Prop
  | .sleeping since => since ≤ s.applied + late ∧ s.now ≤ since + interval + late
  | .fetched time => time ≤ s.applied + interval + 2 * late ∧ s.now ≤ time + late

structure Window (interval late : Nat) (s : Rotation) : Prop where
  phase : s.phase.Near interval late s
  connections : ∀ c ∈ s.connections, c.opened ≤ c.fetched + (interval + 3 * late)

variable {interval late : Nat} {s s' : Rotation}

/-- A token is in use for an interval and the delays at most. -/
theorem Window.now_le (h : Window interval late s) :
    s.now ≤ s.applied + (interval + 3 * late) := by
  have hphase := h.phase
  cases hs : s.phase with
  | sleeping since =>
    simp only [hs, Phase.Near] at hphase
    omega
  | fetched time =>
    simp only [hs, Phase.Near] at hphase
    omega

theorem window_started (h : s.Started) : Window interval late s := by
  obtain ⟨happlied, hphase, hconns⟩ := h
  constructor
  · rw [hphase]
    simp only [Phase.Near]
    omega
  · simp [hconns]

theorem window_step {a : Action} (hok : Punctual interval late s a)
    (hstep : s.next interval a = some s') (h : Window interval late s) :
    Window interval late s' := by
  have hphase := h.phase
  cases a with
  | pass d =>
    cases hstep
    refine ⟨?_, h.connections⟩
    cases hs : s.phase with
    | sleeping since =>
      simp only [Punctual, hs, Phase.Near] at hok hphase ⊢
      omega
    | fetched time =>
      simp only [Punctual, hs, Phase.Near] at hok hphase ⊢
      omega
  | fetch ok =>
    obtain rfl : ok = true := hok
    cases hs : s.phase with
    | sleeping since =>
      simp only [Rotation.next, hs] at hstep
      split at hstep
      · cases hstep
        refine ⟨?_, h.connections⟩
        simp only [hs, Phase.Near, if_true] at hphase ⊢
        omega
      · cases hstep
    | fetched time => simp [Rotation.next, hs] at hstep
  | apply ok =>
    obtain rfl : ok = true := hok
    cases hs : s.phase with
    | sleeping since => simp [Rotation.next, hs] at hstep
    | fetched time =>
      simp only [Rotation.next, hs, if_true, Option.some.injEq] at hstep
      subst hstep
      refine ⟨?_, h.connections⟩
      simp only [hs, Phase.Near] at hphase ⊢
      omega
  | connect =>
    cases hstep
    refine ⟨hphase, ?_⟩
    rw [List.forall_mem_cons]
    exact ⟨h.now_le, h.connections⟩

/-- In every punctual run, a connection is opened within the window of its token. -/
theorem window (h : (rotation interval).Reach (Punctual interval late) s) :
    Window interval late s :=
  h.invariant window_started window_step

/-- Every delay is used up, and a connection opened right before the second token is applied. -/
def latest (interval late : Nat) : List Action :=
  [.pass late, .apply true, .pass (interval + late), .fetch true, .pass late, .connect]

theorem window_reached (interval late : Nat) :
    ∃ s, (rotation interval).Reach (Punctual interval late) s ∧
      ⟨interval + 3 * late, 0⟩ ∈ s.connections := by
  have hstart : (rotation interval).Reach (Punctual interval late) ⟨0, 0, .fetched 0, []⟩ :=
    .init ⟨rfl, rfl, rfl⟩
  have hend : late + (interval + late) + late = interval + 3 * late := by omega
  have hrun : Machine.run (Rotation.next interval) ⟨0, 0, .fetched 0, []⟩ (latest interval late) =
      some ⟨interval + 3 * late, 0, .fetched (late + (interval + late)),
        [⟨interval + 3 * late, 0⟩]⟩ := by
    simp [latest, Machine.run, Rotation.next, hend]
  refine ⟨_, hstart.along (fun _ h => h) ?_ hrun, List.mem_cons_self⟩
  simp [latest, Machine.Along, Rotation.next, Punctual]
  omega

/-- No connection of a punctual run outlives its token exactly where the window and the
lifetime of a connection fit into that of the token. -/
theorem outlives_iff_sum (lifetime : Option Nat) (ttl interval late : Nat) :
    (∀ s, (rotation interval).Reach (Punctual interval late) s →
      ∀ c ∈ s.connections, c.RecycledBy lifetime ttl) ↔
    ∃ l, lifetime = some l ∧ interval + 3 * late + l ≤ ttl := by
  constructor
  · intro h
    obtain ⟨s, hs, hc⟩ := window_reached interval late
    obtain ⟨l, hl, hle⟩ := h s hs _ hc
    exact ⟨l, hl, by simpa using hle⟩
  · rintro ⟨l, rfl, hle⟩ s hs c hc
    have hopened := (window hs).connections c hc
    exact ⟨l, rfl, by omega⟩

/-! ## What may be configured -/

/-- A token's lifetime and the configured milliseconds for which no connection outlives its
token, when delays are at most `late`. The margin of a minute has to hold the lifetime of a
connection; a token of less than 65 s is replaced every 5 s. -/
def WithinTtl (late maxLifetimeMs ttl : Nat) : Prop :=
  if ttl < 65 * second then
    10 * second + 3 * late ≤ ttl ∨
      0 < maxLifetimeMs ∧ 5 * second + maxLifetimeMs * millisecond + 3 * late ≤ ttl
  else
    let capMs := (ttl - 60 * second) / millisecond % 2 ^ 64
    capMs ≠ 0 ∧ (capMs * millisecond + 3 * late ≤ 60 * second ∨
      0 < maxLifetimeMs ∧ maxLifetimeMs * millisecond + 3 * late ≤ 60 * second)

/-- A cap and the configured milliseconds, of which zero means none. -/
def cappedMs (capMs maxLifetimeMs : Nat) : Nat :=
  if maxLifetimeMs = 0 ∨ capMs < maxLifetimeMs then capMs else maxLifetimeMs

theorem maxLifetime_eq {ttl : Nat} (h : ttl ≠ durationMax) (maxLifetimeMs : Nat) :
    maxLifetime {} maxLifetimeMs ttl =
      let ms := cappedMs (max (ttl - 60 * second) (5 * second) / millisecond % 2 ^ 64) maxLifetimeMs
      if ms = 0 then none else some (ms * millisecond) := by
  simp only [maxLifetime, RotatorConfig.poolMaxLifetimeFor, if_neg h, Bool.or_eq_true,
    decide_eq_true_eq]
  rfl

/-- A cap that holds the configured milliseconds is no longer than both. -/
theorem cappedMs_fits (capMs maxLifetimeMs bound : Nat) :
    (cappedMs capMs maxLifetimeMs ≠ 0 ∧ cappedMs capMs maxLifetimeMs * millisecond ≤ bound) ↔
      capMs ≠ 0 ∧ (capMs * millisecond ≤ bound ∨
        0 < maxLifetimeMs ∧ maxLifetimeMs * millisecond ≤ bound) := by
  simp only [cappedMs, millisecond]
  split <;> omega

/-- The interval and the lifetime that are configured fit into a token's lifetime. -/
theorem sum_le_iff {interval ttl : Nat} (late maxLifetimeMs : Nat)
    (hi : RotatorConfig.intervalFor {} ttl = some interval) :
    (∃ l, maxLifetime {} maxLifetimeMs ttl = some l ∧ interval + 3 * late + l ≤ ttl) ↔
      WithinTtl late maxLifetimeMs ttl := by
  have hmax : ttl ≠ durationMax := by
    rintro rfl
    simp [RotatorConfig.intervalFor] at hi
  simp only [RotatorConfig.intervalFor, if_neg hmax, Option.some.injEq] at hi
  subst hi
  rw [maxLifetime_eq hmax]
  set capMs := max (ttl - 60 * second) (5 * second) / millisecond % 2 ^ 64 with hcapMs
  have hsum : (∃ l, (if cappedMs capMs maxLifetimeMs = 0 then none
        else some (cappedMs capMs maxLifetimeMs * millisecond)) = some l ∧
      max (ttl - 60 * second) (5 * second) + 3 * late + l ≤ ttl) ↔
      cappedMs capMs maxLifetimeMs ≠ 0 ∧ max (ttl - 60 * second) (5 * second) + 3 * late +
        cappedMs capMs maxLifetimeMs * millisecond ≤ ttl := by
    by_cases hzero : cappedMs capMs maxLifetimeMs = 0
    · simp [hzero]
    · simp [hzero]
  rw [hsum]
  by_cases hshort : ttl < 65 * second
  · have hcap : max (ttl - 60 * second) (5 * second) = 5 * second := by omega
    have hms : capMs = 5000 := by
      rw [hcapMs, hcap]
      rfl
    have hfits := cappedMs_fits capMs maxLifetimeMs (ttl - (5 * second + 3 * late))
    rw [WithinTtl, if_pos hshort, hcap]
    clear_value capMs
    clear hcapMs hsum hcap hmax
    generalize cappedMs capMs maxLifetimeMs = ms at hfits ⊢
    simp only [second, millisecond, Nat.reduceMul] at hfits hshort ⊢
    omega
  · have hcap : max (ttl - 60 * second) (5 * second) = ttl - 60 * second := by omega
    have hfits := cappedMs_fits capMs maxLifetimeMs (60 * second - 3 * late)
    rw [hcap] at hcapMs
    rw [WithinTtl, if_neg hshort, ← hcapMs, hcap]
    clear_value capMs
    clear hcapMs hsum hcap hmax
    generalize cappedMs capMs maxLifetimeMs = ms at hfits ⊢
    simp only [second, millisecond, Nat.reduceMul] at hfits hshort ⊢
    omega

/-- No connection of a punctual run outlives its token exactly where what is configured fits
into the token's lifetime. -/
theorem no_connection_outlives_iff (late maxLifetimeMs : Nat) {interval ttl : Nat}
    (hi : RotatorConfig.intervalFor {} ttl = some interval) :
    (∀ s, (rotation interval).Reach (Punctual interval late) s →
      ∀ c ∈ s.connections, c.RecycledBy (maxLifetime {} maxLifetimeMs ttl) ttl) ↔
    WithinTtl late maxLifetimeMs ttl := by
  rw [outlives_iff_sum]
  exact sum_le_iff late maxLifetimeMs hi

/-- Tokens of two minutes, fetched at their ticks, outlive the connections. -/
theorem two_minutes_outlive :
    RotatorConfig.intervalFor {} (120 * second) = some (60 * second) ∧
    ∀ s, (rotation (60 * second)).Reach (Punctual (60 * second) 0) s →
      ∀ c ∈ s.connections, c.RecycledBy (maxLifetime {} 1800000 (120 * second)) (120 * second) := by
  have hinterval : RotatorConfig.intervalFor {} (120 * second) = some (60 * second) := by decide
  refine ⟨hinterval, (no_connection_outlives_iff 0 1800000 hinterval).mpr ?_⟩
  rw [WithinTtl, if_neg (by decide)]
  decide

/-- A token of a quarter of an hour does not: a connection that is opened before the first tick,
840 s after the token was fetched, is recycled another 840 s later. -/
theorem quarter_hour_outlived :
    RotatorConfig.intervalFor {} (900 * second) = some (840 * second) ∧
    maxLifetime {} 1800000 (900 * second) = some (840 * second) ∧
    ¬∀ s, (rotation (840 * second)).Reach (Punctual (840 * second) 0) s →
      ∀ c ∈ s.connections, c.RecycledBy (maxLifetime {} 1800000 (900 * second)) (900 * second) := by
  have hlifetime : maxLifetime {} 1800000 (900 * second) = some (840 * second) := by decide
  refine ⟨by decide, hlifetime, ?_⟩
  rw [hlifetime, outlives_iff_sum]
  rintro ⟨l, hl, hle⟩
  cases hl
  exact absurd hle (by decide)

end McpgSql.Auth
