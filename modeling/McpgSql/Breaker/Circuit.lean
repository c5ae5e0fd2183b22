import Mathlib.Algebra.Group.Nat.Defs
import Mathlib.Data.List.Perm.Basic
import Mathlib.Tactic.ByContra
import McpgSql.Config
import McpgSql.Library.Machine

/-!
# The circuit breaker

`CircuitBreaker` with `try_admit` and what a guard records, each as one step, and
the runs of a breaker with any number of guards that are not recorded yet
(`breakerMachine`). Every step is kept in a history, from which the number of
failures in a row, the trips and the time of the last one are read.

* `Step.of_next`: what a step can do;
* `reach_inv`: what ties the breaker to its guards and its history;
* `breaker_follows_history`: the breaker follows its history.

Times are in nanoseconds. The counters are `u32` and `u64`: what is added to
them wraps.
-/

namespace McpgSql.Breaker

open Library

structure CircuitBreakerConfig where
  failureThreshold : UInt32 := 5
  cooldownMs : UInt64 := 30000
deriving DecidableEq, Repr

namespace CircuitBreakerConfig

def validate (config : CircuitBreakerConfig) : Except SqlError Unit :=
  if config.failureThreshold = 0 then
    .error (.invalidSpec ("circuit_breaker.failure_threshold must be > 0 " ++
      "(omit the whole block to disable the breaker)"))
  else if config.cooldownMs = 0 then
    .error (.invalidSpec "circuit_breaker.cooldown_ms must be > 0")
  else .ok ()

/-- `Duration::from_millis(cooldown_ms)`. -/
def cooldown (config : CircuitBreakerConfig) : Nat := config.cooldownMs.toNat * 1000000

/-- The failures in a row that trip the breaker. -/
def threshold (config : CircuitBreakerConfig) : Nat := config.failureThreshold.toNat

theorem threshold_lt (config : CircuitBreakerConfig) : config.threshold < 2 ^ 32 :=
  config.failureThreshold.toNat_lt

theorem validate_ok {config : CircuitBreakerConfig} (h : config.validate = .ok ()) :
    0 < config.threshold ∧ 0 < config.cooldown := by
  simp only [validate] at h
  split at h
  · cases h
  · rename_i ht
    split at h
    · cases h
    · rename_i hc
      have ht : config.failureThreshold.toNat ≠ 0 := fun h0 => ht (UInt32.toNat_inj.mp h0)
      have hc : config.cooldownMs.toNat ≠ 0 := fun h0 => hc (UInt64.toNat_inj.mp h0)
      simp only [threshold, cooldown]
      omega

end CircuitBreakerConfig

inductive CircuitState where
  | closed
  | opened
  | halfOpen
deriving DecidableEq, Repr

structure CircuitBreaker where
  config : CircuitBreakerConfig
  consecutiveFailures : Nat := 0
  openedAt : Option Nat := none
  probeInFlight : Bool := false
  totalTrips : Nat := 0
  state : CircuitState := .closed
deriving DecidableEq, Repr

/-- An admitted call; `probe` when its outcome decides a half-open breaker. -/
structure AdmitGuard where
  probe : Bool
deriving DecidableEq, Repr

/-- The error of a call that is not admitted: a closed pool. -/
def fastFailError : SqlError := .driver "attempted to acquire a connection on a closed pool"

namespace CircuitBreaker

/-- A missing time counts as elapsed. -/
def cooldownElapsed (b : CircuitBreaker) (now : Nat) : Bool :=
  match b.openedAt with
  | some t => b.config.cooldown ≤ now - t
  | none => true

def tryAdmit (b : CircuitBreaker) (now : Nat) : CircuitBreaker × Except SqlError AdmitGuard :=
  match b.state with
  | .closed => (b, .ok ⟨false⟩)
  | .opened =>
    if b.cooldownElapsed now then
      ({ b with state := .halfOpen, probeInFlight := true }, .ok ⟨true⟩)
    else (b, .error fastFailError)
  | .halfOpen =>
    if b.probeInFlight then (b, .error fastFailError)
    else ({ b with probeInFlight := true }, .ok ⟨true⟩)

def recordSuccess (b : CircuitBreaker) (wasProbe : Bool) : CircuitBreaker :=
  let b := { b with consecutiveFailures := 0 }
  if wasProbe then { b with probeInFlight := false, state := .closed, openedAt := none } else b

def recordFailure (b : CircuitBreaker) (wasProbe : Bool) (now : Nat) : CircuitBreaker :=
  if wasProbe then { b with probeInFlight := false, state := .opened, openedAt := some now }
  else
    let n := (b.consecutiveFailures + 1) % 2 ^ 32
    let b := { b with consecutiveFailures := n }
    if b.config.threshold ≤ n ∧ b.state = .closed then
      { b with state := .opened, openedAt := some now, totalTrips := (b.totalTrips + 1) % 2 ^ 64 }
    else b

end CircuitBreaker

/-- `record`: the outcome of the admitted call. -/
def AdmitGuard.record (g : AdmitGuard) (b : CircuitBreaker) (success : Bool) (now : Nat) :
    CircuitBreaker :=
  if success then b.recordSuccess g.probe else b.recordFailure g.probe now

/-- A guard that is dropped without a record counts as a success. -/
def AdmitGuard.drop (g : AdmitGuard) (b : CircuitBreaker) : CircuitBreaker :=
  b.recordSuccess g.probe

/-! ## Runs -/

/-- What happened to a breaker. -/
inductive Event where
  | admitted (probe : Bool)
  | rejected
  | recorded (probe success : Bool)
  | dropped (probe : Bool)
deriving DecidableEq, Repr

/-- A step of the history: what happened, when, and the states around it. -/
structure Entry where
  event : Event
  now : Nat
  before : CircuitState
  after : CircuitState
deriving DecidableEq, Repr

/-- A breaker, the guards that are not recorded yet, the clock, and the steps so
far, the last one first. -/
structure World where
  breaker : CircuitBreaker
  guards : List AdmitGuard := []
  now : Nat
  history : List Entry := []
deriving DecidableEq, Repr

inductive Action where
  | tryAdmit (now : Nat)
  | record (i : Nat) (success : Bool) (now : Nat)
  | drop (i : Nat) (now : Nat)
deriving DecidableEq, Repr

/-- The world with the breaker `b` after `event`. -/
def World.after (w : World) (b : CircuitBreaker) (guards : List AdmitGuard) (now : Nat)
    (event : Event) : World :=
  { breaker := b, guards, now
    history := ⟨event, now, w.breaker.state, b.state⟩ :: w.history }

/-- The world after an action, `none` when it cannot happen: the clock does not go
back, and a guard is recorded once. -/
def World.next (w : World) : Action → Option World
  | .tryAdmit now =>
    if now < w.now then none
    else match w.breaker.tryAdmit now with
      | (b, .ok g) => some (w.after b (w.guards ++ [g]) now (.admitted g.probe))
      | (b, .error _) => some (w.after b w.guards now .rejected)
  | .record i success now =>
    if now < w.now then none
    else (w.guards[i]?).map fun g => w.after (g.record w.breaker success now) (w.guards.eraseIdx i)
      now (.recorded g.probe success)
  | .drop i now =>
    if now < w.now then none
    else (w.guards[i]?).map fun g => w.after (g.drop w.breaker) (w.guards.eraseIdx i) now
      (.dropped g.probe)

/-- The runs of a breaker with this configuration. -/
def breakerMachine (config : CircuitBreakerConfig) : Machine World Action where
  init w := w.breaker = { config } ∧ w.guards = [] ∧ w.history = []
  step w a w' := w.next a = some w'

/-- The failures of calls that are no probe since the last success or drop. -/
def streak : List Entry → Nat
  | [] => 0
  | e :: past => match e.event with
    | .recorded _ true | .dropped _ => 0
    | .recorded false false => streak past + 1
    | .recorded true false | .admitted _ | .rejected => streak past

/-- The step opened a closed breaker. -/
def Entry.trip (e : Entry) : Bool := e.before = .closed && e.after = .opened

/-- The number of trips. -/
def trips (history : List Entry) : Nat := history.countP Entry.trip

/-- The time of the last trip or failed probe. -/
def lastOpened : List Entry → Option Nat
  | [] => none
  | e :: past =>
    if e.trip || e.event = .recorded true false then some e.now else lastOpened past

/-! ## What a step can do -/

/-- Every step of a world, with its guards. -/
inductive Step (w : World) : Action → World → Prop
  | pass {now : Nat} : w.now ≤ now → w.breaker.state = .closed →
    Step w (.tryAdmit now) (w.after w.breaker (w.guards ++ [⟨false⟩]) now (.admitted false))
  | probe {now : Nat} : w.now ≤ now → w.breaker.state = .opened →
    w.breaker.cooldownElapsed now = true →
    Step w (.tryAdmit now) (w.after { w.breaker with state := .halfOpen, probeInFlight := true }
      (w.guards ++ [⟨true⟩]) now (.admitted true))
  | claim {now : Nat} : w.now ≤ now → w.breaker.state = .halfOpen →
    w.breaker.probeInFlight = false →
    Step w (.tryAdmit now) (w.after { w.breaker with state := .halfOpen, probeInFlight := true }
      (w.guards ++ [⟨true⟩]) now (.admitted true))
  | reject {now : Nat} : w.now ≤ now → w.breaker.state ≠ .closed →
    Step w (.tryAdmit now) (w.after w.breaker w.guards now .rejected)
  | success {a : Action} {i now : Nat} {g : AdmitGuard} {event : Event} : w.now ≤ now →
    w.guards[i]? = some g → event = .recorded g.probe true ∨ event = .dropped g.probe →
    (∀ now', a ≠ .tryAdmit now') →
    Step w a (w.after (w.breaker.recordSuccess g.probe) (w.guards.eraseIdx i) now event)
  | failure {i now : Nat} {g : AdmitGuard} : w.now ≤ now → w.guards[i]? = some g →
    Step w (.record i false now) (w.after (w.breaker.recordFailure g.probe now)
      (w.guards.eraseIdx i) now (.recorded g.probe false))

theorem Step.of_next {w w' : World} {a : Action} (h : w.next a = some w') : Step w a w' := by
  cases a with
  | tryAdmit now =>
    simp only [World.next, CircuitBreaker.tryAdmit] at h
    split at h
    · cases h
    · rename_i hnow
      have hnow : w.now ≤ now := Nat.le_of_not_lt hnow
      cases hs : w.breaker.state with
      | closed =>
        simp only [hs, Option.some.injEq] at h
        exact h ▸ .pass hnow hs
      | opened =>
        cases hc : w.breaker.cooldownElapsed now with
        | true =>
          simp only [hs, hc, if_true, Option.some.injEq] at h
          exact h ▸ .probe hnow hs hc
        | false =>
          simp only [hs, hc, Bool.false_eq_true, if_false, Option.some.injEq] at h
          exact h ▸ .reject hnow (by simp [hs])
      | halfOpen =>
        cases hp : w.breaker.probeInFlight with
        | true =>
          simp only [hs, hp, if_true, Option.some.injEq] at h
          exact h ▸ .reject hnow (by simp [hs])
        | false =>
          simp only [hs, hp, Bool.false_eq_true, if_false, Option.some.injEq] at h
          exact h ▸ .claim hnow hs hp
  | record i success now =>
    simp only [World.next] at h
    split at h
    · cases h
    · rename_i hnow
      have hnow : w.now ≤ now := Nat.le_of_not_lt hnow
      obtain ⟨g, hg, rfl⟩ := Option.map_eq_some_iff.mp h
      cases success with
      | true => exact .success hnow hg (.inl rfl) nofun
      | false => exact .failure hnow hg
  | drop i now =>
    simp only [World.next] at h
    split at h
    · cases h
    · rename_i hnow
      obtain ⟨g, hg, rfl⟩ := Option.map_eq_some_iff.mp h
      exact .success (Nat.le_of_not_lt hnow) hg (.inr rfl) nofun

/-! ## The breaker and its history -/

section

variable (w : World) (b : CircuitBreaker) (guards : List AdmitGuard) (now : Nat) (event : Event)

@[simp] theorem after_breaker : (w.after b guards now event).breaker = b := rfl

@[simp] theorem after_now : (w.after b guards now event).now = now := rfl

@[simp] theorem after_guards : (w.after b guards now event).guards = guards := rfl

theorem after_history : (w.after b guards now event).history =
    ⟨event, now, w.breaker.state, b.state⟩ :: w.history := rfl

theorem trips_after : trips (w.after b guards now event).history =
    trips w.history + if w.breaker.state = .closed ∧ b.state = .opened then 1 else 0 := by
  rw [after_history, trips, List.countP_cons, trips]
  simp [Entry.trip]

theorem lastOpened_after : lastOpened (w.after b guards now event).history =
    if (w.breaker.state = .closed ∧ b.state = .opened) ∨ event = .recorded true false
    then some now else lastOpened w.history := by
  simp [after_history, lastOpened, Entry.trip]

end

/-- The probes that are not recorded yet. -/
def World.probes (w : World) : Nat := w.guards.countP AdmitGuard.probe

structure Inv (config : CircuitBreakerConfig) (w : World) : Prop where
  config_eq : w.breaker.config = config
  halfOpen : w.breaker.state = .halfOpen ↔ w.breaker.probeInFlight = true
  probes : w.probes = w.breaker.probeInFlight.toNat
  closed : w.breaker.state = .closed → w.breaker.consecutiveFailures = streak w.history ∧
    w.breaker.consecutiveFailures < config.threshold
  trips_eq : w.breaker.totalTrips = trips w.history % 2 ^ 64
  opened : w.breaker.state = .opened → ∃ t, w.breaker.openedAt = some t ∧
    lastOpened w.history = some t ∧ t ≤ w.now ∧
    trips w.history * config.cooldown ≤ t + config.cooldown
  settled : w.breaker.state ≠ .opened → trips w.history * config.cooldown ≤ w.now

section

variable {config : CircuitBreakerConfig} {w w' : World} {a : Action} {g : AdmitGuard} {i now : Nat}

/-- A recorded guard is no longer among the guards. -/
theorem countP_eraseIdx {guards : List AdmitGuard} (h : guards[i]? = some g) :
    (guards.eraseIdx i).countP AdmitGuard.probe + g.probe.toNat =
      guards.countP AdmitGuard.probe := by
  obtain ⟨hi, rfl⟩ := List.getElem?_eq_some_iff.mp h
  rw [← (List.getElem_cons_eraseIdx_perm hi).countP_eq, List.countP_cons]
  cases (guards[i]).probe <;> rfl

/-- A probe is recorded in a half-open breaker. -/
theorem Inv.halfOpen_of_probe (h : Inv config w) (hg : w.guards[i]? = some g)
    (hp : g.probe = true) : w.breaker.state = .halfOpen ∧ w.breaker.probeInFlight = true := by
  have hcount := countP_eraseIdx hg
  have hprobes := h.probes
  rw [World.probes] at hprobes
  rw [hp, Bool.toNat_true] at hcount
  have hflight : w.breaker.probeInFlight = true := by
    by_contra hf
    rw [Bool.not_eq_true] at hf
    rw [hf, Bool.toNat_false] at hprobes
    omega
  exact ⟨h.halfOpen.mpr hflight, hflight⟩

theorem Inv.not_probe (h : Inv config w) (hg : w.guards[i]? = some g)
    (hs : w.breaker.state ≠ .halfOpen) : g.probe = false := by
  cases hp : g.probe with
  | false => rfl
  | true => exact (hs (h.halfOpen_of_probe hg hp).1).elim

/-- The probes left when a guard is recorded: none when it was the probe. -/
theorem Inv.probes_eraseIdx (h : Inv config w) (hg : w.guards[i]? = some g) :
    (w.guards.eraseIdx i).countP AdmitGuard.probe =
      (w.breaker.probeInFlight && !g.probe).toNat := by
  have hcount := countP_eraseIdx hg
  have hprobes := h.probes
  rw [World.probes] at hprobes
  cases hp : g.probe with
  | false =>
    rw [hp, Bool.toNat_false] at hcount
    rw [Bool.not_false, Bool.and_true]
    omega
  | true =>
    rw [hp, Bool.toNat_true, hprobes, (h.halfOpen_of_probe hg hp).2, Bool.toNat_true] at hcount
    rw [Bool.not_true, Bool.and_false, Bool.toNat_false]
    omega

theorem Inv.pass (h : Inv config w) (hnow : w.now ≤ now) (hs : w.breaker.state = .closed) :
    Inv config (w.after w.breaker (w.guards ++ [⟨false⟩]) now (.admitted false)) where
  config_eq := h.config_eq
  halfOpen := h.halfOpen
  probes := by simpa [World.probes] using h.probes
  closed _ := h.closed hs
  trips_eq := by simpa [trips_after, hs] using h.trips_eq
  opened ho := by simp [hs] at ho
  settled ho := by
    have := h.settled ho
    simp only [trips_after, hs, reduceCtorEq, and_false, if_false, after_now, Nat.add_zero]
    omega

theorem Inv.reject (h : Inv config w) (hnow : w.now ≤ now) (hs : w.breaker.state ≠ .closed) :
    Inv config (w.after w.breaker w.guards now .rejected) where
  config_eq := h.config_eq
  halfOpen := h.halfOpen
  probes := h.probes
  closed hc := (hs hc).elim
  trips_eq := by simpa [trips_after, hs] using h.trips_eq
  opened ho := by
    obtain ⟨t, hat, hlast, ht, htrips⟩ := h.opened ho
    refine ⟨t, hat, ?_, Nat.le_trans ht hnow, ?_⟩
    · simpa [lastOpened_after, hs] using hlast
    · simpa [trips_after, hs] using htrips
  settled ho := by
    have := h.settled ho
    simp only [trips_after, hs, false_and, if_false, after_now, Nat.add_zero]
    omega

/-- A probe is admitted at the end of the cooldown. -/
theorem Inv.probe (h : Inv config w) (hnow : w.now ≤ now) (hs : w.breaker.state = .opened)
    (hc : w.breaker.cooldownElapsed now = true) :
    Inv config (w.after { w.breaker with state := .halfOpen, probeInFlight := true }
      (w.guards ++ [⟨true⟩]) now (.admitted true)) where
  config_eq := h.config_eq
  halfOpen := by simp
  probes := by
    have hflight : w.breaker.probeInFlight = false := by
      simpa [hs] using h.halfOpen
    have hprobes := h.probes
    rw [World.probes, hflight] at hprobes
    simp [World.probes, hprobes]
  closed hc := by simp at hc
  trips_eq := by simpa [trips_after] using h.trips_eq
  opened ho := by simp at ho
  settled _ := by
    obtain ⟨t, hat, -, ht, htrips⟩ := h.opened hs
    simp only [CircuitBreaker.cooldownElapsed, hat, h.config_eq, decide_eq_true_eq] at hc
    simp only [trips_after, reduceCtorEq, and_false, if_false, after_now, Nat.add_zero]
    omega

/-- A success ends the failures in a row. -/
theorem streak_success {w : World} {b : CircuitBreaker} {guards : List AdmitGuard} {event : Event}
    (he : event = .recorded g.probe true ∨ event = .dropped g.probe) :
    streak (w.after b guards now event).history = 0 := by
  rcases he with rfl | rfl <;> rfl

theorem Inv.success (hthreshold : 0 < config.threshold) (h : Inv config w) (hnow : w.now ≤ now)
    (hg : w.guards[i]? = some g) {event : Event}
    (he : event = .recorded g.probe true ∨ event = .dropped g.probe) :
    Inv config (w.after (w.breaker.recordSuccess g.probe) (w.guards.eraseIdx i) now event) := by
  have hprobes := h.probes_eraseIdx hg
  cases hp : g.probe with
  | false =>
    -- The counter is reset; the state stays.
    rw [hp, Bool.not_false, Bool.and_true] at hprobes
    simp only [CircuitBreaker.recordSuccess, Bool.false_eq_true, if_false]
    have hnone : ¬(w.breaker.state = .closed ∧ w.breaker.state = .opened) := fun hh => by
      rw [hh.1] at hh
      cases hh.2
    refine ⟨h.config_eq, h.halfOpen, hprobes, fun _ => ⟨(streak_success he).symm, hthreshold⟩, ?_,
      fun ho => ?_, fun ho => ?_⟩
    · simpa [trips_after, hnone] using h.trips_eq
    · obtain ⟨t, hat, hlast, ht, htrips⟩ := h.opened ho
      refine ⟨t, hat, ?_, Nat.le_trans ht hnow, ?_⟩
      · have hevent : event ≠ .recorded true false := by rcases he with rfl | rfl <;> simp
        simpa [lastOpened_after, hnone, hevent] using hlast
      · simpa [trips_after, hnone] using htrips
    · have := h.settled ho
      simp only [trips_after, hnone, if_false, after_now, Nat.add_zero]
      omega
  | true =>
    -- The probe closes the breaker.
    rw [hp, Bool.not_true, Bool.and_false] at hprobes
    have hs := (h.halfOpen_of_probe hg hp).1
    simp only [CircuitBreaker.recordSuccess, if_true]
    refine ⟨h.config_eq, by simp, hprobes, fun _ => ⟨(streak_success he).symm, hthreshold⟩, ?_,
      fun ho => by simp at ho, fun _ => ?_⟩
    · simpa [trips_after] using h.trips_eq
    · have := h.settled (by simp [hs])
      simp only [trips_after, reduceCtorEq, and_false, if_false, after_now, Nat.add_zero]
      omega

/-- A failed probe opens the breaker again. -/
theorem Inv.probeFailure (h : Inv config w) (hnow : w.now ≤ now) (hg : w.guards[i]? = some g)
    (hp : g.probe = true) :
    Inv config (w.after (w.breaker.recordFailure true now) (w.guards.eraseIdx i) now
      (.recorded true false)) := by
  have hprobes := h.probes_eraseIdx hg
  rw [hp, Bool.not_true, Bool.and_false] at hprobes
  have hs := (h.halfOpen_of_probe hg hp).1
  simp only [CircuitBreaker.recordFailure, if_true]
  refine ⟨h.config_eq, by simp, hprobes, fun hc => by simp at hc, ?_, fun _ => ?_,
    fun ho => by simp at ho⟩
  · simpa [trips_after, hs] using h.trips_eq
  · refine ⟨now, rfl, by simp [lastOpened_after], Nat.le_refl _, ?_⟩
    have := h.settled (by simp [hs])
    simp only [trips_after, hs, reduceCtorEq, false_and, if_false, Nat.add_zero]
    omega

/-- The breaker after a failure of a call that is no probe: tripped or not. -/
theorem Inv.failure (h : Inv config w) (hnow : w.now ≤ now) (hg : w.guards[i]? = some g)
    (hp : g.probe = false) :
    Inv config (w.after (w.breaker.recordFailure false now) (w.guards.eraseIdx i) now
      (.recorded false false)) := by
  have hprobes := h.probes_eraseIdx hg
  rw [hp, Bool.not_false, Bool.and_true] at hprobes
  have hlt := config.threshold_lt
  simp only [CircuitBreaker.recordFailure, Bool.false_eq_true, if_false, h.config_eq]
  split
  · rename_i htrip
    obtain ⟨hn, hs⟩ := htrip
    have hhalf : w.breaker.probeInFlight = false := by simpa [hs] using h.halfOpen
    rw [hhalf] at hprobes
    refine ⟨rfl, by simp [hhalf], by simpa [hhalf, World.probes] using hprobes, fun hc => by simp at hc, ?_,
      fun _ => ?_, fun ho => by simp at ho⟩
    · simp only [trips_after, hs, and_self, if_true, after_breaker, h.trips_eq]
      omega
    · refine ⟨now, rfl, by simp [lastOpened_after, hs], Nat.le_refl _, ?_⟩
      have := h.settled (by simp [hs])
      simp only [trips_after, hs, and_self, if_true, Nat.add_mul, Nat.one_mul]
      omega
  · rename_i htrip
    have hnone : ¬(w.breaker.state = .closed ∧ w.breaker.state = .opened) := fun hh => by
      rw [hh.1] at hh
      cases hh.2
    refine ⟨rfl, h.halfOpen, hprobes, fun hc => ?_, ?_, fun ho => ?_, fun ho => ?_⟩
    · -- The counter is below the threshold, so it does not wrap.
      obtain ⟨hcount, hbelow⟩ := h.closed hc
      have hs : w.breaker.state = .closed := hc
      have hmod : (w.breaker.consecutiveFailures + 1) % 2 ^ 32 =
          w.breaker.consecutiveFailures + 1 := Nat.mod_eq_of_lt (by omega)
      simp only [hs, and_true] at htrip
      simp only [after_breaker, after_history, streak, hmod]
      omega
    · simpa [trips_after, hnone] using h.trips_eq
    · obtain ⟨t, hat, hlast, ht, htrips⟩ := h.opened ho
      refine ⟨t, hat, ?_, Nat.le_trans ht hnow, ?_⟩
      · simpa [lastOpened_after, hnone] using hlast
      · simpa [trips_after, hnone] using htrips
    · have := h.settled ho
      simp only [trips_after, hnone, if_false, after_now, Nat.add_zero]
      omega

/-- Every step keeps the invariant. -/
theorem Inv.step (hthreshold : 0 < config.threshold) (h : Inv config w) (hst : Step w a w') :
    Inv config w' := by
  cases hst with
  | pass hnow hs => exact h.pass hnow hs
  | probe hnow hs hc => exact h.probe hnow hs hc
  | claim hnow hs hp =>
    rw [h.halfOpen.mp hs] at hp
    cases hp
  | reject hnow hs => exact h.reject hnow hs
  | success hnow hg he => exact h.success hthreshold hnow hg he
  | @failure i now g hnow hg =>
    cases hp : g.probe with
    | true => exact h.probeFailure hnow hg hp
    | false => exact h.failure hnow hg hp

theorem reach_inv (hthreshold : 0 < config.threshold) {ok : World → Action → Prop}
    (h : (breakerMachine config).Reach ok w) : Inv config w := by
  refine h.invariant (fun {w} h₀ => ?_) (fun _ hst hI => hI.step hthreshold (.of_next hst))
  obtain ⟨hb, hguards, hhistory⟩ := h₀
  refine ⟨by rw [hb], by simp [hb], by simp [World.probes, hb, hguards], fun _ => ?_, ?_,
    fun ho => by simp [hb] at ho, fun _ => ?_⟩
  · exact ⟨by simp [hb, hhistory, streak], by simpa [hb] using hthreshold⟩
  · simp [hb, hhistory, trips]
  · simp [hhistory, trips]

/-- A closed breaker opens at the step that brings the failures in a row to the
threshold. -/
theorem Inv.trips_at (h : Inv config w) (hst : Step w a w') (hs : w.breaker.state = .closed) :
    w'.breaker.state = .opened ↔ streak w'.history = config.threshold := by
  obtain ⟨hcount, hbelow⟩ := h.closed hs
  cases hst with
  | pass hnow _ =>
    simp only [after_breaker, hs, reduceCtorEq, after_history, streak, false_iff]
    omega
  | probe hnow ho => rw [hs] at ho; cases ho
  | claim hnow ho => rw [hs] at ho; cases ho
  | reject hnow ho => exact (ho hs).elim
  | @success _ i now g event hnow hg he =>
    have hstate : (w.breaker.recordSuccess g.probe).state = .closed := by
      cases hp : g.probe <;> simp [CircuitBreaker.recordSuccess, hs]
    simp only [after_breaker, hstate, reduceCtorEq, streak_success he, false_iff]
    omega
  | @failure i now g hnow hg =>
    have hp := h.not_probe hg (by simp [hs])
    have hlt := config.threshold_lt
    have hmod : (w.breaker.consecutiveFailures + 1) % 2 ^ 32 =
        w.breaker.consecutiveFailures + 1 := Nat.mod_eq_of_lt (by omega)
    simp only [after_breaker, after_history, hp, streak, CircuitBreaker.recordFailure,
      Bool.false_eq_true, if_false, h.config_eq, hs, and_true, hmod]
    split
    · simp only [true_iff]
      omega
    · simp only [reduceCtorEq, false_iff]
      omega

/-- An open breaker leaves that state with a probe, after the cooldown. -/
theorem Inv.leaves_opened (h : Inv config w) (hst : Step w a w') (hs : w.breaker.state = .opened)
    (hs' : w'.breaker.state ≠ .opened) :
    ∃ now t, a = .tryAdmit now ∧ lastOpened w.history = some t ∧ t + config.cooldown ≤ now ∧
      w'.guards = w.guards ++ [⟨true⟩] := by
  have hnot : w.breaker.state ≠ .halfOpen := by simp [hs]
  cases hst with
  | pass hnow hc => rw [hs] at hc; cases hc
  | @probe now hnow _ hc =>
    obtain ⟨t, hat, hlast, ht, -⟩ := h.opened hs
    simp only [CircuitBreaker.cooldownElapsed, hat, h.config_eq, decide_eq_true_eq] at hc
    exact ⟨now, t, rfl, hlast, by omega, rfl⟩
  | claim hnow hc => rw [hs] at hc; cases hc
  | reject hnow _ => exact (hs' hs).elim
  | success hnow hg he => simp [CircuitBreaker.recordSuccess, h.not_probe hg hnot, hs] at hs'
  | failure hnow hg => simp [CircuitBreaker.recordFailure, h.not_probe hg hnot, hs] at hs'

end

/-- The breaker follows its history: it is half-open exactly while its one probe is
out; while it is closed, its counter is the number of failures in a row, below
the threshold, and it opens when that number reaches it; it counts these trips
(a `u64`, which does not wrap while the clock is below `2 ^ 64 - 1` cooldowns);
and it leaves the open state only with a probe, at least a cooldown after the
last trip or failed probe. -/
theorem breaker_follows_history {config : CircuitBreakerConfig} (hvalid : config.validate = .ok ())
    {w : World} (h : (breakerMachine config).Reach (fun _ _ => True) w) :
    (w.breaker.state = .halfOpen ↔ w.breaker.probeInFlight = true) ∧
    (w.breaker.probeInFlight = true ↔ w.guards.countP AdmitGuard.probe = 1) ∧
    (w.breaker.state = .closed → w.breaker.consecutiveFailures = streak w.history ∧
      w.breaker.consecutiveFailures < config.threshold) ∧
    w.breaker.totalTrips = trips w.history % 2 ^ 64 ∧
    (w.now < (2 ^ 64 - 1) * config.cooldown → w.breaker.totalTrips = trips w.history) ∧
    ∀ a w', (breakerMachine config).step w a w' →
      (w.breaker.state = .closed →
        (w'.breaker.state = .opened ↔ streak w'.history = config.threshold)) ∧
      (w.breaker.state = .opened → w'.breaker.state ≠ .opened →
        ∃ now t, a = .tryAdmit now ∧ lastOpened w.history = some t ∧ t + config.cooldown ≤ now ∧
          w'.guards = w.guards ++ [⟨true⟩]) := by
  obtain ⟨hthreshold, hcooldown⟩ := CircuitBreakerConfig.validate_ok hvalid
  have hI := reach_inv hthreshold h
  refine ⟨hI.halfOpen, ?_, hI.closed, hI.trips_eq, fun hclock => ?_, fun a w' hst =>
    ⟨hI.trips_at (.of_next hst), hI.leaves_opened (.of_next hst)⟩⟩
  · rw [← World.probes, hI.probes]
    cases w.breaker.probeInFlight <;> simp
  · rw [hI.trips_eq]
    refine Nat.mod_eq_of_lt ?_
    -- A cooldown passes between two trips.
    have hbound : trips w.history * config.cooldown ≤ w.now + config.cooldown := by
      by_cases hs : w.breaker.state = .opened
      · obtain ⟨t, -, -, ht, htrips⟩ := hI.opened hs
        omega
      · have := hI.settled hs
        omega
    have hlt : trips w.history * config.cooldown < 2 ^ 64 * config.cooldown := by
      omega
    exact Nat.lt_of_mul_lt_mul_right hlt

/-- A breaker of two failures: it trips, a probe fails, a late guard is dropped, and
a probe closes it. -/
def twoFailures : Option World :=
  Machine.run World.next { breaker := { config := ⟨2, 1⟩ }, now := 0 }
    [.tryAdmit 0, .tryAdmit 1, .tryAdmit 2, .tryAdmit 3, .record 0 false 4, .record 0 false 5, .tryAdmit 6,
      .tryAdmit 1000005, .record 2 false 1000010, .drop 0 1000011, .tryAdmit 2000010,
      .record 1 true 2000020]

theorem twoFailures_reach {w : World} (h : twoFailures = some w) :
    (breakerMachine ⟨2, 1⟩).Reach (fun _ _ => True) w :=
  Machine.Reach.run (.init ⟨rfl, rfl, rfl⟩) (fun _ hnext => hnext) (fun _ _ _ => trivial) h

theorem twoFailures_follow : ∃ w, twoFailures = some w ∧ w.breaker.state = .closed ∧
    w.breaker.consecutiveFailures = streak w.history ∧ trips w.history = 1 ∧
    w.breaker.totalTrips = 1 := by
  have hrun : twoFailures.any (fun w => w.breaker.state = .closed ∧ trips w.history = 1 ∧
      w.now < (2 ^ 64 - 1) * 1000000) := by
    decide
  obtain ⟨w, hw, hcheck⟩ := Option.any_eq_true _ _ |>.mp hrun
  obtain ⟨hs, htrips, hnow⟩ := of_decide_eq_true hcheck
  obtain ⟨-, -, hclosed, -, htotal, -⟩ :=
    breaker_follows_history (by decide) (twoFailures_reach hw)
  exact ⟨w, hw, hs, (hclosed hs).1, htrips, (htotal hnow).trans htrips⟩

end McpgSql.Breaker
