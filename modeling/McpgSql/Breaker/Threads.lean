import Mathlib.Logic.Function.Basic
import McpgSql.Breaker.Circuit

/-!
# Threads of a breaker

`try_admit` and the records of a guard access by access: every load, store and
exchange of an atomic, and every section of the mutex, is one step of a thread
(`Threads.next`), and the steps of any number of threads interleave in any order.
A thread that runs alone does what `tryAdmit`, `recordSuccess` and
`recordFailure` say (`run_tryAdmit`, `run_record`).

The clock is read apart from the sections of the mutex: before the one that writes
`opened_at`, and after the one that reads it. `stores` are the stores of the state so
far, `pending` the threads that have stored open and not written `opened_at`;
`admitted` the loads of the state that led to a guard, with what had been stored
before.
-/

namespace McpgSql.Breaker

open Library

/-- A load of the state by `try_admit`: when, and what was stored until then, the
last store first. -/
structure Load where
  now : Nat
  stores : List (Nat × CircuitState)
deriving DecidableEq, Repr

/-- The section of a cooldown check: the time it reads, what was stored until then, and the
threads that are yet to write the time. -/
structure Reading where
  openedAt : Option Nat
  stores : List (Nat × CircuitState)
  pending : List Nat
deriving DecidableEq, Repr

/-- `cooldown_elapsed`, by what was read. -/
def Reading.passes (reading : Reading) (config : CircuitBreakerConfig) (now : Nat) : Bool :=
  CircuitBreaker.cooldownElapsed { config, openedAt := reading.openedAt } now

/-- Where a thread is: the access it makes next. -/
inductive Pc where
  | idle
  /-- Found the breaker open: the section that reads `opened_at`. -/
  | check (load : Load)
  /-- The comparison with the clock. -/
  | elapsed (load : Load) (reading : Reading)
  /-- The store of half-open. -/
  | halfOpen (load : Load)
  /-- The store of `probe_in_flight`. -/
  | claim (load : Load)
  /-- Found the breaker half-open: the exchange of `probe_in_flight`. -/
  | exchange (load : Load)
  /-- The call runs; its guard is not recorded. -/
  | holding (probe : Bool)
  /-- A success: the reset of the failures. -/
  | reset (probe : Bool)
  | releaseSuccess
  | close
  /-- The closed breaker's time is cleared. -/
  | forget
  /-- A failed probe. -/
  | releaseFailure
  | reopen
  /-- The clock is read after a failed probe. -/
  | stamp
  /-- The section that writes the time of a failed probe. -/
  | stampAt (time : Nat)
  /-- Another failure. -/
  | count
  /-- The exchange of closed and open. -/
  | trip
  /-- The clock is read after a trip. -/
  | stampTrip
  /-- The section that writes the time of a trip. -/
  | stampTripAt (time : Nat)
  | countTrip
deriving DecidableEq, Repr

structure Threads where
  breaker : CircuitBreaker
  pc : Nat → Pc := fun _ => .idle
  now : Nat
  stores : List (Nat × CircuitState) := []
  pending : List Nat := []
  admitted : List Load := []

inductive ThreadAction where
  /-- The next access of thread `i`; an idle thread starts `try_admit`. -/
  | access (i : Nat) (now : Nat)
  /-- Thread `i` starts to record its guard; a dropped guard is a success. -/
  | record (i : Nat) (success : Bool) (now : Nat)
deriving DecidableEq, Repr

namespace Threads

/-- Thread `i` goes on at `pc`. -/
def goto (w : Threads) (i now : Nat) (pc : Pc) : Threads :=
  { w with pc := Function.update w.pc i pc, now }

/-- Thread `i` stores the state and goes on at `pc`. -/
def store (w : Threads) (i now : Nat) (state : CircuitState) (pc : Pc) : Threads :=
  { w with
    breaker := { w.breaker with state }
    pc := Function.update w.pc i pc
    now
    stores := (now, state) :: w.stores
    pending := if state = .opened then i :: w.pending else w.pending }

/-- Thread `i` changes the breaker otherwise and goes on at `pc`. -/
def write (w : Threads) (i now : Nat) (b : CircuitBreaker) (pc : Pc) : Threads :=
  { w with breaker := b, pc := Function.update w.pc i pc, now }

/-- Thread `i` writes `opened_at` and goes on at `pc`. -/
def stampAt (w : Threads) (i now time : Nat) (pc : Pc) : Threads :=
  { w.write i now { w.breaker with openedAt := some time } pc with pending := w.pending.erase i }

/-- Thread `i` has a guard. -/
def enter (w : Threads) (i now : Nat) (load : Load) (probe : Bool) : Threads :=
  { w with
    breaker := { w.breaker with probeInFlight := w.breaker.probeInFlight || probe }
    pc := Function.update w.pc i (.holding probe)
    now
    admitted := load :: w.admitted }

/-- The access that thread `i` makes at `now`. -/
def access (w : Threads) (i now : Nat) : Pc → Option Threads
  | .idle => match w.breaker.state with
    | .closed => some (w.enter i now ⟨now, w.stores⟩ false)
    | .opened => some (w.goto i now (.check ⟨now, w.stores⟩))
    | .halfOpen => some (w.goto i now (.exchange ⟨now, w.stores⟩))
  | .check load => some (w.goto i now (.elapsed load ⟨w.breaker.openedAt, w.stores, w.pending⟩))
  | .elapsed load reading =>
    some (w.goto i now (if reading.passes w.breaker.config now then .halfOpen load else .idle))
  | .halfOpen load => some (w.store i now .halfOpen (.claim load))
  | .claim load => some (w.enter i now load true)
  | .exchange load =>
    if w.breaker.probeInFlight then some (w.goto i now .idle) else some (w.enter i now load true)
  | .holding _ => none
  | .reset probe => some (w.write i now { w.breaker with consecutiveFailures := 0 }
      (if probe then .releaseSuccess else .idle))
  | .releaseSuccess => some (w.write i now { w.breaker with probeInFlight := false } .close)
  | .close => some (w.store i now .closed .forget)
  | .forget => some (w.write i now { w.breaker with openedAt := none } .idle)
  | .releaseFailure => some (w.write i now { w.breaker with probeInFlight := false } .reopen)
  | .reopen => some (w.store i now .opened .stamp)
  | .stamp => some (w.goto i now (.stampAt now))
  | .stampAt time => some (w.stampAt i now time .idle)
  | .count =>
    let n := (w.breaker.consecutiveFailures + 1) % 2 ^ 32
    some (w.write i now { w.breaker with consecutiveFailures := n }
      (if w.breaker.config.threshold ≤ n then .trip else .idle))
  | .trip =>
    if w.breaker.state = .closed then some (w.store i now .opened .stampTrip)
    else some (w.goto i now .idle)
  | .stampTrip => some (w.goto i now (.stampTripAt now))
  | .stampTripAt time => some (w.stampAt i now time .countTrip)
  | .countTrip =>
    some (w.write i now { w.breaker with totalTrips := (w.breaker.totalTrips + 1) % 2 ^ 64 } .idle)

/-- Where a thread records the outcome of its call. -/
def recordAt (success probe : Bool) : Pc :=
  if success then .reset probe else if probe then .releaseFailure else .count

def next (w : Threads) : ThreadAction → Option Threads
  | .access i now => if now < w.now then none else w.access i now (w.pc i)
  | .record i success now =>
    if now < w.now then none
    else match w.pc i with
      | .holding probe => some (w.goto i now (recordAt success probe))
      | _ => none

/-! ## A thread alone -/

/-- The breaker and the places of the threads after `n` accesses of thread `i` alone. -/
def alone (w : Threads) (i now n : Nat) : Option (CircuitBreaker × (Nat → Pc)) :=
  (Machine.run next w (List.replicate n (.access i now))).map fun w' => (w'.breaker, w'.pc)

variable {w : Threads} {i now : Nat}

theorem alone_zero : w.alone i now 0 = some (w.breaker, w.pc) := rfl

theorem alone_succ (hnow : w.now ≤ now) (n : Nat) :
    w.alone i now (n + 1) = (w.access i now (w.pc i)).bind (·.alone i now n) := by
  rw [alone, List.replicate_succ, Machine.run, next, if_neg (Nat.not_lt.mpr hnow),
    Option.map_bind]
  rfl

theorem passes_now (b : CircuitBreaker) (stores : List (Nat × CircuitState)) (pending : List Nat) :
    (Reading.mk b.openedAt stores pending).passes b.config now = b.cooldownElapsed now := rfl

/-- A thread alone is admitted as `try_admit` says. -/
theorem run_tryAdmit (hi : w.pc i = .idle) (hnow : w.now ≤ now) :
    ∃ n, w.alone i now n = some ((w.breaker.tryAdmit now).1,
      Function.update w.pc i (match (w.breaker.tryAdmit now).2 with
        | .ok g => .holding g.probe
        | .error _ => .idle)) := by
  have hidle : Function.update w.pc i .idle = w.pc := by rw [← hi, Function.update_eq_self]
  cases hs : w.breaker.state with
  | closed =>
    refine ⟨1, ?_⟩
    simp [alone_succ, alone_zero, hnow, hi, access, hs, enter, CircuitBreaker.tryAdmit]
    rw [← hs]
  | opened =>
    cases he : w.breaker.cooldownElapsed now with
    | true =>
      refine ⟨5, ?_⟩
      simp [alone_succ, alone_zero, hnow, hi, access, hs, he, passes_now, goto, store, enter,
        CircuitBreaker.tryAdmit]
    | false =>
      refine ⟨3, ?_⟩
      simp [alone_succ, alone_zero, hnow, hi, access, hs, he, passes_now, goto, hidle,
        CircuitBreaker.tryAdmit]
  | halfOpen =>
    refine ⟨2, ?_⟩
    cases hp : w.breaker.probeInFlight <;>
      simp [alone_succ, alone_zero, hnow, hi, access, hs, hp, goto, enter, hidle,
        CircuitBreaker.tryAdmit]

/-- A thread alone records as its guard does. -/
theorem run_record {probe success : Bool} (hi : w.pc i = .holding probe) (hnow : w.now ≤ now) :
    ∃ w', w.next (.record i success now) = some w' ∧ ∃ n, w'.alone i now n =
      some ((AdmitGuard.mk probe).record w.breaker success now, Function.update w.pc i .idle) := by
  refine ⟨w.goto i now (recordAt success probe), ?_, ?_⟩
  · simp [next, hi, Nat.not_lt.mpr hnow]
  cases success with
  | true =>
    cases probe with
    | true =>
      refine ⟨4, ?_⟩
      simp [alone_succ, alone_zero, access, goto, store, write, recordAt, AdmitGuard.record,
        CircuitBreaker.recordSuccess]
    | false =>
      refine ⟨1, ?_⟩
      simp [alone_succ, alone_zero, access, goto, write, recordAt, AdmitGuard.record,
        CircuitBreaker.recordSuccess]
  | false =>
    cases probe with
    | true =>
      refine ⟨4, ?_⟩
      simp [alone_succ, alone_zero, access, goto, store, write, stampAt, recordAt,
        AdmitGuard.record, CircuitBreaker.recordFailure]
    | false =>
      by_cases ht : w.breaker.config.threshold ≤ (w.breaker.consecutiveFailures + 1) % 2 ^ 32
      · by_cases hs : w.breaker.state = .closed
        · refine ⟨5, ?_⟩
          simp [alone_succ, alone_zero, access, goto, store, write, stampAt, recordAt,
            AdmitGuard.record, CircuitBreaker.recordFailure, ht, hs, -Nat.reducePow]
        · refine ⟨2, ?_⟩
          simp [alone_succ, alone_zero, access, goto, write, recordAt, AdmitGuard.record,
            CircuitBreaker.recordFailure, ht, hs, -Nat.reducePow]
      · refine ⟨1, ?_⟩
        simp [alone_succ, alone_zero, access, goto, write, recordAt, AdmitGuard.record,
          CircuitBreaker.recordFailure, ht, -Nat.reducePow]

end Threads

/-- The runs of the threads of a breaker with this configuration. -/
def threadMachine (config : CircuitBreakerConfig) : Machine Threads ThreadAction where
  init w := w.breaker = { config } ∧ (∀ i, w.pc i = .idle) ∧ w.stores = [] ∧ w.pending = [] ∧
    w.admitted = []
  step w a w' := w.next a = some w'

/-- The threads of a breaker that trips at once and cools down for a millisecond. -/
def start : Threads := { breaker := { config := ⟨1, 1⟩ }, now := 0 }

theorem start_init : (threadMachine ⟨1, 1⟩).init start := ⟨rfl, fun _ => rfl, rfl, rfl, rfl⟩

/-- Thread 0 trips the breaker. -/
def tripRun : List ThreadAction :=
  [.access 0 0, .record 0 false 0, .access 0 0, .access 0 0, .access 0 0, .access 0 0, .access 0 0]

end McpgSql.Breaker
