import Mathlib.Data.List.Infix
import McpgSql.Breaker.Threads

/-!
# Cooling down

A `try_admit` whose load of the state comes less than the cooldown after a store of
open is to be admitted only if the breaker was closed in between. The state is
published before `opened_at` is written and cleared after it, the time that is
written is read before the lock is taken, and the load, the reading of the time,
the comparison and the store of half-open are four steps: a thread may be admitted
at once (`admitted_too_soon`). In the runs that stay out of these windows (`Timely`)
the cooldown is honoured (`cooldown_honoured`):

* `opens`: when the breaker was opened since it was last closed;
* `Cooled.stamped`: `opened_at` is not before any of them, unless a thread is about
  to write it;
* `Cooled.elapsed`: so a comparison that passes is past every cooldown.
-/

namespace McpgSql.Breaker

open Library

/-! ## Openings -/

/-- When the breaker was opened since it was last closed. -/
def opens : List (Nat × CircuitState) → List Nat
  | [] => []
  | (_, .closed) :: _ => []
  | (t, .opened) :: stores => t :: opens stores
  | (_, .halfOpen) :: stores => opens stores

theorem mem_opens {t : Nat} {stores : List (Nat × CircuitState)} (h : t ∈ opens stores) :
    (t, .opened) ∈ stores := by
  fun_induction opens stores with
  | case1 | case2 => cases h
  | case3 u stores ih =>
    rcases List.mem_cons.mp h with rfl | h
    · exact List.mem_cons_self
    · exact List.mem_cons_of_mem _ (ih h)
  | case4 u stores ih => exact List.mem_cons_of_mem _ (ih h)

/-- An opening with no store of closed after it. -/
theorem mem_opens_of_split {later earlier : List (Nat × CircuitState)} {t : Nat}
    (h : ∀ t', (t', .closed) ∉ later) : t ∈ opens (later ++ (t, .opened) :: earlier) := by
  induction later with
  | nil => exact List.mem_cons_self
  | cons p later ih =>
    have ih := ih fun t' hmem => h t' (List.mem_cons_of_mem _ hmem)
    obtain ⟨u, s⟩ := p
    cases s with
    | closed => exact absurd List.mem_cons_self (h u)
    | opened => exact List.mem_cons_of_mem _ ih
    | halfOpen => exact ih

/-- Where no opening is stored after them, the openings are among those of the earlier
stores. -/
theorem opens_append {t : Nat} {new stores : List (Nat × CircuitState)}
    (hnew : ∀ p ∈ new, p.2 ≠ .opened) (h : t ∈ opens (new ++ stores)) : t ∈ opens stores := by
  induction new with
  | nil => exact h
  | cons p new ih =>
    have ih := ih fun q hq => hnew q (List.mem_cons_of_mem _ hq)
    obtain ⟨u, s⟩ := p
    cases s with
    | closed => cases h
    | opened => exact absurd rfl (hnew _ List.mem_cons_self)
    | halfOpen => exact ih h

/-! ## The windows -/

/-- What was stored since a load. -/
def Threads.since (w : Threads) (load : Load) : List (Nat × CircuitState) :=
  w.stores.take (w.stores.length - load.stores.length)

/-- No store of open is newer than the time. -/
def Latest (time : Nat) (stores : List (Nat × CircuitState)) : Prop :=
  ∀ p ∈ stores, p.2 = .opened → p.1 ≤ time

instance (time : Nat) (stores : List (Nat × CircuitState)) : Decidable (Latest time stores) :=
  inferInstanceAs (Decidable (∀ p ∈ stores, p.2 = .opened → p.1 ≤ time))

/-- An access outside the windows. A comparison with the clock that passes is of a time
that was read while the breaker was not closed since it was opened and `opened_at` was
written, and does not come after a cooldown that its load came within. A store of
half-open finds that the breaker was not opened since the load. A time that is written is
not older than a store of open, or another thread is yet to write one. Where `opened_at` is
cleared, the breaker was not opened since it was closed. -/
def Pc.Timely (pc : Pc) (w : Threads) (i now : Nat) : Prop :=
  match pc with
  | .elapsed load reading => reading.passes w.breaker.config now = true →
      opens reading.stores ≠ [] ∧ reading.pending = [] ∧
      ∀ p ∈ load.stores, p.2 = .opened → load.now < p.1 + w.breaker.config.cooldown →
        now < p.1 + w.breaker.config.cooldown
  | .halfOpen load => ∀ p ∈ w.since load, p.2 ≠ .opened
  | .stampAt time | .stampTripAt time => w.pending.erase i = [] → Latest time w.stores
  | .forget => opens w.stores = []
  | _ => True

/-- The steps outside the windows. -/
def Timely (w : Threads) : ThreadAction → Prop
  | .access i now => (w.pc i).Timely w i now
  | .record .. => True

instance (w : Threads) (a : ThreadAction) : Decidable (Timely w a) := by
  cases a with
  | record i success now => exact isTrue trivial
  | access i now =>
    simp only [Timely]
    generalize w.pc i = pc
    cases pc <;> simp only [Pc.Timely] <;> infer_instance

/-! ## The invariant -/

/-- The load comes after the cooldown of every opening that no closing followed. -/
def Load.Honoured (load : Load) (cooldown : Nat) : Prop :=
  ∀ t ∈ opens load.stores, t + cooldown ≤ load.now

/-- A thread is yet to write `opened_at`, or the breaker was closed since it was opened, or
`opened_at` is the time of the last store of open or a later one. -/
def Stamped (pending : List Nat) (stores : List (Nat × CircuitState)) (openedAt : Option Nat) :
    Prop :=
  pending ≠ [] ∨ opens stores = [] ∨ ∃ t', openedAt = some t' ∧ Latest t' stores

/-- What a thread knows of its load. -/
def Pc.Knows (pc : Pc) (cooldown : Nat) (stores : List (Nat × CircuitState)) (now : Nat) : Prop :=
  match pc with
  | .check load => load.stores <:+ stores ∧ load.now ≤ now
  | .elapsed load reading => load.stores <:+ stores ∧ load.now ≤ now ∧
      load.stores <:+ reading.stores ∧
      Stamped reading.pending reading.stores reading.openedAt
  | .halfOpen load => load.stores <:+ stores ∧ load.now ≤ now ∧ load.Honoured cooldown
  | .claim load | .exchange load => load.Honoured cooldown
  | _ => True

structure Cooled (config : CircuitBreakerConfig) (w : Threads) : Prop where
  same : w.breaker.config = config
  past : ∀ p ∈ w.stores, p.1 ≤ w.now
  closed : w.breaker.state = .closed → opens w.stores = []
  halfOpen : w.breaker.state = .halfOpen → ∀ t ∈ opens w.stores, t + config.cooldown ≤ w.now
  stamped : Stamped w.pending w.stores w.breaker.openedAt
  knows : ∀ i, (w.pc i).Knows config.cooldown w.stores w.now
  admitted : ∀ load ∈ w.admitted, load.Honoured config.cooldown

section

variable {config : CircuitBreakerConfig} {w w' : Threads} {i now : Nat} {pc : Pc}

theorem Pc.Knows.mono {cooldown now now' : Nat} {stores stores' : List (Nat × CircuitState)}
    (h : pc.Knows cooldown stores now) (hs : stores <:+ stores') (hnow : now ≤ now') :
    pc.Knows cooldown stores' now' := by
  cases pc with
  | check load => exact ⟨h.1.trans hs, h.2.trans hnow⟩
  | elapsed load reading => exact ⟨h.1.trans hs, h.2.1.trans hnow, h.2.2⟩
  | halfOpen load => exact ⟨h.1.trans hs, h.2.1.trans hnow, h.2.2⟩
  | claim load | exchange load => exact h
  | idle | holding | reset | releaseSuccess | close | forget | releaseFailure | reopen | stamp
  | stampAt | count | trip | stampTrip | stampTripAt | countTrip => trivial

/-- A step of thread `i` to `pc`, from what it stores and writes. -/
theorem Cooled.of_step (h : Cooled config w) (hnow : w.now ≤ now) (hnow' : w'.now = now)
    (hpc : w'.pc = Function.update w.pc i pc) (hs : w.stores <:+ w'.stores)
    (hpast : ∀ p ∈ w'.stores, p.1 ≤ now) (hconfig : w'.breaker.config = w.breaker.config)
    (hclosed : w'.breaker.state = .closed → opens w'.stores = [])
    (hhalf : w'.breaker.state = .halfOpen → ∀ t ∈ opens w'.stores, t + config.cooldown ≤ now)
    (hstamped : Stamped w'.pending w'.stores w'.breaker.openedAt)
    (hknows : pc.Knows config.cooldown w'.stores now)
    (hadmitted : ∀ load ∈ w'.admitted, load.Honoured config.cooldown) : Cooled config w' where
  same := hconfig.trans h.same
  past := by rwa [hnow']
  closed := hclosed
  halfOpen := by rwa [hnow']
  stamped := hstamped
  knows := by
    intro j
    rw [hnow', hpc]
    by_cases hj : j = i
    · subst hj
      rwa [Function.update_self]
    · rw [Function.update_of_ne hj]
      exact (h.knows j).mono hs hnow
  admitted := hadmitted

/-- A step that stores no state. -/
theorem Cooled.of_unstored (h : Cooled config w) (hnow : w.now ≤ now) (hnow' : w'.now = now)
    (hpc : w'.pc = Function.update w.pc i pc) (hs : w'.stores = w.stores)
    (hconfig : w'.breaker.config = w.breaker.config)
    (hstate : w'.breaker.state = w.breaker.state)
    (hstamped : Stamped w'.pending w.stores w'.breaker.openedAt)
    (hknows : pc.Knows config.cooldown w.stores now)
    (hadmitted : ∀ load ∈ w'.admitted, load.Honoured config.cooldown) : Cooled config w' := by
  refine h.of_step hnow hnow' hpc (by rw [hs]) ?_ hconfig ?_ ?_ (by rwa [hs]) (by rwa [hs]) hadmitted
  · intro p hp
    rw [hs] at hp
    exact (h.past p hp).trans hnow
  · rw [hstate, hs]
    exact h.closed
  · rw [hstate, hs]
    intro hhalf t ht
    exact (h.halfOpen hhalf t ht).trans hnow

/-- A step that only goes on. -/
theorem Cooled.goto (h : Cooled config w) (hnow : w.now ≤ now)
    (hknows : pc.Knows config.cooldown w.stores now) : Cooled config (w.goto i now pc) :=
  h.of_unstored hnow rfl rfl rfl rfl rfl h.stamped hknows h.admitted

/-- An admission. -/
theorem Cooled.enter (h : Cooled config w) (hnow : w.now ≤ now) {load : Load}
    (hload : load.Honoured config.cooldown) {probe : Bool} :
    Cooled config (w.enter i now load probe) := by
  refine h.of_unstored hnow rfl rfl rfl rfl rfl h.stamped trivial ?_
  intro l hl
  rcases List.mem_cons.mp hl with rfl | hl
  · exact hload
  · exact h.admitted l hl

/-- A write of `opened_at`, of a time that is not older than a store of open, or that another
thread is yet to overwrite. -/
theorem Cooled.stampAt (h : Cooled config w) (hnow : w.now ≤ now) {time : Nat}
    (hlatest : w.pending.erase i = [] → Latest time w.stores)
    (hknows : pc.Knows config.cooldown w.stores now) : Cooled config (w.stampAt i now time pc) := by
  refine h.of_unstored hnow rfl rfl rfl rfl rfl ?_ hknows h.admitted
  by_cases hpending : w.pending.erase i = []
  · exact .inr (.inr ⟨time, rfl, hlatest hpending⟩)
  · exact .inl hpending

/-- A store of the state. -/
theorem Cooled.store (h : Cooled config w) (hnow : w.now ≤ now) {state : CircuitState}
    (hhalf : state = .halfOpen → ∀ t ∈ opens w.stores, t + config.cooldown ≤ now)
    (hknows : pc.Knows config.cooldown ((now, state) :: w.stores) now) :
    Cooled config (w.store i now state pc) := by
  refine h.of_step hnow rfl rfl (List.suffix_cons _ _) ?_ rfl ?_ ?_ ?_ hknows h.admitted
  · intro p hp
    rcases List.mem_cons.mp hp with rfl | hp
    · exact le_rfl
    · exact (h.past p hp).trans hnow
  · rintro (rfl : state = .closed)
    rfl
  · rintro (rfl : state = .halfOpen)
    exact hhalf rfl
  · cases state with
    | closed => exact .inr (.inl rfl)
    | opened => exact .inl (List.cons_ne_nil i w.pending)
    | halfOpen =>
      rcases h.stamped with hpending | hempty | ⟨t', ht', hle⟩
      · exact .inl hpending
      · exact .inr (.inl hempty)
      · refine .inr (.inr ⟨t', ht', ?_⟩)
        intro p hp hpo
        rcases List.mem_cons.mp hp with rfl | hp
        · cases hpo
        · exact hle p hp hpo

/-- A comparison that passes comes after every cooldown its load came within. -/
theorem Cooled.elapsed (h : Cooled config w) (hnow : w.now ≤ now) {load : Load} {reading : Reading}
    (hi : w.pc i = .elapsed load reading) (hok : Timely w (.access i now))
    (he : reading.passes w.breaker.config now = true) : load.Honoured config.cooldown := by
  simp only [Timely, hi, Pc.Timely] at hok
  obtain ⟨hopen, hpending, hdelay⟩ := hok he
  have hknows := h.knows i
  rw [hi] at hknows
  obtain ⟨hsuffix, -, hseen, hstamped⟩ := hknows
  obtain ⟨t', ht', hle⟩ : ∃ t', reading.openedAt = some t' ∧ Latest t' reading.stores := by
    rcases hstamped with hne | hempty | hrest
    · exact absurd hpending hne
    · exact absurd hempty hopen
    · exact hrest
  intro t ht
  have hmem := mem_opens ht
  have hle : t ≤ t' := hle _ (hseen.mem hmem) rfl
  have hpast := h.past _ (hsuffix.mem hmem)
  have hdelay := hdelay _ hmem rfl
  simp only [Reading.passes, CircuitBreaker.cooldownElapsed, ht', decide_eq_true_eq, h.same] at he hdelay
  by_contra hlt
  have := hdelay (by omega)
  omega

/-- An access of a thread outside the windows. -/
theorem Cooled.access (h : Cooled config w) (hnow : w.now ≤ now)
    (hok : Timely w (.access i now)) (hst : w.access i now (w.pc i) = some w') :
    Cooled config w' := by
  have hknows := h.knows i
  cases hp : w.pc i with
  | idle =>
    simp only [hp, Threads.access] at hst
    split at hst
    · rename_i hs
      cases hst
      exact h.enter hnow (by simp [Load.Honoured, h.closed hs])
    · cases hst
      exact h.goto hnow ⟨List.suffix_rfl, le_rfl⟩
    · rename_i hs
      cases hst
      exact h.goto hnow fun t ht => (h.halfOpen hs t ht).trans hnow
  | check load =>
    simp only [hp, Threads.access, Option.some.injEq] at hst hknows
    subst hst
    exact h.goto hnow ⟨hknows.1, hknows.2.trans hnow, hknows.1, h.stamped⟩
  | elapsed load reading =>
    simp only [hp, Threads.access, Option.some.injEq] at hst hknows
    subst hst
    refine h.goto hnow ?_
    split
    · rename_i he
      exact ⟨hknows.1, hknows.2.1.trans hnow, h.elapsed hnow hp hok he⟩
    · trivial
  | halfOpen load =>
    simp only [hp, Threads.access, Option.some.injEq] at hst hknows
    subst hst
    obtain ⟨⟨new, hnew⟩, hle, hload⟩ := hknows
    refine h.store hnow ?_ hload
    rintro - t ht
    simp only [Timely, hp, Pc.Timely, Threads.since, ← hnew, List.length_append, Nat.add_sub_cancel,
      List.take_left] at hok
    rw [← hnew] at ht
    have := hload t (opens_append hok ht)
    omega
  | claim load =>
    simp only [hp, Threads.access, Option.some.injEq] at hst hknows
    subst hst
    exact h.enter hnow hknows
  | exchange load =>
    simp only [hp, Threads.access] at hst hknows
    split at hst
    · cases hst
      exact h.goto hnow trivial
    · cases hst
      exact h.enter hnow hknows
  | holding probe => simp [hp, Threads.access] at hst
  | close | reopen =>
    simp only [hp, Threads.access, Option.some.injEq] at hst
    subst hst
    exact h.store hnow (by intro hs; cases hs) trivial
  | trip =>
    simp only [hp, Threads.access] at hst
    split at hst
    · cases hst
      exact h.store hnow (by intro hs; cases hs) trivial
    · cases hst
      exact h.goto hnow trivial
  | forget =>
    simp only [Timely, hp, Pc.Timely] at hok
    simp only [hp, Threads.access, Option.some.injEq] at hst
    subst hst
    exact h.of_unstored hnow rfl rfl rfl rfl rfl (.inr (.inl hok)) trivial h.admitted
  | stampAt time | stampTripAt time =>
    simp only [Timely, hp, Pc.Timely] at hok
    simp only [hp, Threads.access, Option.some.injEq] at hst
    subst hst
    exact h.stampAt hnow hok trivial
  | stamp | stampTrip =>
    simp only [hp, Threads.access, Option.some.injEq] at hst
    subst hst
    exact h.goto hnow trivial
  | reset | releaseSuccess | releaseFailure | count | countTrip =>
    simp only [hp, Threads.access, Option.some.injEq] at hst
    subst hst
    refine h.of_unstored hnow rfl rfl rfl rfl rfl h.stamped ?_ h.admitted
    first | trivial | split <;> trivial

theorem Cooled.next {a : ThreadAction} (h : Cooled config w) (hok : Timely w a)
    (hst : w.next a = some w') : Cooled config w' := by
  cases a with
  | access i now =>
    simp only [Threads.next] at hst
    split at hst
    · cases hst
    · rename_i hnow
      exact h.access (Nat.not_lt.mp hnow) hok hst
  | record i success now =>
    simp only [Threads.next] at hst
    split at hst
    · cases hst
    · rename_i hnow
      split at hst
      · rename_i probe hp
        cases hst
        refine h.goto (Nat.not_lt.mp hnow) ?_
        cases success <;> cases probe <;> trivial
      · cases hst

end

theorem reach_cooled {config : CircuitBreakerConfig} {w : Threads}
    (h : (threadMachine config).Reach Timely w) : Cooled config w := by
  refine h.invariant (fun h₀ => ?_) fun hok hst h => h.next hok hst
  obtain ⟨hb, hpc, hs, -, ha⟩ := h₀
  exact ⟨by rw [hb], by simp [hs], by simp [hs, opens], by simp [hb], .inr (.inl (by rw [hs]; rfl)),
    fun i => by rw [hpc]; trivial, by simp [ha]⟩

/-- In the runs outside the windows, a `try_admit` whose load of the state comes after
a store of open and less than the cooldown after it is admitted only if the
breaker was closed in between. -/
theorem cooldown_honoured {config : CircuitBreakerConfig} {w : Threads}
    (h : (threadMachine config).Reach Timely w) {load : Load} (hload : load ∈ w.admitted)
    {later earlier : List (Nat × CircuitState)} {t : Nat}
    (hopened : load.stores = later ++ (t, .opened) :: earlier)
    (hsoon : load.now < t + config.cooldown) : ∃ t', (t', .closed) ∈ later := by
  by_contra hclosed
  simp only [not_exists] at hclosed
  have hmem : t ∈ opens (later ++ (t, .opened) :: earlier) := mem_opens_of_split hclosed
  rw [← hopened] at hmem
  have := (reach_cooled h).admitted load hload t hmem
  omega

/-- Threads 1 and 2 are both probes. The failure of one opens the breaker again, the
success of the other closes it, and thread 3 is admitted. -/
def closedBetweenRun : List ThreadAction :=
  tripRun ++ [.access 1 1000000, .access 2 1000000, .access 1 1000000, .access 2 1000000,
    .access 1 1000000, .access 2 1000000, .access 1 1000000, .access 2 1000000,
    .access 1 1000000, .access 2 1000000,
    .record 1 false 1000001, .access 1 1000001, .access 1 1000001, .access 1 1000001, .access 1 1000001,
    .record 2 true 1000002, .access 2 1000002, .access 2 1000002, .access 2 1000002,
    .access 2 1000002, .access 3 1000003]

/-- The stores of the state before thread 3 loads it. -/
def closedBetweenStores : List (Nat × CircuitState) :=
  [(1000002, .closed), (1000001, .opened), (1000000, .halfOpen), (1000000, .halfOpen),
    (0, .opened)]

theorem cooldown_honoured_of_closed :
    ∃ w, (threadMachine ⟨1, 1⟩).Reach Timely w ∧ ⟨1000003, closedBetweenStores⟩ ∈ w.admitted ∧
      ∃ t', (t', CircuitState.closed) ∈ [(1000002, CircuitState.closed)] := by
  have hrun : (Machine.run Threads.next start closedBetweenRun).any
      (fun w => (⟨1000003, closedBetweenStores⟩ : Load) ∈ w.admitted) = true := by
    decide
  obtain ⟨w, hw, hload⟩ := Option.any_eq_true _ _ |>.mp hrun
  have hload := of_decide_eq_true hload
  have hok : Machine.Along Threads.next Timely start closedBetweenRun := by decide
  have hreach : (threadMachine ⟨1, 1⟩).Reach Timely w :=
    (Machine.Reach.init start_init).along (fun _ h => h) hok hw
  exact ⟨w, hreach, hload, cooldown_honoured hreach hload
    (show closedBetweenStores = [(1000002, .closed)] ++ (1000001, .opened) :: _ from rfl)
    (by decide)⟩

/-- Thread 0 publishes open; thread 1 finds it open and no time written. -/
def tooSoonRun : List ThreadAction :=
  [.access 0 5, .record 0 false 5, .access 0 5, .access 0 5, .access 1 6, .access 1 6, .access 1 6,
    .access 1 6, .access 1 6]

/-- A thread is admitted a nanosecond after the breaker was opened. -/
theorem admitted_too_soon :
    ¬ ∀ w, (threadMachine ⟨1, 1⟩).Reach (fun _ _ => True) w → ∀ load ∈ w.admitted,
      ∀ later t earlier, load.stores = later ++ (t, .opened) :: earlier →
        load.now < t + (⟨1, 1⟩ : CircuitBreakerConfig).cooldown →
        ∃ t', (t', CircuitState.closed) ∈ later := by
  have hrun : (Machine.run Threads.next start tooSoonRun).any
      (fun w => (⟨6, [(5, .opened)]⟩ : Load) ∈ w.admitted) = true := by
    decide
  obtain ⟨w, hw, hload⟩ := Option.any_eq_true _ _ |>.mp hrun
  have hreach : (threadMachine ⟨1, 1⟩).Reach (fun _ _ => True) w :=
    (Machine.Reach.init start_init).run (fun _ h => h) (fun _ _ _ => trivial) hw
  intro hall
  obtain ⟨t', ht'⟩ := hall w hreach _ (of_decide_eq_true hload) [] 5 [] rfl (by decide)
  cases ht'

end McpgSql.Breaker
