import McpgSql.Pool.Interleaving

/-!
# The sweeper of idle pools

The task that `spawn_idle_sweeper` starts: at every tick of its interval it reads
the clock, waits for the lock and drops the pools that were not used within the
idle time. The callers of the registry run between any two of its steps.

`idle_pool_dropped`: a pool stays in the registry for the idle time and one round
of the sweeper after its last use, and no longer. A tick that comes late puts the
ticks after it back.

* `OnTime`: how far the clock is past the last sweep;
* `Touched`: the pools that are there were used since that sweep, or were not idle
  at it.
-/

namespace McpgSql.Pool

open Library

variable {δ P : Type} [LinearOrder δ]

/-! ## The task -/

/-- Asleep since a time until its tick is due, or waiting for the lock with its reading of
the clock. -/
inductive Sweeper where
  | asleep (since due : Nat)
  | sweeping (reading due : Nat)
deriving DecidableEq, Repr

/-- The tick after one that was due at `due` and came at `now`: with
`MissedTickBehavior::Delay` a tick more than 5 ms late puts the next one back. -/
def nextTick (interval due now : Nat) : Nat :=
  if due + 5 < now then now + interval else due + interval

/-- The registry and its sweeper. -/
structure Swept (δ P : Type) [LinearOrder δ] where
  reg : RegState δ P := {}
  sweeper : Sweeper
  /-- The reading of the last sweep; no operation reads it. -/
  swept : Nat := 0

inductive SweptAction (δ P : Type) where
  /-- A step of the callers, or of time. -/
  | caller (a : RegAction δ P)
  /-- A tick: the sweeper reads the clock. -/
  | wake
  /-- The section of `sweep_idle`. -/
  | sweep
deriving DecidableEq

/-- The sweeps of the sweeper are its own steps. -/
def RegAction.isSweep : RegAction δ P → Bool
  | .startSweep | .sweep _ => true
  | _ => false

def Swept.next (config : PoolRegistryConfig) (interval : Nat) (s : Swept δ P) :
    SweptAction δ P → Option (Swept δ P)
  | .caller a =>
    if a.isSweep then none else (s.reg.next config a).map fun reg => { s with reg }
  | .wake => match s.sweeper with
    | .asleep _ due =>
      if due ≤ s.reg.clock then
        some { s with sweeper := .sweeping s.reg.clock (nextTick interval due s.reg.clock) }
      else none
    | .sweeping .. => none
  | .sweep => match s.sweeper with
    | .sweeping reading due => some {
        reg := s.reg.dropTo (sweepIdle config reading s.reg.pools).2
        sweeper := .asleep s.reg.clock due
        swept := reading }
    | .asleep .. => none

/-- A new registry and its sweeper, whose first tick was taken at once. -/
def sweeping (config : PoolRegistryConfig) (interval : Nat) :
    Machine (Swept δ P) (SweptAction δ P) where
  init s := s = { sweeper := .asleep 0 interval }
  step s a s' := s.next config interval a = some s'

/-- A tick is taken at most `late` after it is due and the sweeper sleeps, and the lock at
most `wait` after the reading. -/
def Swept.Punctual (late wait : Nat) (s : Swept δ P) : SweptAction δ P → Prop
  | .caller (.tick ms) => match s.sweeper with
    | .asleep since due => s.reg.clock + ms ≤ max since due + late
    | .sweeping reading _ => s.reg.clock + ms ≤ reading + wait
  | _ => True

instance (late wait : Nat) (s : Swept δ P) (a : SweptAction δ P) :
    Decidable (s.Punctual late wait a) := by
  unfold Swept.Punctual
  split
  · split <;> infer_instance
  · infer_instance

/-! ## The clock -/

variable {config : PoolRegistryConfig} {interval late wait : Nat} {s s' : Swept δ P}

/-- How far the sweeper is past its last sweep. -/
def Sweeper.Near (interval late wait swept clock : Nat) : Sweeper → Prop
  | .asleep since due =>
    since ≤ swept + wait ∧ due ≤ swept + interval ∧ clock ≤ max since due + late
  | .sweeping reading due =>
    reading ≤ swept + max interval wait + late ∧ due ≤ reading + interval ∧
      reading ≤ clock ∧ clock ≤ reading + wait

structure Swept.OnTime (interval late wait : Nat) (s : Swept δ P) : Prop where
  near : s.sweeper.Near interval late wait s.swept s.reg.clock
  swept : s.swept ≤ s.reg.clock

/-- A round of the sweeper takes the interval and the delays. -/
theorem Swept.OnTime.clock_le (h : s.OnTime interval late wait) :
    s.reg.clock ≤ s.swept + (max interval wait + late + wait) := by
  have hnear := h.near
  cases hs : s.sweeper with
  | asleep since due =>
    simp only [hs, Sweeper.Near] at hnear
    omega
  | sweeping reading due =>
    simp only [hs, Sweeper.Near] at hnear
    omega

theorem nextTick_le {due now : Nat} (h : due ≤ now) : nextTick interval due now ≤ now + interval := by
  unfold nextTick
  split <;> omega

/-- The callers only let time pass. -/
theorem clock_of_next {reg reg' : RegState δ P} {a : RegAction δ P}
    (h : reg.next config a = some reg') :
    reg'.clock = reg.clock ∨ ∃ ms, a = .tick ms ∧ reg'.clock = reg.clock + ms := by
  cases stepped_of_next h with
  | tick ms => exact .inr ⟨ms, rfl, rfl⟩
  | enter hi => exact .inl rfl
  | _ => exact .inl rfl

theorem Swept.OnTime.step {a : SweptAction δ P} (h : s.OnTime interval late wait)
    (hok : s.Punctual late wait a) (hstep : s.next config interval a = some s') :
    s'.OnTime interval late wait := by
  obtain ⟨hnear, hswept⟩ := h
  cases a with
  | caller a =>
    simp only [Swept.next] at hstep
    split at hstep
    · cases hstep
    · obtain ⟨reg, hreg, rfl⟩ := Option.map_eq_some_iff.mp hstep
      rcases clock_of_next hreg with hclock | ⟨ms, rfl, hclock⟩
      · refine ⟨?_, ?_⟩
        · show s.sweeper.Near interval late wait s.swept reg.clock
          rw [hclock]
          exact hnear
        · show s.swept ≤ reg.clock
          rw [hclock]
          exact hswept
      · refine ⟨?_, ?_⟩
        · show s.sweeper.Near interval late wait s.swept reg.clock
          rw [hclock]
          cases hs : s.sweeper with
          | asleep since due =>
            simp only [Swept.Punctual, hs, Sweeper.Near] at hok hnear ⊢
            omega
          | sweeping reading due =>
            simp only [Swept.Punctual, hs, Sweeper.Near] at hok hnear ⊢
            omega
        · show s.swept ≤ reg.clock
          omega
  | wake =>
    cases hs : s.sweeper with
    | asleep since due =>
      simp only [Swept.next, hs] at hstep
      split at hstep
      · rename_i hdue
        cases hstep
        refine ⟨?_, hswept⟩
        have htick : nextTick interval due s.reg.clock ≤ s.reg.clock + interval := nextTick_le hdue
        simp only [hs, Sweeper.Near] at hnear ⊢
        omega
      · cases hstep
    | sweeping reading due => simp [Swept.next, hs] at hstep
  | sweep =>
    cases hs : s.sweeper with
    | asleep since due => simp [Swept.next, hs] at hstep
    | sweeping reading due =>
      simp only [Swept.next, hs, Option.some.injEq] at hstep
      subst hstep
      simp only [hs, Sweeper.Near] at hnear
      refine ⟨?_, ?_⟩
      · simp only [RegState.dropTo, Sweeper.Near]
        omega
      · simp only [RegState.dropTo]
        omega

/-! ## The pools -/

/-- The pool was used since the last sweep, or was not idle at it. -/
structure Swept.Touched (config : PoolRegistryConfig) (s : Swept δ P) : Prop where
  recent : ∀ d e, s.reg.pools.get? d = some e → e.lastUsed ≤ s.reg.touched d ∧
    (s.swept ≤ s.reg.touched d ∨ s.swept < e.lastUsed + config.idleEvictionMs)
  reading : ∀ call reading, .locking call reading ∈ s.reg.waiting → reading ≤ s.reg.clock

/-- Fewer pools, and no new reading. -/
theorem Swept.Touched.of_subset (h : s.Touched config) (hswept : s'.swept = s.swept)
    (htouched : s'.reg.touched = s.reg.touched) (hclock : s.reg.clock ≤ s'.reg.clock)
    (hpools : ∀ d e, s'.reg.pools.get? d = some e → s.reg.pools.get? d = some e)
    (hwaiting : ∀ call reading, .locking call reading ∈ s'.reg.waiting →
      .locking call reading ∈ s.reg.waiting) : s'.Touched config where
  recent d e he := by
    rw [htouched, hswept]
    exact h.recent d e (hpools d e he)
  reading call reading hr := le_trans (h.reading call reading (hwaiting call reading hr)) hclock

/-- A pool is stored at the time of the section, over some of those that were there. -/
theorem Swept.Touched.stored (h : s.Touched config) (hle : s.swept ≤ s.reg.clock) {i : Nat} {d : δ}
    {e : PoolEntry (Opened P)} {pools : Pools δ (Opened P)}
    (hsub : ∀ d' e', pools.get? d' = some e' → s.reg.pools.get? d' = some e')
    (he : e.lastUsed ≤ s.reg.clock) (hpools : s'.reg.pools = pools.insert d e)
    (htouched : s'.reg.touched = Function.update s.reg.touched d s.reg.clock)
    (hclock : s'.reg.clock = s.reg.clock) (hwaiting : s'.reg.waiting = s.reg.waiting.eraseIdx i)
    (hswept : s'.swept = s.swept) : s'.Touched config := by
  refine ⟨fun d' e' he' => ?_, fun call reading hr => ?_⟩
  · rw [hpools, OrdMap.get?_insert] at he'
    rw [htouched, hswept]
    split at he'
    · rename_i hdd
      cases he'
      rw [← hdd, Function.update_self]
      exact ⟨he, .inl hle⟩
    · rename_i hdd
      rw [Function.update_of_ne (Ne.symm hdd)]
      exact h.recent d' e' (hsub d' e' he')
  · rw [hwaiting] at hr
    rw [hclock]
    exact h.reading call reading (List.mem_of_mem_eraseIdx hr)

theorem Swept.Touched.caller {reg : RegState δ P} {a : RegAction δ P} (h : s.Touched config)
    (hswept : s.swept ≤ s.reg.clock) (hreg : s.reg.next config a = some reg) :
    ({ s with reg } : Swept δ P).Touched config := by
  cases stepped_of_next hreg with
  | tick ms => exact h.of_subset rfl rfl (Nat.le_add_right _ _) (fun _ _ => id) fun _ _ => id
  | resolve digest credKeys =>
    exact h.of_subset rfl rfl le_rfl (fun _ _ => id) fun call reading hr => by simpa using hr
  | @readClock i call hi =>
    refine ⟨h.recent, fun call' reading hr => ?_⟩
    rcases List.mem_or_eq_of_mem_set hr with hr | hr
    · exact h.reading call' reading hr
    · cases hr
      exact le_rfl
  | @enter i call reading build hi =>
    have hreading : reading ≤ s.reg.clock := h.reading call reading (List.mem_of_getElem? hi)
    cases hd : s.reg.pools.get? call.digest with
    | some e =>
      rw [entered_hit hd]
      exact h.stored hswept (fun _ _ => id) hreading rfl rfl rfl rfl rfl
    | none =>
      cases hb : build with
      | error err =>
        rw [entered_failed hd rfl]
        exact h.of_subset rfl rfl le_rfl (fun _ _ => id) fun _ _ => List.mem_of_mem_eraseIdx
      | ok pool =>
        rw [entered_built hd rfl]
        exact h.stored hswept (fun _ _ => get?_evictLru) hreading rfl rfl rfl rfl rfl
  | startSweep =>
    exact h.of_subset rfl rfl le_rfl (fun _ _ => id) fun call reading hr => by simpa using hr
  | sweep hi =>
    exact h.of_subset rfl rfl le_rfl (fun d e he => (OrdMap.get?_of_filter he).1) fun _ _ =>
      List.mem_of_mem_eraseIdx
  | evictFor pluginId target =>
    exact h.of_subset rfl rfl le_rfl (fun d e he => (OrdMap.get?_of_filter he).1) fun _ _ => id
  | evictForSecret =>
    exact h.of_subset rfl rfl le_rfl (fun d e he => by cases he) fun _ _ => id

/-- A sweep leaves what was not idle at its reading. -/
theorem Swept.Touched.sweep (h : s.Touched config) {reading due : Nat} :
    ({ reg := s.reg.dropTo (sweepIdle config reading s.reg.pools).2
       sweeper := .asleep s.reg.clock due
       swept := reading } : Swept δ P).Touched config := by
  refine ⟨fun d e he => ?_, fun call r hr => h.reading call r hr⟩
  obtain ⟨hget, hkept⟩ := OrdMap.get?_of_filter he
  have hfresh : reading - e.lastUsed < config.idleEvictionMs := by simpa using hkept
  refine ⟨(h.recent d e hget).1, .inr ?_⟩
  show reading < e.lastUsed + config.idleEvictionMs
  omega

theorem Swept.Touched.step {a : SweptAction δ P} (h : s.Touched config)
    (hswept : s.swept ≤ s.reg.clock) (hstep : s.next config interval a = some s') :
    s'.Touched config := by
  cases a with
  | caller a =>
    simp only [Swept.next] at hstep
    split at hstep
    · cases hstep
    · obtain ⟨reg, hreg, rfl⟩ := Option.map_eq_some_iff.mp hstep
      exact h.caller hswept hreg
  | wake =>
    cases hs : s.sweeper with
    | asleep since due =>
      simp only [Swept.next, hs] at hstep
      split at hstep
      · cases hstep
        exact ⟨h.recent, h.reading⟩
      · cases hstep
    | sweeping reading due => simp [Swept.next, hs] at hstep
  | sweep =>
    cases hs : s.sweeper with
    | asleep since due => simp [Swept.next, hs] at hstep
    | sweeping reading due =>
      simp only [Swept.next, hs, Option.some.injEq] at hstep
      subst hstep
      exact h.sweep

/-! ## Runs -/

/-- With a punctual sweeper every pool in the registry was used within the idle time and a
round of the sweeper, over any callers, revocations and rotations. -/
theorem idle_pool_dropped (h : (sweeping config interval).Reach (Swept.Punctual late wait) s)
    {d : δ} {e : PoolEntry (Opened P)} (he : s.reg.pools.get? d = some e) :
    s.reg.clock ≤ s.reg.touched d + config.idleEvictionMs + (max interval wait + late + wait) := by
  have hboth : s.OnTime interval late wait ∧ s.Touched config := by
    refine h.invariant (I := fun s => s.OnTime interval late wait ∧ s.Touched config)
      (fun h₀ => ?_) fun hok hstep hI => ⟨hI.1.step hok hstep, hI.2.step hI.1.swept hstep⟩
    cases h₀
    refine ⟨⟨?_, le_rfl⟩, ⟨?_, ?_⟩⟩
    · simp only [Sweeper.Near]
      omega
    · intro d e he; cases he
    · intro call reading hr; cases hr
  have hclock := hboth.1.clock_le
  obtain ⟨hused, hrecent⟩ := hboth.2.recent d e he
  omega

/-- A caller, and no other for 13 ms. -/
def idleRun : List (SweptAction Nat Nat) :=
  [.caller (.resolve 0 []), .caller (.readClock 0), .caller (.enter 0 (.ok 7)),
    .caller (.tick 5), .wake, .sweep, .caller (.tick 5), .wake, .sweep, .caller (.tick 3)]

/-- With an idle time of 11 ms and a sweep every 5 ms the pool is still there. -/
theorem idleRun_kept : ∃ s : Swept Nat Nat, s.reg.pools.get? 0 = some ⟨⟨7, 0⟩, [], 0⟩ ∧
    s.reg.clock = 13 ∧ s.reg.clock ≤ s.reg.touched 0 + 11 + (max 5 0 + 0 + 0) := by
  obtain ⟨s, hrun, hpool, hclock⟩ : ∃ s ∈ Machine.run (Swept.next { idleEvictionMs := 11 } 5)
      { sweeper := .asleep 0 5 } idleRun,
      s.reg.pools.get? 0 = some ⟨⟨7, 0⟩, [], 0⟩ ∧ s.reg.clock = 13 := by
    decide
  have h : (sweeping { idleEvictionMs := 11 } 5).Reach (Swept.Punctual 0 0) s :=
    (Machine.Reach.init rfl).along (fun _ h => h) (by decide) hrun
  exact ⟨s, hpool, hclock, idle_pool_dropped h hpool⟩

end McpgSql.Pool
