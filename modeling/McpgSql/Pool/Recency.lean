import McpgSql.Pool.Interleaving

/-!
# Recency of pools

`last_used` is the clock that a call read before it waited for the lock, so that it
may lie behind the hit or the insertion that it stands for.

`recency`: in every run in which the calls that hit or insert an entry run their
section in the millisecond of their reading, `last_used` never decreases, the entry
that is evicted was used no later than those that stay, and a sweep removes no entry
that was used within the idle time. An entry with an older reading can be swept
before its time (`stale_touch_swept`).
-/

namespace McpgSql.Pool

open Library

variable {δ P : Type} [LinearOrder δ] {config : PoolRegistryConfig} {s s' : RegState δ P}
  {a : RegAction δ P}

/-! ## Runs without waiting -/

/-- The reading that this step stores: that of a call which finds or opens its pool. -/
def RegState.storing (s : RegState δ P) : RegAction δ P → Option Nat
  | .enter i build => match s.waiting[i]? with
    | some (.locking call reading) =>
      if (s.pools.get? call.digest).isSome || build.isOk then some reading else none
    | _ => none
  | _ => none

/-- A reading is stored in the millisecond it was taken. -/
def FreshTouches (s : RegState δ P) (a : RegAction δ P) : Prop :=
  ∀ reading ∈ s.storing a, reading = s.clock

instance (s : RegState δ P) (a : RegAction δ P) : Decidable (FreshTouches s a) :=
  inferInstanceAs (Decidable (∀ reading ∈ s.storing a, reading = s.clock))

/-- What recency asks of a step. -/
structure Recent (config : PoolRegistryConfig) (s : RegState δ P) (a : RegAction δ P)
    (s' : RegState δ P) : Prop where
  monotone : ∀ d e e', s.pools.get? d = some e → s'.pools.get? d = some e' → e.lastUsed ≤ e'.lastUsed
  lru : ∀ i build v ev d e, a = .enter i build → s.pools.get? v = some ev → s'.pools.get? v = none →
    s.pools.get? d = some e → s'.pools.get? d = some e → s.touched v ≤ s.touched d
  idle : ∀ i d e, a = .sweep i → s.pools.get? d = some e → s'.pools.get? d = none →
    s.touched d + config.idleEvictionMs ≤ s.clock

/-- The stored readings are the times of the last hits and insertions. -/
structure Timed (s : RegState δ P) : Prop where
  lastUsed : ∀ d e, s.pools.get? d = some e → e.lastUsed = s.touched d
  touched : ∀ d, s.touched d ≤ s.clock
  sweeping : ∀ reading, .sweeping reading ∈ s.waiting → reading ≤ s.clock

/-- Fewer pools, and fewer that wait. -/
theorem Timed.of_subset (h : Timed s) (hclock : s'.clock = s.clock) (htouched : s'.touched = s.touched)
    (hpools : ∀ d e, s'.pools.get? d = some e → s.pools.get? d = some e)
    (hwaiting : ∀ reading, .sweeping reading ∈ s'.waiting → .sweeping reading ∈ s.waiting) :
    Timed s' where
  lastUsed d e he := by rw [htouched]; exact h.lastUsed d e (hpools d e he)
  touched d := by rw [htouched, hclock]; exact h.touched d
  sweeping reading hr := by rw [hclock]; exact h.sweeping reading (hwaiting reading hr)

section

variable {i reading : Nat} {call : PoolCall δ} {build : Except SqlError P}

theorem Timed.touched_le_entered (h : Timed s) (d : δ) :
    s.touched d ≤ (s.entered config i call reading build).touched d := by
  have hupdate : s.touched d ≤ Function.update s.touched call.digest s.clock d := by
    by_cases hd : d = call.digest
    · rw [hd, Function.update_self]
      exact h.touched call.digest
    · rw [Function.update_of_ne hd]
  unfold RegState.entered
  by_cases hok : (s.getOrBuild config call reading build).1.isOk = true
  · simpa only [if_pos hok] using hupdate
  · simpa only [if_neg hok] using le_rfl

/-- An entry is stored at the time of its reading, over some of those that were there. -/
theorem Timed.stored (h : Timed s) {d : δ} {e : PoolEntry (Opened P)} {pools : Pools δ (Opened P)}
    (hsub : ∀ d' e', pools.get? d' = some e' → s.pools.get? d' = some e') (he : e.lastUsed = s.clock)
    (hpools : s'.pools = pools.insert d e) (htouched : s'.touched = Function.update s.touched d s.clock)
    (hclock : s'.clock = s.clock) (hwaiting : s'.waiting = s.waiting.eraseIdx i) : Timed s' := by
  refine ⟨fun d' e' he' => ?_, fun d' => ?_, fun r hr => ?_⟩
  · rw [hpools, OrdMap.get?_insert] at he'
    rw [htouched]
    split at he'
    · rename_i hdd
      cases he'
      rw [← hdd, Function.update_self, he]
    · rename_i hdd
      rw [Function.update_of_ne (Ne.symm hdd)]
      exact h.lastUsed d' e' (hsub d' e' he')
  · rw [htouched, hclock]
    by_cases hdd : d' = d
    · rw [hdd, Function.update_self]
    · rw [Function.update_of_ne hdd]
      exact h.touched d'
  · rw [hwaiting] at hr
    rw [hclock]
    exact h.sweeping r (List.mem_of_mem_eraseIdx hr)

/-- A section that stores its reading, at the time of it. -/
theorem Timed.entered (h : Timed s) (hi : s.waiting[i]? = some (.locking call reading))
    (hok : FreshTouches s (.enter i build)) : Timed (s.entered config i call reading build) := by
  cases hd : s.pools.get? call.digest with
  | some e =>
    have hr : reading = s.clock := hok reading (by simp [RegState.storing, hi, hd])
    rw [entered_hit hd]
    exact h.stored (fun _ _ => id) hr rfl rfl rfl rfl
  | none =>
    cases hb : build with
    | error err =>
      rw [entered_failed hd rfl]
      exact h.of_subset rfl rfl (fun _ _ => id) fun r hr => List.mem_of_mem_eraseIdx hr
    | ok pool =>
      have hr : reading = s.clock :=
        hok reading (by simp [RegState.storing, hi, hb, Except.isOk, Except.toBool])
      rw [entered_built hd rfl]
      exact h.stored (fun _ _ => get?_evictLru) hr rfl rfl rfl rfl

end

theorem Timed.stepped (h : Timed s) (hok : FreshTouches s a) (hstep : Stepped config s a s') :
    Timed s' := by
  cases hstep with
  | tick ms =>
    refine ⟨h.lastUsed, fun d => ?_, fun r hr => ?_⟩
    · exact le_trans (h.touched d) (Nat.le_add_right _ _)
    · exact le_trans (h.sweeping r hr) (Nat.le_add_right _ _)
  | resolve digest credKeys => exact h.of_subset rfl rfl (fun _ _ => id) fun r hr => by simpa using hr
  | readClock hi =>
    refine h.of_subset rfl rfl (fun _ _ => id) fun r hr => ?_
    rcases List.mem_or_eq_of_mem_set hr with hr | hr
    · exact hr
    · cases hr
  | enter hi => exact h.entered hi hok
  | startSweep =>
    refine ⟨h.lastUsed, h.touched, fun r hr => ?_⟩
    rcases List.mem_append.mp hr with hr | hr
    · exact h.sweeping r hr
    · simp only [List.mem_singleton, Waiting.sweeping.injEq] at hr
      exact hr.le
  | sweep hi =>
    exact h.of_subset rfl rfl (fun d e he => (OrdMap.get?_of_filter he).1) fun r hr =>
      List.mem_of_mem_eraseIdx hr
  | evictFor pluginId target =>
    exact h.of_subset rfl rfl (fun d e he => (OrdMap.get?_of_filter he).1) fun r hr => hr
  | evictForSecret => exact h.of_subset rfl rfl (fun d e he => by cases he) fun r hr => hr

theorem timed_of_reach (h : (registry config).Reach FreshTouches s) : Timed s := by
  refine h.invariant (fun h₀ => ?_) fun hok hstep hI => hI.stepped hok (stepped_of_next hstep)
  cases h₀
  exact ⟨nofun, fun _ => le_rfl, nofun⟩

/-! ## Recency -/

theorem Timed.recent (h : Timed s) (hok : FreshTouches s a) (hstep : Stepped config s a s') :
    Recent config s a s' := by
  -- No digest was touched later before the step than after it.
  have hmono : ∀ d, s.touched d ≤ s'.touched d := by
    intro d
    cases hstep with
    | enter hi => exact h.touched_le_entered d
    | _ => exact le_rfl
  constructor
  · intro d e e' he he'
    rw [h.lastUsed d e he, (h.stepped hok hstep).lastUsed d e' he']
    exact hmono d
  · intro i build v ev d e ha hv hgone hd hd'
    subst ha
    cases hstep with
    | enter hi =>
      rename_i call reading
      have habsent : s.pools.get? call.digest = none := by
        cases hdig : s.pools.get? call.digest with
        | none => rfl
        | some e₀ =>
          rw [entered_hit hdig, OrdMap.get?_insert] at hgone
          split at hgone
          · cases hgone
          · rw [hv] at hgone
            cases hgone
      cases hb : build with
      | error err =>
        rw [entered_failed habsent hb] at hgone
        rw [hv] at hgone
        cases hgone
      | ok pool =>
        rw [entered_built habsent hb, OrdMap.get?_insert] at hgone hd'
        have hne : call.digest ≠ d := fun hdd => by
          rw [hdd, hd] at habsent
          cases habsent
        rw [if_neg hne] at hd'
        split at hgone
        · cases hgone
        · rw [← h.lastUsed v ev hv, ← h.lastUsed d e hd]
          exact evictLru_victim hv hgone hd'
  · intro i d e ha he hgone
    subst ha
    cases hstep with
    | sweep hi =>
      rename_i reading
      have hidle : ¬(s.pools.filter fun e =>
          !decide (reading - e.2.lastUsed ≥ config.idleEvictionMs)).get? d = some e := by
        rw [show (s.pools.filter _).get? d = none from hgone]
        exact nofun
      rw [OrdMap.get?_filter, he, Option.filter_some] at hidle
      have hold : config.idleEvictionMs ≤ reading - e.lastUsed := by simpa using hidle
      have hreading := h.sweeping reading (List.mem_of_getElem? hi)
      have htouched := h.touched d
      rw [h.lastUsed d e he] at hold
      omega

/-- In every run whose calls store their reading in the millisecond they took it, `last_used`
never decreases, eviction takes the entry that was used first, and sweeps take none that
was used within the idle time. -/
theorem recency (h : (registry config).Reach FreshTouches s) (hok : FreshTouches s a)
    (hstep : (registry config).step s a s') : Recent config s a s' :=
  (timed_of_reach h).recent hok (stepped_of_next hstep)

/-- Two callers of a registry of one pool: the second digest takes the place of the first. -/
def replacing : List (RegAction Nat Nat) :=
  [.resolve 0 [], .readClock 0, .enter 0 (.ok 7), .tick 5, .resolve 1 [], .readClock 0]

theorem replacing_recent :
    ∃ s s', Machine.run (RegState.next { poolMaxEntries := 1 }) {} replacing = some s ∧
      s.next { poolMaxEntries := 1 } (.enter 0 (.ok 8)) = some s' ∧
      s.pools.get? 0 = some ⟨⟨7, 0⟩, [], 0⟩ ∧ s'.pools.get? 0 = none ∧
      s'.pools.get? 1 = some ⟨⟨8, 0⟩, [], 5⟩ ∧
      Recent { poolMaxEntries := 1 } s (.enter 0 (.ok 8)) s' := by
  have hrun : (registry { poolMaxEntries := 1 }).Reach FreshTouches _ :=
    (Machine.Reach.init rfl).along (fun _ h => h) (by decide)
      (show Machine.run (RegState.next { poolMaxEntries := 1 }) {} replacing = _ from rfl)
  exact ⟨_, _, rfl, rfl, by decide, by decide, by decide, recency hrun (by decide) rfl⟩

/-! ## Calls that wait -/

/-- A sweep takes an entry by its reading, however late its last use was. -/
theorem swept_early {i reading : Nat} {d : δ} {e : PoolEntry (Opened P)}
    (hi : s.waiting[i]? = some (.sweeping reading)) (he : s.pools.get? d = some e)
    (hold : e.lastUsed + config.idleEvictionMs ≤ reading)
    (hused : s.clock < s.touched d + config.idleEvictionMs) :
    ∃ s', s.next config (.sweep i) = some s' ∧ ¬Recent config s (.sweep i) s' := by
  refine ⟨{ s.dropTo (sweepIdle config reading s.pools).2 with waiting := s.waiting.eraseIdx i },
    ?_, fun hrecent => ?_⟩
  · simp only [RegState.next, hi]
  · have hgone : (s.pools.filter fun e' => !decide
        (reading - e'.2.lastUsed ≥ config.idleEvictionMs)).get? d = none := by
      have hidle : config.idleEvictionMs ≤ reading - e.lastUsed := by omega
      rw [OrdMap.get?_filter, he, Option.filter_some]
      simp [hidle]
    have := hrecent.idle i d e rfl he hgone
    omega

/-- After a use with an older reading there is a run of one sweep that takes the entry
within its idle time. -/
theorem stale_touch_swept {d : δ} {e : PoolEntry (Opened P)} (he : s.pools.get? d = some e)
    (hstale : e.lastUsed < s.touched d) (hclock : s.touched d = s.clock)
    (hidle : 1 ≤ config.idleEvictionMs) :
    ∃ ms s₁ s₂, Machine.run (RegState.next config) s [.tick ms, .startSweep] = some s₁ ∧
      s₁.next config (.sweep s.waiting.length) = some s₂ ∧
      ¬Recent config s₁ (.sweep s.waiting.length) s₂ := by
  let ms := e.lastUsed + config.idleEvictionMs - s.clock
  let s₁ : RegState δ P := { s with
    clock := s.clock + ms
    waiting := s.waiting ++ [.sweeping (s.clock + ms)] }
  have hi : s₁.waiting[s.waiting.length]? = some (.sweeping (s.clock + ms)) := by
    rw [List.getElem?_append_right le_rfl, Nat.sub_self]
    rfl
  have hold : e.lastUsed + config.idleEvictionMs ≤ s.clock + ms := by omega
  have hused : s.clock + ms < s.touched d + config.idleEvictionMs := by omega
  obtain ⟨s₂, hstep, hearly⟩ := swept_early hi he hold hused
  exact ⟨ms, s₁, s₂, rfl, hstep, hearly⟩

/-- A call that waits while a later one opens the pool. -/
def overtaken : List (RegAction Nat Nat) :=
  [.resolve 0 [], .resolve 0 [], .readClock 0, .tick 5, .readClock 1, .enter 1 (.ok 7)]

/-- Its hit puts the time of use back. -/
theorem overtaken_set_back :
    ∃ s s', (registry {}).Reach (fun _ _ => True) s ∧
      s.next {} (.enter 0 (.ok 8)) = some s' ∧ s.pools.get? 0 = some ⟨⟨7, 0⟩, [], 5⟩ ∧
      s'.pools.get? 0 = some ⟨⟨7, 0⟩, [], 0⟩ ∧ ¬Recent {} s (.enter 0 (.ok 8)) s' := by
  have hrun : (registry {}).Reach (fun _ _ => True) _ :=
    (Machine.Reach.init rfl).run (fun _ h => h) (fun _ _ _ => trivial)
      (show Machine.run (RegState.next {}) {} overtaken = _ from rfl)
  refine ⟨_, _, hrun, rfl, by decide, by decide, fun h => ?_⟩
  have hback : 5 ≤ 0 := h.monotone 0 ⟨⟨7, 0⟩, [], 5⟩ ⟨⟨7, 0⟩, [], 0⟩ (by decide) (by decide)
  omega

end McpgSql.Pool
