import McpgSql.Pool.Interleaving

/-!
# Bounds and builds of the pool registry

`registry_bounds`: in every interleaving of callers, revocations, rotations and sweeps,
with builds that succeed or fail, the registry stays within its bound, a digest is
built only where it is absent, and once between two of its removals, all callers in
between are given the pool of that build, a failed build changes no pool, and
`evict_for` removes the pools of its reference and no other.

The invariant is that the log tells which pool each digest has (`Recorded`).
-/

namespace McpgSql.Pool

open Library

variable {δ P : Type} [LinearOrder δ]

/-! ## Logs -/

/-- The pool of a digest by the log. -/
def current (d : δ) : List (PoolEvent δ P) → Option (Opened P)
  | [] => none
  | .built d' pool :: log => if d' = d then some pool else current d log
  | .removed d' :: log => if d' = d then none else current d log
  | .buildFailed _ :: log | .given _ _ :: log => current d log

/-- Builds ran where there was no pool, and answers were the pool that was there. -/
def Orderly : List (PoolEvent δ P) → Prop
  | [] => True
  | .built d _ :: log | .buildFailed d :: log => current d log = none ∧ Orderly log
  | .given d pool :: log => current d log = some pool ∧ Orderly log
  | .removed _ :: log => Orderly log

variable {d : δ} {p q : Opened P} {newer mid older log : List (PoolEvent δ P)}

theorem Orderly.tail {ev : PoolEvent δ P} (h : Orderly (ev :: log)) : Orderly log := by
  cases ev with
  | removed d => exact h
  | built d pool => exact h.2
  | buildFailed d => exact h.2
  | given d pool => exact h.2

theorem Orderly.of_append (h : Orderly (newer ++ log)) : Orderly log := by
  induction newer with
  | nil => exact h
  | cons ev newer ih => exact ih h.tail

/-- A pool stays until it is removed. -/
theorem Orderly.current_of_built (h : Orderly (mid ++ .built d p :: older))
    (hmid : .removed d ∉ mid) : current d (mid ++ .built d p :: older) = some p := by
  induction mid with
  | nil => exact if_pos rfl
  | cons ev mid ih =>
    have hrest : Orderly (mid ++ .built d p :: older) := h.tail
    have hcur := ih hrest fun hmem => hmid (List.mem_cons_of_mem _ hmem)
    cases ev with
    | removed d' =>
      have hne : d' ≠ d := fun hd => hmid (by rw [hd]; exact List.mem_cons_self)
      rw [List.cons_append, current, if_neg hne]
      exact hcur
    | built d' pool =>
      -- A second build would have found the pool.
      have hne : d' ≠ d := fun hd => by
        have habsent : current d' (mid ++ .built d p :: older) = none := h.1
        rw [hd, hcur] at habsent
        cases habsent
      rw [List.cons_append, current, if_neg hne]
      exact hcur
    | buildFailed d' => exact hcur
    | given d' pool => exact hcur

/-- Between two builds of a digest it was removed. -/
theorem Orderly.removed_between (h : Orderly (newer ++ .built d q :: (mid ++ .built d p :: older))) :
    .removed d ∈ mid := by
  by_contra hmid
  have hlast := h.of_append
  have hcur := hlast.2.current_of_built hmid
  rw [hlast.1] at hcur
  cases hcur

/-- An answer after a build is its pool, unless that was removed. -/
theorem Orderly.given_eq (h : Orderly (newer ++ .given d q :: (mid ++ .built d p :: older)))
    (hmid : .removed d ∉ mid) : q = p := by
  have hlast := h.of_append
  have hcur := hlast.2.current_of_built hmid
  rw [hlast.1] at hcur
  exact Option.some.inj hcur

/-- Events that only remove. -/
theorem current_of_removals (d : δ) (log : List (PoolEvent δ P)) {evs : List (PoolEvent δ P)}
    (hall : ∀ ev ∈ evs, ∃ d', ev = .removed d') :
    (.removed d ∈ evs → current d (evs ++ log) = none) ∧
      (.removed d ∉ evs → current d (evs ++ log) = current d log) := by
  induction evs with
  | nil => exact ⟨nofun, fun _ => rfl⟩
  | cons ev evs ih =>
    obtain ⟨d', rfl⟩ := hall ev List.mem_cons_self
    obtain ⟨ihgone, ihleft⟩ := ih fun ev hev => hall ev (List.mem_cons_of_mem _ hev)
    rw [List.cons_append, current]
    by_cases hd : d' = d
    · rw [if_pos hd]
      exact ⟨fun _ => rfl, fun hmem => (hmem (by rw [hd]; exact List.mem_cons_self)).elim⟩
    · have hne : (.removed d : PoolEvent δ P) ≠ .removed d' := fun h => hd (PoolEvent.removed.inj h).symm
      rw [if_neg hd, List.mem_cons, or_iff_right hne]
      exact ⟨ihgone, ihleft⟩

theorem current_removals {before after : Pools δ (Opened P)} :
    current d (removals before after ++ log) =
      if (before.get? d).isSome ∧ after.get? d = none then none else current d log := by
  have hall : ∀ ev ∈ removals before after, ∃ d', ev = .removed d' := fun ev hev => by
    obtain ⟨d', -, hd', -⟩ := mem_removals.mp hev
    exact ⟨d', hd'⟩
  obtain ⟨hgone, hleft⟩ := current_of_removals d log hall
  split
  · rename_i h
    obtain ⟨e, he⟩ := Option.isSome_iff_exists.mp h.1
    exact hgone (mem_removals.mpr ⟨d, e, rfl, he, h.2⟩)
  · rename_i h
    refine hleft fun hmem => h ?_
    obtain ⟨d', e, hd', he, hnone⟩ := mem_removals.mp hmem
    cases hd'
    exact ⟨Option.isSome_iff_exists.mpr ⟨e, he⟩, hnone⟩

theorem orderly_removals {before after : Pools δ (Opened P)} (h : Orderly log) :
    Orderly (removals before after ++ log) := by
  have hall : ∀ ev ∈ removals before after, ∃ d', ev = .removed d' := fun ev hev => by
    obtain ⟨d', -, hd', -⟩ := mem_removals.mp hev
    exact ⟨d', hd'⟩
  generalize removals before after = evs at hall
  induction evs with
  | nil => exact h
  | cons ev evs ih =>
    obtain ⟨d', rfl⟩ := hall ev List.mem_cons_self
    exact ih fun ev hev => hall ev (List.mem_cons_of_mem _ hev)

/-! ## The invariant -/

/-- The registry is within its bound, and the log tells its pools. -/
structure Recorded (config : PoolRegistryConfig) (s : RegState δ P) : Prop where
  bound : s.pools.size ≤ config.poolMaxEntries
  current : ∀ d, current d s.log = (s.pools.get? d).map (·.pool)
  orderly : Orderly s.log

variable {config : PoolRegistryConfig} {s s' : RegState δ P} {a : RegAction δ P}

/-- Operations that only remove pools. -/
theorem Recorded.dropTo (h : Recorded config s) (keep : δ × PoolEntry (Opened P) → Bool) :
    Recorded config (s.dropTo (s.pools.filter keep)) where
  bound := le_trans (OrdMap.size_filter_le _ _) h.bound
  current d := by
    show Pool.current d (removals s.pools (s.pools.filter keep) ++ s.log) = _
    rw [current_removals, h.current]
    show _ = ((s.pools.filter keep).get? d).map (·.pool)
    rw [OrdMap.get?_filter]
    cases s.pools.get? d with
    | none => simp
    | some e =>
      by_cases hkeep : keep (d, e)
      · simp [hkeep]
      · simp [hkeep]
  orderly := orderly_removals h.orderly

theorem Recorded.entered (h : Recorded config s) (hmax : 1 ≤ config.poolMaxEntries) (i : Nat)
    (call : PoolCall δ) (reading : Nat) (build : Except SqlError P) :
    Recorded config (s.entered config i call reading build) := by
  cases hd : s.pools.get? call.digest with
  | some e =>
    rw [entered_hit hd]
    refine ⟨?_, fun d => ?_, ?_, h.orderly⟩
    · rw [OrdMap.size_insert_of_get? hd]
      exact h.bound
    · rw [Pool.current, h.current, OrdMap.get?_insert]
      split
      · rename_i hdd
        rw [← hdd, hd]
        rfl
      · rfl
    · rw [h.current, hd]
      rfl
  | none =>
    cases hb : build with
    | error err =>
      rw [entered_failed hd rfl]
      refine ⟨h.bound, h.current, ?_, h.orderly⟩
      rw [h.current, hd]
      rfl
    | ok pool =>
      rw [entered_built hd rfl]
      have hroom := size_evictLru_lt hmax (le_refl s.pools.size)
      have habsent : Pool.current call.digest s.log = none := by
        rw [h.current, hd]
        rfl
      refine ⟨?_, fun d => ?_, ?_, ?_, orderly_removals h.orderly⟩
      · show (OrdMap.insert _ _ _).size ≤ _
        have := OrdMap.size_insert_le (evictLru config.poolMaxEntries s.pools.size s.pools)
          call.digest ⟨⟨pool, call.resolvedAt⟩, call.credKeys, reading⟩
        omega
      · rw [Pool.current, Pool.current, current_removals, h.current, OrdMap.get?_insert]
        by_cases hdd : call.digest = d
        · simp [hdd]
        · simp only [if_neg hdd]
          cases hleft : (evictLru config.poolMaxEntries s.pools.size s.pools).get? d with
          | none => cases s.pools.get? d <;> simp
          | some e => simp [get?_evictLru hleft]
      · exact if_pos rfl
      · rw [current_removals, habsent, hd]
        simp

theorem Recorded.stepped (h : Recorded config s) (hmax : 1 ≤ config.poolMaxEntries)
    (hstep : Stepped config s a s') : Recorded config s' := by
  cases hstep with
  | tick ms => exact ⟨h.bound, h.current, h.orderly⟩
  | resolve digest credKeys => exact ⟨h.bound, h.current, h.orderly⟩
  | readClock hi => exact ⟨h.bound, h.current, h.orderly⟩
  | startSweep => exact ⟨h.bound, h.current, h.orderly⟩
  | enter hi => exact h.entered hmax _ _ _ _
  | sweep hi =>
    obtain ⟨hbound, hcur, hord⟩ := h.dropTo _
    exact ⟨hbound, hcur, hord⟩
  | evictFor pluginId target =>
    obtain ⟨hbound, hcur, hord⟩ := h.dropTo _
    exact ⟨hbound, hcur, hord⟩
  | evictForSecret =>
    have hnone : OrdMap.empty = s.pools.filter fun _ => false := OrdMap.ext_get? fun d => by simp
    show Recorded config (s.dropTo OrdMap.empty)
    rw [hnone]
    exact h.dropTo _

theorem recorded_of_reach (hmax : 1 ≤ config.poolMaxEntries)
    (h : (registry config).Reach (fun _ _ => True) s) : Recorded config s := by
  refine h.invariant (fun h₀ => ?_) fun _ hstep hI => hI.stepped hmax (stepped_of_next hstep)
  cases h₀
  exact ⟨Nat.zero_le _, fun _ => rfl, trivial⟩

/-! ## The registry's guarantees -/

/-- `evict_for` removes the pools of the reference, and counts them. -/
theorem evictFor_exact (pluginId target : String) (pools : Pools δ (Opened P)) :
    (∀ d e, pools.get? d = some e → ((evictFor pluginId target pools).2.get? d =
      if (pluginId, target) ∈ e.credKeys then none else some e)) ∧
      (evictFor pluginId target pools).1 + (evictFor pluginId target pools).2.size = pools.size := by
  constructor
  · intro d e he
    rw [evictFor, OrdMap.get?_filter, he]
    by_cases hmem : (pluginId, target) ∈ e.credKeys
    · simp [hmem]
    · simp [hmem]
  · exact (List.length_eq_length_filter_add _).symm

/-- What the registry guarantees its callers. -/
structure RegistrySpec (config : PoolRegistryConfig) (s : RegState δ P) : Prop where
  bound : s.pools.size ≤ config.poolMaxEntries
  /-- Where the digest is there, what a build would answer changes nothing. -/
  hit : ∀ i call reading e build build', s.waiting[i]? = some (.locking call reading) →
    s.pools.get? call.digest = some e →
    s.next config (.enter i build) = s.next config (.enter i build')
  /-- Builds run where the digest is absent. -/
  absent : ∀ newer older d, ((∃ p, s.log = newer ++ .built d p :: older) ∨
    s.log = newer ++ .buildFailed d :: older) → current d older = none
  /-- Two builds of a digest have a removal between them. -/
  once : ∀ newer mid older d p q,
    s.log = newer ++ .built d q :: (mid ++ .built d p :: older) → .removed d ∈ mid
  /-- All callers until the next removal are given the pool that was built. -/
  shared : ∀ newer mid older d p q,
    s.log = newer ++ .given d q :: (mid ++ .built d p :: older) → .removed d ∉ mid → q = p
  /-- The log tells the pools. -/
  pools : ∀ d, current d s.log = (s.pools.get? d).map (·.pool)
  failed : ∀ i call reading e s', s.waiting[i]? = some (.locking call reading) →
    s.pools.get? call.digest = none → s.next config (.enter i (.error e)) = some s' →
    s'.pools = s.pools
  evicts : ∀ pluginId target s', s.next config (.evictFor pluginId target) = some s' →
    (∀ d e, s.pools.get? d = some e →
      s'.pools.get? d = if (pluginId, target) ∈ e.credKeys then none else some e) ∧
    (evictFor pluginId target s.pools).1 + s'.pools.size = s.pools.size

/-- In every interleaving, with builds that succeed or fail. -/
theorem registry_bounds (hmax : 1 ≤ config.poolMaxEntries)
    (h : (registry config).Reach (fun _ _ => True) s) : RegistrySpec config s := by
  obtain ⟨hbound, hcur, hord⟩ := recorded_of_reach hmax h
  constructor
  · exact hbound
  · intro i call reading e build build' hi he
    simp only [RegState.next, hi, entered_hit he]
  · rintro newer older d (⟨p, hlog⟩ | hlog)
    · rw [hlog] at hord
      exact hord.of_append.1
    · rw [hlog] at hord
      exact hord.of_append.1
  · intro newer mid older d p q hlog
    rw [hlog] at hord
    exact hord.removed_between
  · intro newer mid older d p q hlog hmid
    rw [hlog] at hord
    exact hord.given_eq hmid
  · exact hcur
  · intro i call reading e s' hi habsent hstep
    simp only [RegState.next, hi, Option.some.injEq] at hstep
    rw [← hstep, entered_failed habsent rfl]
  · intro pluginId target s' hstep
    cases hstep
    exact evictFor_exact pluginId target s.pools

/-- Two callers of one digest, a failed build between them, in a registry of one pool. -/
def rebuilt : List (RegAction Nat Nat) :=
  [.resolve 0 [("idp", "db")], .resolve 0 [("idp", "db")], .readClock 0, .readClock 1,
    .enter 0 (.error (.connect "refused")), .tick 5, .enter 0 (.ok 7), .evictFor "idp" "db"]

theorem rebuilt_bounded :
    ∃ s, (Machine.run (RegState.next { poolMaxEntries := 1 }) {} rebuilt) = some s ∧
      s.log = [.removed 0, .given 0 ⟨7, 0⟩, .built 0 ⟨7, 0⟩, .buildFailed 0] ∧
      RegistrySpec { poolMaxEntries := 1 } s := by
  refine ⟨_, rfl, by decide, registry_bounds (by decide) ?_⟩
  exact (Machine.Reach.init rfl).run (fun _ h => h) (fun _ _ _ => trivial)
    (show Machine.run _ _ rebuilt = _ from rfl)

end McpgSql.Pool
