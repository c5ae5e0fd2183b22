import McpgSql.Pool.Interleaving

/-!
# Revocations

`evict_for` drops the pools of a revoked reference; a call that resolved its
credentials before may still open one after, when its turn at the lock comes.

`revocation_sticks`: in every run in which no call opens a pool after a revocation
of one of its references since it resolved them, the registry never holds a pool
that is older than a revocation of its credentials. A call that does so leaves the
registry with such a pool (`stale_build`).
-/

namespace McpgSql.Pool

open Library

variable {δ P : Type} [LinearOrder δ] {config : PoolRegistryConfig} {s s' : RegState δ P}
  {a : RegAction δ P}

/-- No pool was resolved before a revocation of one of its references. -/
def Sticks (s : RegState δ P) : Prop :=
  ∀ d e n ref, s.pools.get? d = some e → s.evictions[n]? = some ref → ref ∈ e.credKeys →
    n < e.pool.resolvedAt

/-- None of the references of the call was revoked since it resolved its credentials. -/
def Unrevoked (s : RegState δ P) (call : PoolCall δ) : Prop :=
  ∀ ref ∈ s.evictions.drop call.resolvedAt, ref ∉ call.credKeys

/-- The call that opens a pool in this step. -/
def RegState.building (s : RegState δ P) : RegAction δ P → Option (PoolCall δ)
  | .enter i (.ok _) => match s.waiting[i]? with
    | some (.locking call _) => if (s.pools.get? call.digest).isNone then some call else none
    | _ => none
  | _ => none

/-- A step that opens a pool is of a call that is not revoked. -/
def FreshBuilds (s : RegState δ P) (a : RegAction δ P) : Prop :=
  ∀ call ∈ s.building a, Unrevoked s call

instance (s : RegState δ P) (a : RegAction δ P) : Decidable (FreshBuilds s a) :=
  inferInstanceAs (Decidable (∀ call ∈ s.building a, ∀ ref ∈ s.evictions.drop call.resolvedAt,
    ref ∉ call.credKeys))

theorem building_eq {i reading : Nat} {call : PoolCall δ}
    (hi : s.waiting[i]? = some (.locking call reading)) (habsent : s.pools.get? call.digest = none)
    (pool : P) : s.building (.enter i (.ok pool)) = some call := by
  simp [RegState.building, hi, habsent]

theorem Unrevoked.lt {call : PoolCall δ} (h : Unrevoked s call) {n : Nat} {ref : String × String}
    (hn : s.evictions[n]? = some ref) (href : ref ∈ call.credKeys) : n < call.resolvedAt := by
  by_contra hle
  refine h ref ?_ href
  rw [List.mem_iff_getElem?]
  refine ⟨n - call.resolvedAt, ?_⟩
  rw [List.getElem?_drop, show call.resolvedAt + (n - call.resolvedAt) = n by omega]
  exact hn

/-- Pools that were there, or fewer. -/
theorem Sticks.of_subset (h : Sticks s) (hev : s'.evictions = s.evictions)
    (hsub : ∀ d e, s'.pools.get? d = some e → s.pools.get? d = some e) : Sticks s' := by
  intro d e n ref he hn href
  rw [hev] at hn
  exact h d e n ref (hsub d e he) hn href

theorem Sticks.stepped (h : Sticks s) (hok : FreshBuilds s a) (hstep : Stepped config s a s') :
    Sticks s' := by
  cases hstep with
  | tick ms => exact h
  | resolve digest credKeys => exact h
  | readClock hi => exact h
  | startSweep => exact h
  | sweep hi => exact h.of_subset rfl fun d e he => (OrdMap.get?_of_filter he).1
  | evictForSecret => exact h.of_subset rfl fun d e he => by cases he
  | evictFor pluginId target =>
    intro d e n ref he hn href
    obtain ⟨hold, hkeep⟩ := OrdMap.get?_of_filter he
    rw [List.getElem?_append] at hn
    split at hn
    · exact h d e n ref hold hn href
    · -- The pools of the reference are gone.
      have href' : ref = (pluginId, target) := by
        have := List.mem_of_getElem? hn
        simpa using this
      rw [href'] at href
      simp [href] at hkeep
  | enter hi =>
    rename_i i call reading build
    intro d e n ref he hn href
    rcases get?_entered he with ⟨rfl, -, ⟨e₀, h₀, hpool, hkeys⟩ | ⟨habsent, hat, hkeys, pool, hb⟩⟩ | hold
    · rw [hkeys] at href
      rw [hpool]
      exact h _ e₀ n ref h₀ hn href
    · subst hb
      rw [hkeys] at href
      rw [hat]
      exact (hok call (building_eq hi habsent pool)).lt hn href
    · exact h d e n ref hold hn href

/-- In every run whose builds are of calls that were not revoked, the registry never again
holds a pool of credentials that were resolved before a revocation. -/
theorem revocation_sticks (h : (registry config).Reach FreshBuilds s) : Sticks s := by
  refine h.invariant (fun h₀ => ?_) fun hok hstep hI => hI.stepped hok (stepped_of_next hstep)
  cases h₀
  intro d e n ref he
  cases he

/-- A revoked call that opens its pool leaves the registry with it. -/
theorem stale_build {i reading : Nat} {call : PoolCall δ} {pool : P}
    (hi : s.waiting[i]? = some (.locking call reading)) (habsent : s.pools.get? call.digest = none)
    (hstale : ¬Unrevoked s call) (hstep : s.next config (.enter i (.ok pool)) = some s') :
    ¬Sticks s' := by
  simp only [RegState.next, hi, Option.some.injEq] at hstep
  rw [entered_built habsent rfl] at hstep
  subst hstep
  intro hsticks
  refine hstale fun ref hmem href => ?_
  obtain ⟨n, hn⟩ := List.mem_iff_getElem?.mp hmem
  rw [List.getElem?_drop] at hn
  have hlt : call.resolvedAt + n < call.resolvedAt :=
    hsticks call.digest _ (call.resolvedAt + n) ref (by simp; rfl) hn href
  omega

/-! ## A revocation between resolving and building -/

/-- A call resolves its credentials, they are revoked, and it opens its pool. -/
def revokedCall : List (RegAction Nat Nat) :=
  [.resolve 0 [("idp", "db")], .evictFor "idp" "db", .readClock 0, .enter 0 (.ok 7)]

/-- The pool of the revoked credentials is there after the revocation. -/
theorem revoked_pool_kept :
    ∃ s, (registry {}).Reach (fun _ _ => True) s ∧ s.evictions = [("idp", "db")] ∧
      s.pools.get? 0 = some ⟨⟨7, 0⟩, [("idp", "db")], 0⟩ ∧ ¬Sticks s := by
  have hrun : (registry {}).Reach (fun _ _ => True) _ :=
    (Machine.Reach.init rfl).run (fun _ h => h) (fun _ _ _ => trivial)
      (show Machine.run (RegState.next {}) {} revokedCall = _ from rfl)
  refine ⟨_, hrun, rfl, by decide, fun h => ?_⟩
  exact absurd (h 0 ⟨⟨7, 0⟩, [("idp", "db")], 0⟩ 0 ("idp", "db") (by decide) rfl (by decide)) (by decide)

/-- A call that resolves its credentials again after the revocation. -/
def renewedCall : List (RegAction Nat Nat) :=
  [.resolve 0 [("idp", "db")], .readClock 0, .enter 0 (.ok 7), .evictFor "idp" "db",
    .resolve 0 [("idp", "db")], .readClock 0, .enter 0 (.ok 8)]

theorem renewed_pool_sticks :
    ∃ s, Machine.run (RegState.next {}) {} renewedCall = some s ∧
      s.pools.get? 0 = some ⟨⟨8, 1⟩, [("idp", "db")], 0⟩ ∧ Sticks s := by
  have hrun : (registry {}).Reach FreshBuilds _ :=
    (Machine.Reach.init rfl).along (fun _ h => h) (by decide)
      (show Machine.run (RegState.next {}) {} renewedCall = _ from rfl)
  exact ⟨_, rfl, by decide, revocation_sticks hrun⟩

end McpgSql.Pool
