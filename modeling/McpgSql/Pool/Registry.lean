import Mathlib.Data.List.MinMax
import Mathlib.Data.Prod.Lex
import McpgSql.Config
import McpgSql.Library.OrdMap

/-!
# The pool registry

`PoolRegistry`, the pools of a profile by the digest of the credentials they
were opened with. Every operation runs under the registry's lock, so each is one
function of the map. Times are milliseconds since the registry was created, and
the order of the digests breaks ties in the choice of the entry to evict.

An operation never puts an entry under another digest than its own: what an
eviction leaves was there before (`get?_evictLru`, `OrdMap.get?_filter`), and
`getOrBuild` changes the entry of the digest asked for only.
-/

namespace McpgSql.Pool

open Library

variable {δ P : Type} [LinearOrder δ]

/-- An open pool, the credential references it was resolved from, and the time of
its last use. -/
structure PoolEntry (P : Type) where
  pool : P
  credKeys : List (String × String)
  lastUsed : Nat
deriving DecidableEq, Repr

structure PoolRegistryConfig where
  poolMaxEntries : Nat := 256
  idleEvictionMs : Nat := 15 * 60 * 1000

/-- The pools by digest. -/
abbrev Pools (δ P : Type) [LinearOrder δ] := OrdMap δ (PoolEntry P)

/-- The older entry is evicted first, and of two as old the one of the lower
digest. -/
def evictedBefore (a b : δ × PoolEntry P) : Bool :=
  a.2.lastUsed < b.2.lastUsed || (a.2.lastUsed = b.2.lastUsed && a.1 < b.1)

/-- The digest of the least recently used entry. -/
def lruKey (pools : Pools δ P) : Option δ :=
  (pools.entries.foldl (fun best e => match best with
    | none => some e
    | some b => if evictedBefore e b then some e else some b) none).map Prod.fst

/-- Evict until there is room for one more; every round takes an entry, so their
number bounds the rounds. -/
def evictLru (poolMaxEntries : Nat) : Nat → Pools δ P → Pools δ P
  | 0, pools => pools
  | n + 1, pools =>
    if pools.size < poolMaxEntries then pools
    else match lruKey pools with
      | some k => evictLru poolMaxEntries n (pools.erase k)
      | none => pools

/-- The pool of `digest`, or the one that `build` opens; `build` runs on a miss
only. The time was read before the lock was taken. -/
def getOrBuild (config : PoolRegistryConfig) (now : Nat) (digest : δ)
    (credKeys : List (String × String)) (build : Unit → Except SqlError P) (pools : Pools δ P) :
    Except SqlError P × Pools δ P :=
  match pools.get? digest with
  | some entry => (.ok entry.pool, pools.insert digest { entry with lastUsed := now })
  | none => match build () with
    | .error e => (.error e, pools)
    | .ok pool =>
      let pools := evictLru config.poolMaxEntries pools.size pools
      (.ok pool, pools.insert digest { pool, credKeys, lastUsed := now })

/-- Drop the pools resolved from the reference, and count them. -/
def evictFor (pluginId target : String) (pools : Pools δ P) : Nat × Pools δ P :=
  let hit := fun e : δ × PoolEntry P => decide ((pluginId, target) ∈ e.2.credKeys)
  ((pools.filter hit).size, pools.filter fun e => !hit e)

/-- Drop every pool, and count them. -/
def evictForSecret (pools : Pools δ P) : Nat × Pools δ P := (pools.size, OrdMap.empty)

/-- Drop the pools that were not used within the idle time, and count them. -/
def sweepIdle (config : PoolRegistryConfig) (now : Nat) (pools : Pools δ P) : Nat × Pools δ P :=
  let idle := fun e : δ × PoolEntry P => decide (now - e.2.lastUsed ≥ config.idleEvictionMs)
  ((pools.filter idle).size, pools.filter fun e => !idle e)

/-! ## The least recently used entry -/

/-- An entry that an eviction leaves was there before. -/
theorem get?_evictLru {poolMaxEntries n : Nat} {pools : Pools δ P} {d : δ} {e : PoolEntry P}
    (h : (evictLru poolMaxEntries n pools).get? d = some e) : pools.get? d = some e := by
  induction n generalizing pools with
  | zero => exact h
  | succ n ih =>
    rw [evictLru] at h
    split at h
    · exact h
    · split at h
      · have := ih h
        rw [OrdMap.get?_erase] at this
        split at this
        · cases this
        · exact this
      · exact h

/-- What entries are evicted by, the lowest first. -/
def evictionRank (e : δ × PoolEntry P) : Nat ×ₗ δ := toLex (e.2.lastUsed, e.1)

theorem evictedBefore_iff (a b : δ × PoolEntry P) :
    evictedBefore a b = true ↔ evictionRank a < evictionRank b := by
  simp [evictedBefore, evictionRank, Prod.Lex.toLex_lt_toLex]

theorem lruKey_eq (pools : Pools δ P) :
    lruKey pools = (pools.entries.argmin evictionRank).map Prod.fst := by
  rw [lruKey, List.argmin]
  congr 2
  funext best e
  cases best with
  | none => rfl
  | some b => simp [List.argAux, evictedBefore_iff]

/-- The entry that is evicted first has the least time of use. -/
theorem lruKey_spec {pools : Pools δ P} {k : δ} (h : lruKey pools = some k) :
    ∃ e, pools.get? k = some e ∧ ∀ j e', pools.get? j = some e' → e.lastUsed ≤ e'.lastUsed := by
  rw [lruKey_eq, Option.map_eq_some_iff] at h
  obtain ⟨⟨k, e⟩, hmin, rfl⟩ := h
  refine ⟨e, OrdMap.mem_entries.mp (List.argmin_mem hmin), fun j e' he' => ?_⟩
  have hle := List.le_of_mem_argmin (OrdMap.mem_entries.mpr he') hmin
  rw [evictionRank, evictionRank, Prod.Lex.toLex_le_toLex] at hle
  rcases hle with hlt | heq
  · exact hlt.le
  · exact heq.1.le

theorem lruKey_isSome {pools : Pools δ P} (h : pools.size ≠ 0) : ∃ k, lruKey pools = some k := by
  cases hk : lruKey pools with
  | some k => exact ⟨k, rfl⟩
  | none =>
    rw [lruKey_eq, Option.map_eq_none_iff, List.argmin_eq_none] at hk
    exact absurd (congrArg List.length hk) h

/-- An eviction makes room. -/
theorem size_evictLru_lt {poolMaxEntries n : Nat} {pools : Pools δ P} (hmax : 1 ≤ poolMaxEntries)
    (hn : pools.size ≤ n) : (evictLru poolMaxEntries n pools).size < poolMaxEntries := by
  induction n generalizing pools with
  | zero =>
    rw [evictLru]
    omega
  | succ n ih =>
    rw [evictLru]
    by_cases hroom : pools.size < poolMaxEntries
    · rw [if_pos hroom]
      exact hroom
    · rw [if_neg hroom]
      obtain ⟨k, hk⟩ := lruKey_isSome (show pools.size ≠ 0 by omega)
      obtain ⟨e, he, -⟩ := lruKey_spec hk
      have hless := OrdMap.size_erase_lt he
      rw [hk]
      exact ih (by omega)

/-- What an eviction takes was used no later than what it leaves. -/
theorem evictLru_victim {poolMaxEntries n : Nat} {pools : Pools δ P} {v d : δ}
    {ev e : PoolEntry P} (hv : pools.get? v = some ev)
    (hgone : (evictLru poolMaxEntries n pools).get? v = none)
    (hd : (evictLru poolMaxEntries n pools).get? d = some e) : ev.lastUsed ≤ e.lastUsed := by
  induction n generalizing pools with
  | zero =>
    rw [evictLru, hv] at hgone
    cases hgone
  | succ n ih =>
    have hleft := get?_evictLru hd
    rw [evictLru] at hgone hd
    split at hgone
    · rw [hv] at hgone
      cases hgone
    · rename_i hroom
      rw [if_neg hroom] at hd
      cases hk : lruKey pools with
      | none =>
        simp only [hk] at hgone
        rw [hv] at hgone
        cases hgone
      | some k =>
        simp only [hk] at hgone hd
        by_cases hvk : v = k
        · -- `v` is evicted in this round.
          subst hvk
          obtain ⟨e', he', hmin⟩ := lruKey_spec hk
          rw [hv] at he'
          cases he'
          exact hmin d e hleft
        · refine ih ?_ hgone hd
          rw [OrdMap.get?_erase, if_neg hvk]
          exact hv

/-! ## What the operations keep -/

/-- The answer is the pool of the digest's entry, which is the one that was there
or the one that was built; other entries are as they were. -/
theorem getOrBuild_ok {config : PoolRegistryConfig} {now : Nat} {digest : δ}
    {credKeys : List (String × String)} {build : Unit → Except SqlError P}
    {pools pools' : Pools δ P} {pool : P}
    (h : getOrBuild config now digest credKeys build pools = (.ok pool, pools')) :
    ((∃ e, pools.get? digest = some e ∧ pool = e.pool) ∨
      (pools.get? digest = none ∧ build () = .ok pool)) ∧
    ∀ d e', pools'.get? d = some e' →
      (d = digest ∧ e'.pool = pool) ∨ (d ≠ digest ∧ pools.get? d = some e') := by
  rw [getOrBuild] at h
  cases hd : pools.get? digest with
  | some entry =>
    simp only [hd, Prod.mk.injEq, Except.ok.injEq] at h
    obtain ⟨rfl, rfl⟩ := h
    refine ⟨.inl ⟨entry, rfl, rfl⟩, fun d e' he => ?_⟩
    rw [OrdMap.get?_insert] at he
    split at he
    · rename_i hdd
      cases he
      exact .inl ⟨hdd.symm, rfl⟩
    · rename_i hdd
      exact .inr ⟨Ne.symm hdd, he⟩
  | none =>
    cases hb : build () with
    | error e => simp [hd, hb] at h
    | ok p =>
      simp only [hd, hb, Prod.mk.injEq, Except.ok.injEq] at h
      obtain ⟨rfl, rfl⟩ := h
      refine ⟨.inr ⟨rfl, rfl⟩, fun d e' he => ?_⟩
      rw [OrdMap.get?_insert] at he
      split at he
      · rename_i hdd
        cases he
        exact .inl ⟨hdd.symm, rfl⟩
      · rename_i hdd
        exact .inr ⟨Ne.symm hdd, get?_evictLru he⟩

/-- A build that fails leaves the pools as they were. -/
theorem getOrBuild_error {config : PoolRegistryConfig} {now : Nat} {digest : δ}
    {credKeys : List (String × String)} {build : Unit → Except SqlError P}
    {pools pools' : Pools δ P} {error : SqlError}
    (h : getOrBuild config now digest credKeys build pools = (.error error, pools')) :
    pools' = pools ∧ pools.get? digest = none ∧ build () = .error error := by
  rw [getOrBuild] at h
  cases hd : pools.get? digest with
  | some entry => simp [hd] at h
  | none =>
    cases hb : build () with
    | ok p => simp [hd, hb] at h
    | error e =>
      simp only [hd, hb, Prod.mk.injEq, Except.error.injEq] at h
      exact ⟨h.2.symm, rfl, by rw [h.1]⟩

end McpgSql.Pool
