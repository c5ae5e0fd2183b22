import Mathlib.Logic.Function.Basic
import McpgSql.Library.Machine
import McpgSql.Pool.Registry

/-!
# Interleavings of the pool registry

The registry with any number of callers. A call resolves its credentials, reads the
clock when it enters `get_or_build`, waits for the lock, and runs its section, the
build included, in one step; `sweep_idle` reads the clock before it waits, too.
Revocations and rotations only need the lock. Time passes between any two steps.

Beside what the code has, a state records what happened: the revocations, the time
of the section that last hit or inserted each digest, and the builds, answers and
removals. No operation reads these.
-/

namespace McpgSql.Pool

open Library

variable {δ P : Type} [LinearOrder δ]

/-- A pool, with the number of revocations before its credentials were resolved. -/
structure Opened (P : Type) where
  pool : P
  resolvedAt : Nat
deriving DecidableEq, Repr

/-- A call with its resolved credentials. -/
structure PoolCall (δ : Type) where
  digest : δ
  credKeys : List (String × String)
  resolvedAt : Nat
deriving DecidableEq, Repr

/-- What waits: a call with its credentials, or with its reading of the clock for the lock,
and a sweep for the lock. -/
inductive Waiting (δ : Type) where
  | resolved (call : PoolCall δ)
  | locking (call : PoolCall δ) (reading : Nat)
  | sweeping (reading : Nat)
deriving DecidableEq, Repr

inductive PoolEvent (δ P : Type) where
  /-- A build that opened a pool. -/
  | built (d : δ) (pool : Opened P)
  | buildFailed (d : δ)
  /-- A call was answered with the pool. -/
  | given (d : δ) (pool : Opened P)
  | removed (d : δ)
deriving DecidableEq, Repr

structure RegState (δ P : Type) [LinearOrder δ] where
  /-- Milliseconds since the registry was created. -/
  clock : Nat := 0
  pools : Pools δ (Opened P) := .empty
  waiting : List (Waiting δ) := []
  /-- The revocations, the first one first. -/
  evictions : List (String × String) := []
  touched : δ → Nat := fun _ => 0
  /-- What happened, the last event first. -/
  log : List (PoolEvent δ P) := []

inductive RegAction (δ P : Type) where
  | tick (ms : Nat)
  | resolve (digest : δ) (credKeys : List (String × String))
  | readClock (i : Nat)
  /-- The section of a call, with what its build answers. -/
  | enter (i : Nat) (build : Except SqlError P)
  | startSweep
  | sweep (i : Nat)
  | evictFor (pluginId target : String)
  | evictForSecret
deriving DecidableEq

/-- The removals of an operation. -/
def removals (before after : Pools δ (Opened P)) : List (PoolEvent δ P) :=
  before.entries.filterMap fun e => if (after.get? e.1).isNone then some (.removed e.1) else none

/-- What a section of `get_or_build` does, the last event first. -/
def sectionLog (before after : Pools δ (Opened P)) (digest : δ) :
    Except SqlError (Opened P) → List (PoolEvent δ P)
  | .error _ => [.buildFailed digest]
  | .ok pool => .given digest pool ::
      ((if (before.get? digest).isNone then [.built digest pool] else []) ++ removals before after)

namespace RegState

variable (config : PoolRegistryConfig) (s : RegState δ P)

/-- The section of a call. -/
def getOrBuild (call : PoolCall δ) (reading : Nat) (build : Except SqlError P) :
    Except SqlError (Opened P) × Pools δ (Opened P) :=
  Pool.getOrBuild config reading call.digest call.credKeys
    (fun _ => build.map fun pool => ⟨pool, call.resolvedAt⟩) s.pools

/-- The state after the section of a call. -/
def entered (i : Nat) (call : PoolCall δ) (reading : Nat) (build : Except SqlError P) :
    RegState δ P :=
  let (answer, pools) := s.getOrBuild config call reading build
  { s with
    pools
    waiting := s.waiting.eraseIdx i
    touched := if answer.isOk then Function.update s.touched call.digest s.clock else s.touched
    log := sectionLog s.pools pools call.digest answer ++ s.log }

/-- The pools after an operation that removes some. -/
def dropTo (pools : Pools δ (Opened P)) : RegState δ P :=
  { s with pools, log := removals s.pools pools ++ s.log }

/-- One step. -/
def next : RegAction δ P → Option (RegState δ P)
  | .tick ms => some { s with clock := s.clock + ms }
  | .resolve digest credKeys =>
    some { s with waiting := s.waiting ++ [.resolved ⟨digest, credKeys, s.evictions.length⟩] }
  | .readClock i => match s.waiting[i]? with
    | some (.resolved call) => some { s with waiting := s.waiting.set i (.locking call s.clock) }
    | _ => none
  | .enter i build => match s.waiting[i]? with
    | some (.locking call reading) => some (s.entered config i call reading build)
    | _ => none
  | .startSweep => some { s with waiting := s.waiting ++ [.sweeping s.clock] }
  | .sweep i => match s.waiting[i]? with
    | some (.sweeping reading) =>
      some { s.dropTo (sweepIdle config reading s.pools).2 with waiting := s.waiting.eraseIdx i }
    | _ => none
  | .evictFor pluginId target =>
    some { s.dropTo (evictFor pluginId target s.pools).2 with
      evictions := s.evictions ++ [(pluginId, target)] }
  | .evictForSecret => some (s.dropTo (evictForSecret s.pools).2)

end RegState

/-- A new registry, and the steps of its callers. -/
def registry (config : PoolRegistryConfig) : Machine (RegState δ P) (RegAction δ P) where
  init s := s = {}
  step s a s' := s.next config a = some s'

/-! ## What a step does -/

variable {config : PoolRegistryConfig} {s s' : RegState δ P} {a : RegAction δ P}

/-- The steps by what they do to the pools: nothing, a section, a sweep, or a revocation or
rotation. -/
inductive Stepped (config : PoolRegistryConfig) (s : RegState δ P) :
    RegAction δ P → RegState δ P → Prop
  | tick (ms : Nat) : Stepped config s (.tick ms) { s with clock := s.clock + ms }
  | resolve (digest : δ) (credKeys : List (String × String)) :
      Stepped config s (.resolve digest credKeys)
        { s with waiting := s.waiting ++ [.resolved ⟨digest, credKeys, s.evictions.length⟩] }
  | readClock {i : Nat} {call : PoolCall δ} (hi : s.waiting[i]? = some (.resolved call)) :
      Stepped config s (.readClock i) { s with waiting := s.waiting.set i (.locking call s.clock) }
  | enter {i : Nat} {call : PoolCall δ} {reading : Nat} {build : Except SqlError P}
      (hi : s.waiting[i]? = some (.locking call reading)) :
      Stepped config s (.enter i build) (s.entered config i call reading build)
  | startSweep :
      Stepped config s .startSweep { s with waiting := s.waiting ++ [.sweeping s.clock] }
  | sweep {i reading : Nat} (hi : s.waiting[i]? = some (.sweeping reading)) :
      Stepped config s (.sweep i)
        { s.dropTo (sweepIdle config reading s.pools).2 with waiting := s.waiting.eraseIdx i }
  | evictFor (pluginId target : String) :
      Stepped config s (.evictFor pluginId target)
        { s.dropTo (Pool.evictFor pluginId target s.pools).2 with
          evictions := s.evictions ++ [(pluginId, target)] }
  | evictForSecret :
      Stepped config s .evictForSecret (s.dropTo (Pool.evictForSecret s.pools).2)

theorem stepped_of_next (h : s.next config a = some s') : Stepped config s a s' := by
  cases a with
  | tick ms => cases h; exact .tick ms
  | resolve digest credKeys => cases h; exact .resolve digest credKeys
  | startSweep => cases h; exact .startSweep
  | evictFor pluginId target => cases h; exact .evictFor pluginId target
  | evictForSecret => cases h; exact .evictForSecret
  | readClock i =>
    simp only [RegState.next] at h
    split at h
    · rename_i hi
      cases h
      exact .readClock hi
    · cases h
  | enter i build =>
    simp only [RegState.next] at h
    split at h
    · rename_i hi
      cases h
      exact .enter hi
    · cases h
  | sweep i =>
    simp only [RegState.next] at h
    split at h
    · rename_i hi
      cases h
      exact .sweep hi
    · cases h

/-! ## Sections -/

theorem mem_removals {before after : Pools δ (Opened P)} {ev : PoolEvent δ P} :
    ev ∈ removals before after ↔
      ∃ d e, ev = .removed d ∧ before.get? d = some e ∧ after.get? d = none := by
  simp only [removals, List.mem_filterMap, Prod.exists, OrdMap.mem_entries]
  constructor
  · rintro ⟨d, e, he, hev⟩
    split at hev
    · rename_i hgone
      cases hev
      exact ⟨d, e, rfl, he, by simpa using hgone⟩
    · cases hev
  · rintro ⟨d, e, rfl, he, hgone⟩
    exact ⟨d, e, he, by simp [hgone]⟩

/-- An insertion removes nothing. -/
theorem removals_insert (pools : Pools δ (Opened P)) (d : δ) (e : PoolEntry (Opened P)) :
    removals pools (pools.insert d e) = [] := by
  rw [List.eq_nil_iff_forall_not_mem]
  intro ev hev
  obtain ⟨d', e', -, he', hgone⟩ := mem_removals.mp hev
  rw [OrdMap.get?_insert] at hgone
  split at hgone
  · cases hgone
  · rw [he'] at hgone
    cases hgone

section

variable {i reading : Nat} {call : PoolCall δ} {build : Except SqlError P}

/-- The section of a call that finds its pool. -/
theorem entered_hit {e : PoolEntry (Opened P)} (h : s.pools.get? call.digest = some e) :
    s.entered config i call reading build =
      { s with
        pools := s.pools.insert call.digest { e with lastUsed := reading }
        waiting := s.waiting.eraseIdx i
        touched := Function.update s.touched call.digest s.clock
        log := .given call.digest e.pool :: s.log } := by
  simp only [RegState.entered, RegState.getOrBuild, getOrBuild, h, sectionLog, removals_insert]
  rfl

/-- The section of a call that opens its pool. -/
theorem entered_built {pool : P} (h : s.pools.get? call.digest = none) (hbuild : build = .ok pool) :
    s.entered config i call reading build =
      { s with
        pools := (evictLru config.poolMaxEntries s.pools.size s.pools).insert call.digest
          ⟨⟨pool, call.resolvedAt⟩, call.credKeys, reading⟩
        waiting := s.waiting.eraseIdx i
        touched := Function.update s.touched call.digest s.clock
        log := .given call.digest ⟨pool, call.resolvedAt⟩ ::
          .built call.digest ⟨pool, call.resolvedAt⟩ ::
          (removals s.pools ((evictLru config.poolMaxEntries s.pools.size s.pools).insert call.digest
            ⟨⟨pool, call.resolvedAt⟩, call.credKeys, reading⟩) ++ s.log) } := by
  subst hbuild
  simp only [RegState.entered, RegState.getOrBuild, getOrBuild, h, Except.map, sectionLog]
  rfl

/-- The section of a call whose build fails. -/
theorem entered_failed {e : SqlError} (h : s.pools.get? call.digest = none)
    (hbuild : build = .error e) :
    s.entered config i call reading build =
      { s with waiting := s.waiting.eraseIdx i, log := .buildFailed call.digest :: s.log } := by
  subst hbuild
  simp only [RegState.entered, RegState.getOrBuild, getOrBuild, h, Except.map, sectionLog]
  rfl

/-- What a section leaves under a digest: the entry of its own, or one that was there. -/
theorem get?_entered {d : δ} {e' : PoolEntry (Opened P)}
    (h : (s.entered config i call reading build).pools.get? d = some e') :
    (d = call.digest ∧ e'.lastUsed = reading ∧
      ((∃ e, s.pools.get? d = some e ∧ e'.pool = e.pool ∧ e'.credKeys = e.credKeys) ∨
        (s.pools.get? d = none ∧ e'.pool.resolvedAt = call.resolvedAt ∧
          e'.credKeys = call.credKeys ∧ ∃ pool, build = .ok pool))) ∨
      s.pools.get? d = some e' := by
  cases hd : s.pools.get? call.digest with
  | some e =>
    rw [entered_hit hd, OrdMap.get?_insert] at h
    split at h
    · rename_i hdd
      cases h
      subst hdd
      exact .inl ⟨rfl, rfl, .inl ⟨e, hd, rfl, rfl⟩⟩
    · exact .inr h
  | none =>
    cases hb : build with
    | error err =>
      rw [entered_failed hd hb] at h
      exact .inr h
    | ok pool =>
      rw [entered_built hd hb, OrdMap.get?_insert] at h
      split at h
      · rename_i hdd
        cases h
        subst hdd
        exact .inl ⟨rfl, rfl, .inr ⟨hd, rfl, rfl, pool, rfl⟩⟩
      · exact .inr (get?_evictLru h)

end

end McpgSql.Pool
