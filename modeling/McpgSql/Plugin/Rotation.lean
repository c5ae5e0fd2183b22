import McpgSql.Library.Machine
import McpgSql.Plugin.Spec

/-!
# Rotation of secrets

A profile between rotation events: an event of a listed secret starts a task that
empties the profile's registry. Calls of `execute` take their pool from the registry
where the binding has credentials to resolve and does not wait; every other call has
the pool that was opened when the profile was registered.

Calls of the registry are given no pool from before an event whose task has run
(`registry_renewed`). The registered pool is never renewed, so that a profile that
listens to a secret gives out pools from before its rotation (`renews_iff`). But
there is no such profile: `register_profile` refuses every spec with the list of
secrets (`rotation_never_reaches`).
-/

namespace McpgSql.Plugin

open Library McpgSql.Execute McpgSql.Pool McpgSql.Cache

variable {δ P V : Type} [LinearOrder δ]

/-- A pool, with the number of rotation events before it was opened. -/
structure Dated (P : Type) where
  pool : P
  openedAt : Nat
deriving DecidableEq, Repr

/-- `execute` resolves its pool by the credentials of the call. -/
def Profile.perCredential (profile : Profile P) : Bool :=
  profile.hasCredRefs && profile.prepared.awaitRt.isNone

structure RotState (δ P : Type) [LinearOrder δ] where
  pools : Pools δ (Dated P) := .empty
  /-- The rotation events, by their secret, the first one first. -/
  events : List String := []
  /-- The events whose task has not run yet. -/
  tasks : List Nat := []
  /-- The events whose task has run. -/
  done : List Nat := []

inductive RotAction (δ P : Type) where
  | rotate (secretRef : String)
  /-- The task of an event runs. -/
  | evict (i : Nat)
  /-- A call of `execute`, with what a build answers. -/
  | execute (now : Nat) (digest : δ) (credKeys : List (String × String)) (build : Except SqlError P)
  /-- A call of another entry point. -/
  | other
  | evictFor (pluginId target : String)
  | sweepIdle (now : Nat)

namespace RotState

variable (profile : Profile P) (s : RotState δ P)

/-- The section of a call of `execute` on the registry. -/
def getOrBuild (now : Nat) (digest : δ) (credKeys : List (String × String))
    (build : Except SqlError P) : Except SqlError (Dated P) × Pools δ (Dated P) :=
  Pool.getOrBuild {} now digest credKeys (fun _ => build.map fun pool => ⟨pool, s.events.length⟩) s.pools

/-- The pool that a call is given. -/
def given : RotAction δ P → Option (Dated P)
  | .execute now digest credKeys build =>
    if profile.perCredential then (s.getOrBuild now digest credKeys build).1.toOption
    else some ⟨profile.pool, 0⟩
  | .other => some ⟨profile.pool, 0⟩
  | _ => none

/-- One step. -/
def next : RotAction δ P → Option (RotState δ P)
  | .rotate secretRef => some { s with
      events := s.events ++ [secretRef]
      tasks := if secretRef ∈ profile.secretRefs then s.tasks ++ [s.events.length] else s.tasks }
  | .evict i => (s.tasks[i]?).map fun n =>
      { s with pools := (evictForSecret s.pools).2, tasks := s.tasks.eraseIdx i, done := n :: s.done }
  | .execute now digest credKeys build => some
      (if profile.perCredential then { s with pools := (s.getOrBuild now digest credKeys build).2 }
      else s)
  | .other => some s
  | .evictFor pluginId target => some { s with pools := (Pool.evictFor pluginId target s.pools).2 }
  | .sweepIdle now => some { s with pools := (Pool.sweepIdle {} now s.pools).2 }

end RotState

/-- A profile from its registration on. -/
def rotations (profile : Profile P) : Machine (RotState δ P) (RotAction δ P) where
  init s := s = {}
  step s a s' := s.next profile a = some s'

/-- A pool from after every event whose task has run. -/
def RotState.Renewed (s : RotState δ P) (pool : Dated P) : Prop := ∀ n ∈ s.done, n < pool.openedAt

/-- No call of the profile is given a pool from before an event whose task has run. -/
def Renews (δ : Type) [LinearOrder δ] (profile : Profile P) : Prop :=
  ∀ s : RotState δ P, (rotations profile).Reach (fun _ _ => True) s →
    ∀ a pool, s.given profile a = some pool → s.Renewed pool

/-! ## Calls of the registry -/

/-- The pools of the registry are from after the events whose task has run. -/
structure Rotated (s : RotState δ P) : Prop where
  pools : ∀ d e, s.pools.get? d = some e → s.Renewed e.pool
  tasks : ∀ n ∈ s.tasks, n < s.events.length
  done : ∀ n ∈ s.done, n < s.events.length

variable {profile : Profile P} {s s' : RotState δ P} {a : RotAction δ P}

/-- Fewer pools. -/
theorem Rotated.of_subset (h : Rotated s)
    (hpools : ∀ d e, s'.pools.get? d = some e → s.pools.get? d = some e)
    (hevents : s'.events = s.events) (htasks : s'.tasks = s.tasks) (hdone : s'.done = s.done) :
    Rotated s' where
  pools d e he n hn := h.pools d e (hpools d e he) n (hdone ▸ hn)
  tasks := by rw [htasks, hevents]; exact h.tasks
  done := by rw [hdone, hevents]; exact h.done

section

variable {now : Nat} {digest : δ} {credKeys : List (String × String)} {build : Except SqlError P}

/-- What a section answers, and what it leaves, is from after the events. -/
theorem Rotated.getOrBuild (h : Rotated s) {pool : Dated P}
    (hgiven : (s.getOrBuild now digest credKeys build).1 = .ok pool) :
    s.Renewed pool ∧
      ∀ d e, (s.getOrBuild now digest credKeys build).2.get? d = some e → s.Renewed e.pool := by
  obtain ⟨hpool, hleft⟩ := getOrBuild_ok
    (show s.getOrBuild now digest credKeys build = (.ok pool, _) from Prod.ext hgiven rfl)
  have hrenewed : s.Renewed pool := by
    rcases hpool with ⟨e, he, rfl⟩ | ⟨-, hbuild⟩
    · exact h.pools digest e he
    · -- A pool that is opened now.
      cases hb : build with
      | error e => rw [hb] at hbuild; cases hbuild
      | ok p =>
        rw [hb] at hbuild
        cases hbuild
        exact h.done
  refine ⟨hrenewed, fun d e he => ?_⟩
  rcases hleft d e he with ⟨-, hd⟩ | ⟨-, hd⟩
  · rw [hd]
    exact hrenewed
  · exact h.pools d e hd

theorem Rotated.execute (h : Rotated s) :
    Rotated { s with pools := (s.getOrBuild now digest credKeys build).2 } := by
  refine ⟨fun d e he => ?_, h.tasks, h.done⟩
  cases hgiven : (s.getOrBuild now digest credKeys build).1 with
  | ok pool => exact (h.getOrBuild hgiven).2 d e he
  | error error =>
    obtain ⟨hsame, -, -⟩ := getOrBuild_error
      (show s.getOrBuild now digest credKeys build = (.error error, _) from Prod.ext hgiven rfl)
    exact h.pools d e (hsame ▸ he)

end

theorem Rotated.next (h : Rotated s) (hstep : s.next profile a = some s') : Rotated s' := by
  cases a with
  | rotate secretRef =>
    cases hstep
    refine ⟨h.pools, fun n hn => ?_, fun n hn => ?_⟩
    · rw [List.length_append, List.length_singleton]
      split at hn
      · rcases List.mem_append.mp hn with hn | hn
        · exact Nat.lt_succ_of_lt (h.tasks n hn)
        · rw [List.mem_singleton.mp hn]
          exact Nat.lt_succ_self _
      · exact Nat.lt_succ_of_lt (h.tasks n hn)
    · rw [List.length_append, List.length_singleton]
      exact Nat.lt_succ_of_lt (h.done n hn)
  | evict i =>
    obtain ⟨n, hn, rfl⟩ := Option.map_eq_some_iff.mp hstep
    refine ⟨nofun, fun m hm => h.tasks m (List.mem_of_mem_eraseIdx hm), fun m hm => ?_⟩
    rcases List.mem_cons.mp hm with rfl | hm
    · exact h.tasks m (List.mem_of_getElem? hn)
    · exact h.done m hm
  | execute now digest credKeys build =>
    cases hstep
    split
    · exact h.execute
    · exact h
  | other =>
    cases hstep
    exact h
  | evictFor pluginId target =>
    cases hstep
    exact h.of_subset (fun d e he => (OrdMap.get?_of_filter he).1) rfl rfl rfl
  | sweepIdle now =>
    cases hstep
    exact h.of_subset (fun d e he => (OrdMap.get?_of_filter he).1) rfl rfl rfl

theorem rotated_of_reach (h : (rotations profile).Reach (fun _ _ => True) s) : Rotated s := by
  refine h.invariant (fun h₀ => ?_) fun _ hstep hI => hI.next hstep
  cases h₀
  exact ⟨nofun, nofun, nofun⟩

/-- A call of the registry is given no pool from before an event whose task has run. -/
theorem registry_renewed (hcred : profile.perCredential)
    (h : (rotations profile).Reach (fun _ _ => True) s) {now : Nat} {digest : δ}
    {credKeys : List (String × String)} {build : Except SqlError P} {pool : Dated P}
    (hgiven : s.given profile (.execute now digest credKeys build) = some pool) : s.Renewed pool := by
  rw [RotState.given, if_pos hcred] at hgiven
  cases hanswer : (s.getOrBuild now digest credKeys build).1 with
  | error e => rw [hanswer] at hgiven; cases hgiven
  | ok pool' =>
    rw [hanswer] at hgiven
    cases hgiven
    exact ((rotated_of_reach h).getOrBuild hanswer).1

/-! ## The registered pool -/

/-- No event has, or had, a task. -/
def RotState.Idle (s : RotState δ P) : Prop := s.tasks = [] ∧ s.done = []

theorem RotState.Idle.next (h : s.Idle) (hrefs : profile.secretRefs = [])
    (hstep : s.next profile a = some s') : s'.Idle := by
  cases a with
  | rotate secretRef =>
    cases hstep
    simpa [hrefs, RotState.Idle] using h
  | evict i =>
    obtain ⟨n, hn, rfl⟩ := Option.map_eq_some_iff.mp hstep
    rw [h.1] at hn
    cases hn
  | execute now digest credKeys build =>
    cases hstep
    split
    · exact h
    · exact h
  | other | evictFor pluginId target | sweepIdle now =>
    cases hstep
    exact h

/-- A profile that listens to no secret never runs a task. -/
theorem idle_of_reach (hrefs : profile.secretRefs = [])
    (h : (rotations profile).Reach (fun _ _ => True) s) : s.Idle := by
  refine h.invariant (fun h₀ => ?_) fun _ hstep hI => hI.next hrefs hstep
  cases h₀
  exact ⟨rfl, rfl⟩

/-- A profile renews its pools only where it listens to no secret, so that no event has a
task. -/
theorem renews_iff : Renews δ profile ↔ profile.secretRefs = [] := by
  constructor
  · intro h
    rw [List.eq_nil_iff_forall_not_mem]
    intro secretRef hmem
    -- The secret rotates, its task runs, and a call is given the registered pool.
    have hrun : Machine.run (RotState.next profile) ({} : RotState δ P) [.rotate secretRef, .evict 0] =
        some { events := [secretRef], done := [0] } := by
      simp [Machine.run, RotState.next, hmem, evictForSecret]
    have hreach : (rotations profile).Reach (fun _ _ => True) _ :=
      (Machine.Reach.init rfl).run (fun _ h => h) (fun _ _ _ => trivial) hrun
    have := h _ hreach .other ⟨profile.pool, 0⟩ rfl 0 (by simp)
    exact Nat.lt_irrefl 0 this
  · intro hrefs s hreach a pool hgiven n hn
    rw [(idle_of_reach hrefs hreach).2] at hn
    cases hn

/-! ## Registered profiles -/

/-- The spec is accepted with the secrets too, and its profile renews the pools. -/
def RotationReaches (δ : Type) [LinearOrder δ] (env : RegisterEnv V P) (draining : Bool)
    (backendName : String) (members : List (String × Value)) (refs : List String) : Prop :=
  ∃ profile, registerProfile env draining backendName (withSecretRefs members refs) = .ok profile ∧
    Renews δ profile

/-- No spec that is accepted is accepted with the secrets. -/
theorem rotation_never_reaches {env : RegisterEnv V P} {draining : Bool} {backendName : String}
    {members : List (String × Value)}
    (h : (registerProfile env draining backendName (.obj members)).isOk) (refs : List String) :
    ¬RotationReaches δ env draining backendName members refs := by
  rintro ⟨profile, haccepted, -⟩
  cases hreg : registerProfile env draining backendName (.obj members) with
  | error e => rw [hreg] at h; cases h
  | ok profile₀ =>
    rw [hint_refused hreg refs] at haccepted
    cases haccepted

/-! ## A concrete spec -/

/-- The values of the fields as they stand, for a query of one text in scalar mode, and a
database that answers. -/
def plainEnv : RegisterEnv Value Nat where
  read _ v := .ok v
  unexpected v := v.jsonType
  config fields := {
    driver := .sqlite
    query := { body := .sql (sqlOf fields), rowMode := .scalar } }
  creds fields := ⟨urlOf fields, .empty, Pool.CredConfig.identifiers_empty⟩
  syn := scanSyntax
  redact := id
  compiles _ := .ok ()
  files _ := .error "no files"
  compileExprs _ := .ok ()
  drivers driver := driver = .sqlite
  connect _ := .ok 1
  compileCost _ := .ok ()
where
  text (v : Option Value) : String := (v.bind Value.asStr).getD ""
  sqlOf (fields : Fields Value) : String :=
    text ((Assoc.get? fields .query).bind fun query => query.get "sql")
  urlOf (fields : Fields Value) : String := text (Assoc.get? fields .url)

/-- The spec of a binding that asks for nothing but a constant. -/
def pingSpec : List (String × Value) :=
  [("driver", .str "sqlite"),
    ("query", .object [("sql", .str "SELECT 1"), ("row_mode", .str "scalar")]),
    ("url", .str "sqlite::memory:")]

theorem ping_never_reached :
    (registerProfile plainEnv false "ping" (.obj pingSpec)).isOk ∧
      ¬RotationReaches Nat plainEnv false "ping" pingSpec ["vault://kv/db"] :=
  ⟨by decide, rotation_never_reaches (by decide) ["vault://kv/db"]⟩

/-- The spec is accepted, and refused with the secret of its password. -/
theorem ping_hint_refused :
    (registerProfile plainEnv false "ping" (.obj pingSpec)).isOk = true ∧
      (registerProfile plainEnv false "ping"
        (withSecretRefs pingSpec ["vault://kv/db"])).isOk = false := by
  decide

end McpgSql.Plugin
