import McpgSql.Config
import McpgSql.Json
import McpgSql.Library.Machine

/-!
# Calls in flight

`InFlightRegistry` and its guards. A registration inserts under the request id, over
what is there, and a guard that drops removes what is there; neither knows whose
entry it is.

`registry_mirrors_calls`: in every run in which a call registers under an id that no
live call has, the entries are those of the live calls, none is there exactly when no
call is, and a call changes the backend id of no other. Of two live calls with one id
the first to drop takes the entry (`shared_entry_dropped`), and each overwrites the
backend id of the other (`shared_entry_overwritten`).
-/

namespace McpgSql.Plugin

open Library

/-- What a driver cancels a statement by. -/
inductive BackendId where
  | postgres (pid : Int)
  | mysql (connectionId : Nat)
  | sqlite (handle : Nat)
deriving DecidableEq, Repr

structure InFlightEntry where
  backendName : String
  driver : DriverKind
  backendId : Option BackendId := none
deriving DecidableEq, Repr

/-- The entries by request id. -/
abbrev InFlightRegistry := OrdMap String InFlightEntry

namespace InFlightRegistry

variable (registry : InFlightRegistry)

def len : Nat := registry.size

/-- Without effect where the request has ended. -/
def setBackendId (requestId : String) (id : BackendId) : InFlightRegistry :=
  match registry.get? requestId with
  | some entry => registry.insert requestId { entry with backendId := some id }
  | none => registry

def backendIdFor (requestId : String) : Option BackendId :=
  (registry.get? requestId).bind InFlightEntry.backendId

end InFlightRegistry

structure InFlightGuard where
  requestId : String
  driver : DriverKind
deriving DecidableEq, Repr

/-! ## Runs -/

structure InFlightState where
  registry : InFlightRegistry := .empty
  guards : List InFlightGuard := []

/-- A guard is named by its place among those that live. -/
inductive InFlightAction where
  | register (requestId backendName : String) (driver : DriverKind)
  /-- The driver of a call has its connection. -/
  | setBackendId (i : Nat) (id : BackendId)
  | drop (i : Nat)
deriving DecidableEq, Repr

def InFlightState.next (s : InFlightState) : InFlightAction → Option InFlightState
  | .register requestId backendName driver => some {
      registry := s.registry.insert requestId { backendName, driver }
      guards := s.guards ++ [⟨requestId, driver⟩] }
  | .setBackendId i id => (s.guards[i]?).map fun g =>
      { s with registry := s.registry.setBackendId g.requestId id }
  | .drop i => (s.guards[i]?).map fun g =>
      { registry := s.registry.erase g.requestId, guards := s.guards.eraseIdx i }

/-- The calls of the plugin from its creation on. -/
def inFlight : Machine InFlightState InFlightAction where
  init s := s = {}
  step s a s' := s.next a = some s'

/-- The registry tells the live calls. -/
structure Mirrors (s : InFlightState) : Prop where
  entry : ∀ requestId, (s.registry.get? requestId).isSome ↔ ∃ g ∈ s.guards, g.requestId = requestId
  len : s.registry.len = 0 ↔ s.guards = []
  /-- A call that has its connection changes the backend id of no other. -/
  own : ∀ i j id g s', i ≠ j → s.guards[j]? = some g → s.next (.setBackendId i id) = some s' →
    s'.registry.backendIdFor g.requestId = s.registry.backendIdFor g.requestId

/-- A call registers under an id that no live call has. -/
def FreshId (s : InFlightState) : InFlightAction → Prop
  | .register requestId _ _ => ∀ g ∈ s.guards, g.requestId ≠ requestId
  | _ => True

instance (s : InFlightState) : (a : InFlightAction) → Decidable (FreshId s a)
  | .register requestId _ _ => inferInstanceAs (Decidable (∀ g ∈ s.guards, g.requestId ≠ requestId))
  | .setBackendId .. | .drop _ => isTrue trivial

/-! ## Entries and guards -/

namespace InFlightRegistry

variable {registry : InFlightRegistry} {requestId other : String} {id : BackendId}

theorem get?_setBackendId_of_ne (h : requestId ≠ other) :
    (registry.setBackendId requestId id).get? other = registry.get? other := by
  unfold setBackendId
  split
  · rw [OrdMap.get?_insert, if_neg h]
  · rfl

theorem isSome_setBackendId :
    ((registry.setBackendId requestId id).get? other).isSome = (registry.get? other).isSome := by
  by_cases h : requestId = other
  · subst h
    unfold setBackendId
    split
    · rename_i entry hentry
      rw [OrdMap.get?_insert, if_pos rfl, hentry]
      rfl
    · rfl
  · rw [get?_setBackendId_of_ne h]

end InFlightRegistry

variable {s s' : InFlightState} {a : InFlightAction}

/-- The ids of the live calls are distinct, and those of the entries. -/
structure Entered (s : InFlightState) : Prop where
  nodup : (s.guards.map InFlightGuard.requestId).Nodup
  entry : ∀ requestId, (s.registry.get? requestId).isSome ↔ ∃ g ∈ s.guards, g.requestId = requestId

/-- Another call has another id. -/
theorem Entered.ne (h : Entered s) {i j : Nat} {g g' : InFlightGuard} (hij : i ≠ j)
    (hi : s.guards[i]? = some g) (hj : s.guards[j]? = some g') : g.requestId ≠ g'.requestId := by
  intro heq
  have hi' : (s.guards.map InFlightGuard.requestId)[i]? = some g.requestId := by simp [hi]
  have hj' : (s.guards.map InFlightGuard.requestId)[j]? = some g.requestId := by simp [hj, heq]
  obtain ⟨hlt, -⟩ := List.getElem?_eq_some_iff.mp hi'
  exact hij ((List.getElem?_inj hlt h.nodup).mp (hi'.trans hj'.symm))

theorem Entered.register (h : Entered s) {requestId backendName : String} {driver : DriverKind}
    (hok : FreshId s (.register requestId backendName driver)) :
    Entered { registry := s.registry.insert requestId { backendName, driver }
              guards := s.guards ++ [⟨requestId, driver⟩] } := by
  constructor
  · rw [List.map_append, List.nodup_append]
    refine ⟨h.nodup, List.nodup_singleton _, fun id hid id' hid' => ?_⟩
    obtain ⟨g, hg, rfl⟩ := List.mem_map.mp hid
    rw [List.mem_singleton.mp hid']
    exact hok g hg
  · intro id
    show ((s.registry.insert requestId _).get? id).isSome ↔ _
    rw [OrdMap.get?_insert]
    by_cases hid : requestId = id
    · rw [if_pos hid]
      exact ⟨fun _ => ⟨⟨requestId, driver⟩, by simp, hid⟩, fun _ => rfl⟩
    · rw [if_neg hid, h.entry]
      constructor
      · rintro ⟨g, hg, hgid⟩
        exact ⟨g, List.mem_append_left _ hg, hgid⟩
      · rintro ⟨g, hg, hgid⟩
        rcases List.mem_append.mp hg with hg | hg
        · exact ⟨g, hg, hgid⟩
        · rw [List.mem_singleton.mp hg] at hgid
          exact absurd hgid hid

theorem Entered.drop (h : Entered s) {i : Nat} {g : InFlightGuard} (hi : s.guards[i]? = some g) :
    Entered { registry := s.registry.erase g.requestId, guards := s.guards.eraseIdx i } := by
  refine ⟨h.nodup.sublist ((List.eraseIdx_sublist ..).map _), fun id => ?_⟩
  show ((s.registry.erase g.requestId).get? id).isSome ↔ _
  rw [OrdMap.get?_erase]
  by_cases hid : id = g.requestId
  · -- The other calls have other ids.
    rw [if_pos hid]
    refine ⟨nofun, ?_⟩
    rintro ⟨g', hg', hgid⟩
    obtain ⟨j, hji, hj⟩ := List.mem_eraseIdx_iff_getElem?.mp hg'
    exact absurd (hgid.trans hid) (h.ne hji hj hi)
  · rw [if_neg hid, h.entry]
    constructor
    · rintro ⟨g', hg', rfl⟩
      obtain ⟨j, hj⟩ := List.mem_iff_getElem?.mp hg'
      have hji : j ≠ i := by
        rintro rfl
        rw [hi] at hj
        cases hj
        exact hid rfl
      exact ⟨g', List.mem_eraseIdx_iff_getElem?.mpr ⟨j, hji, hj⟩, rfl⟩
    · rintro ⟨g', hg', hgid⟩
      exact ⟨g', List.mem_of_mem_eraseIdx hg', hgid⟩

theorem Entered.next (h : Entered s) (hok : FreshId s a) (hstep : s.next a = some s') :
    Entered s' := by
  cases a with
  | register requestId backendName driver =>
    cases hstep
    exact h.register hok
  | setBackendId i id =>
    obtain ⟨g, -, rfl⟩ := Option.map_eq_some_iff.mp hstep
    exact ⟨h.nodup, fun id' => by rw [InFlightRegistry.isSome_setBackendId]; exact h.entry id'⟩
  | drop i =>
    obtain ⟨g, hi, rfl⟩ := Option.map_eq_some_iff.mp hstep
    exact h.drop hi

theorem entered_of_reach (h : inFlight.Reach FreshId s) : Entered s := by
  refine h.invariant (fun h₀ => ?_) fun hok hstep hI => hI.next hok hstep
  cases h₀
  exact ⟨List.nodup_nil, fun id => by simp⟩

theorem Entered.len (h : Entered s) : s.registry.len = 0 ↔ s.guards = [] := by
  constructor
  · intro hlen
    rw [List.eq_nil_iff_forall_not_mem]
    intro g hg
    obtain ⟨entry, hentry⟩ := Option.isSome_iff_exists.mp ((h.entry g.requestId).mpr ⟨g, hg, rfl⟩)
    have := OrdMap.size_erase_lt hentry
    unfold InFlightRegistry.len at hlen
    omega
  · intro hguards
    by_contra hlen
    obtain ⟨⟨id, entry⟩, hmem⟩ := List.exists_mem_of_length_pos (Nat.pos_of_ne_zero hlen)
    have hget := OrdMap.mem_entries.mp hmem
    obtain ⟨g, hg, -⟩ := (h.entry id).mp (by rw [hget]; rfl)
    rw [hguards] at hg
    cases hg

/-- In every run in which no call registers under the id of a live one, the registry tells
the live calls. -/
theorem registry_mirrors_calls (h : inFlight.Reach FreshId s) : Mirrors s := by
  have hs := entered_of_reach h
  refine ⟨hs.entry, hs.len, fun i j id g s' hij hj hstep => ?_⟩
  obtain ⟨g', hi, rfl⟩ := Option.map_eq_some_iff.mp hstep
  show ((s.registry.setBackendId g'.requestId id).get? g.requestId).bind _ = _
  rw [InFlightRegistry.get?_setBackendId_of_ne (hs.ne hij hi hj)]
  rfl

/-- Two calls one after the other, and one beside them. -/
def distinctCalls : List InFlightAction :=
  [.register "r1" "orders" .postgres, .register "r2" "orders" .postgres,
    .setBackendId 0 (.postgres 41), .drop 0, .register "r1" "users" .mysql]

theorem distinctCalls_mirrored :
    ∃ s, Machine.run InFlightState.next {} distinctCalls = some s ∧ s.registry.len = 2 ∧
      Mirrors s := by
  have hrun : inFlight.Reach FreshId _ := (Machine.Reach.init rfl).along (fun _ h => h) (by decide)
    (show Machine.run InFlightState.next {} distinctCalls = _ from rfl)
  exact ⟨_, rfl, by decide, registry_mirrors_calls hrun⟩

/-! ## Calls with one id -/

section

variable {i j : Nat} {g g' : InFlightGuard}

/-- The first call that drops takes the entry of both. -/
theorem shared_entry_dropped (hij : i ≠ j) (hi : s.guards[i]? = some g) (hj : s.guards[j]? = some g')
    (hid : g.requestId = g'.requestId) :
    ∃ s', s.next (.drop i) = some s' ∧ g' ∈ s'.guards ∧ ¬Mirrors s' := by
  refine ⟨_, by rw [InFlightState.next, hi]; rfl, ?_, fun h => ?_⟩
  · exact List.mem_eraseIdx_iff_getElem?.mpr ⟨j, hij.symm, hj⟩
  · have hsome := (h.entry g'.requestId).mpr
      ⟨g', List.mem_eraseIdx_iff_getElem?.mpr ⟨j, hij.symm, hj⟩, rfl⟩
    simp [hid] at hsome

/-- Each call overwrites the backend id of the other. -/
theorem shared_entry_overwritten (hij : i ≠ j) (hi : s.guards[i]? = some g)
    (hj : s.guards[j]? = some g') (hid : g.requestId = g'.requestId) {id : BackendId}
    (hentry : (s.registry.get? g.requestId).isSome)
    (hother : s.registry.backendIdFor g'.requestId ≠ some id) : ¬Mirrors s := by
  intro h
  have hown := h.own i j id g' _ hij hj (by rw [InFlightState.next, hi]; rfl)
  obtain ⟨entry, hget⟩ := Option.isSome_iff_exists.mp hentry
  apply hother
  rw [← hown, ← hid]
  simp [InFlightRegistry.backendIdFor, InFlightRegistry.setBackendId, hget]

end

/-- Two live calls with one id, the second of which ends. -/
def sharedId : List InFlightAction :=
  [.register "r1" "orders" .postgres, .register "r1" "users" .mysql, .drop 1]

/-- No entry is left while the first call lives. -/
theorem sharedId_not_mirrored :
    ∃ s, inFlight.Reach (fun _ _ => True) s ∧ s.guards = [⟨"r1", .postgres⟩] ∧
      s.registry.len = 0 ∧ ¬Mirrors s := by
  have hrun : inFlight.Reach (fun _ _ => True) _ :=
    (Machine.Reach.init rfl).run (fun _ h => h) (fun _ _ _ => trivial)
      (show Machine.run InFlightState.next {} sharedId = _ from rfl)
  refine ⟨_, hrun, rfl, by decide, fun h => ?_⟩
  have := h.len.mp (by decide)
  cases this

end McpgSql.Plugin
