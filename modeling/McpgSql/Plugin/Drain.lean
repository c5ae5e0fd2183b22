import McpgSql.Json
import McpgSql.Library.Machine

/-!
# Drain

`shutdown` while calls run. `execute` looks at the flag, finds its binding, enters
itself into the calls in flight by its request id, uses the binding's pool, and
leaves. `register_profile` looks at the flag, opens and uses a pool, and inserts the
profile. `execute_transaction` neither looks at the flag nor counts as in flight.

`shutdown` sets the flag, waits until nothing is in flight or the time is up, closes
the pools and clears the profiles. A second `shutdown` does nothing.

`drain_final`: in every run in which no call stands between its look at the flag and
what it does on the strength of it while `shutdown` takes the step that counts on it,
request ids are unique among the calls in flight, and no transaction runs past the
count of zero, the calls in flight only become fewer, no pool is used after the count
of zero, and the profiles stay empty. Each of the conditions is needed
(`late_registration`, `late_use`, `late_insert`, `shared_id_lost`).
-/

namespace McpgSql.Plugin

open Library

/-- A call, by how far it is; `R` are the runtimes of bindings. -/
inductive DrainCall (R : Type) where
  /-- `execute` past its look at the flag. -/
  | admitted (backendName requestId : String)
  /-- `execute` with its binding. -/
  | found (backendName requestId : String) (runtime : R)
  /-- `execute`, in flight. -/
  | running (requestId : String) (runtime : R)
  /-- `register_profile` past its look at the flag. -/
  | registering (backendName : String) (runtime : R)
  /-- `execute_transaction` with its binding. -/
  | transacting (runtime : R)
deriving DecidableEq, Repr

/-- How far `shutdown` is. -/
inductive DrainPhase where
  | idle
  | notifying
  | waiting (started : Nat)
  | closing
  | clearing
  | returned
deriving DecidableEq, Repr

structure DrainState (R : Type) where
  draining : Bool := false
  /-- The bindings of the calls in flight, by request id. -/
  inFlight : OrdMap String String := .empty
  profiles : OrdMap String R := .empty
  calls : List (DrainCall R) := []
  phase : DrainPhase := .idle
  /-- `shutdown` has read a count of zero. -/
  observedZero : Bool := false
  /-- Milliseconds. -/
  now : Nat := 0

/-- A call is named by its place among the calls. -/
inductive DrainAction (R : Type) where
  | tick (ms : Nat)
  /-- The look of `execute` at the flag. -/
  | execute (backendName requestId : String)
  | find (i : Nat)
  /-- `InFlightGuard::register`. -/
  | register (i : Nat)
  | use (i : Nat)
  /-- A call ends; one that is in flight drops its guard. -/
  | finish (i : Nat)
  /-- The look of `register_profile` at the flag. -/
  | registerProfile (backendName : String) (runtime : R)
  | insert (i : Nat)
  /-- `begin_transaction` finds the binding. -/
  | transaction (backendName : String)
  | shutdown
  | notify
  | poll
  | close
  | clear
deriving DecidableEq, Repr

variable {R : Type}

namespace DrainCall

/-- `execute` between its look at the flag and its registration. -/
def isPending : DrainCall R → Bool
  | .admitted .. | .found .. => true
  | _ => false

def isRegistering : DrainCall R → Bool
  | .registering .. => true
  | _ => false

def isTransacting : DrainCall R → Bool
  | .transacting _ => true
  | _ => false

/-- The request id of a call in flight. -/
def runningId : DrainCall R → Option String
  | .running requestId _ => some requestId
  | _ => none

end DrainCall

/-- `SHUTDOWN_INTERNAL_CAP`. -/
def shutdownInternalCapMs : Nat := 30 * 1000

namespace DrainState

variable (s : DrainState R)

/-- The call at `i` goes on as `call`. -/
def proceed (i : Nat) (call : DrainCall R) : DrainState R :=
  { s with calls := s.calls.eraseIdx i ++ [call] }

/-- The call at `i` ends. -/
def leave (i : Nat) : DrainState R := { s with calls := s.calls.eraseIdx i }

/-- One step, `none` where it cannot happen. -/
def next : DrainAction R → Option (DrainState R)
  | .tick ms => some { s with now := s.now + ms }
  | .execute backendName requestId =>
    if s.draining then some s
    else some { s with calls := s.calls ++ [.admitted backendName requestId] }
  | .find i => match s.calls[i]? with
    | some (.admitted backendName requestId) => match s.profiles.get? backendName with
      | some runtime => some (s.proceed i (.found backendName requestId runtime))
      | none => some (s.leave i)
    | _ => none
  | .register i => match s.calls[i]? with
    | some (.found backendName requestId runtime) => some { s.proceed i (.running requestId runtime) with
        inFlight := s.inFlight.insert requestId backendName }
    | _ => none
  | .use i => match s.calls[i]? with
    | some (.running ..) | some (.registering ..) | some (.transacting _) => some s
    | _ => none
  | .finish i => match s.calls[i]? with
    | some (.running requestId _) => some { s.leave i with inFlight := s.inFlight.erase requestId }
    | some _ => some (s.leave i)
    | none => none
  | .registerProfile backendName runtime =>
    if s.draining then some s
    else some { s with calls := s.calls ++ [.registering backendName runtime] }
  | .insert i => match s.calls[i]? with
    | some (.registering backendName runtime) =>
      some { s.leave i with profiles := s.profiles.insert backendName runtime }
    | _ => none
  | .transaction backendName => match s.profiles.get? backendName with
    | some runtime => some { s with calls := s.calls ++ [.transacting runtime] }
    | none => some s
  | .shutdown => if s.draining then some s else some { s with draining := true, phase := .notifying }
  | .notify => match s.phase with
    | .notifying => some { s with phase := .waiting s.now }
    | _ => none
  | .poll => match s.phase with
    | .waiting started =>
      if s.inFlight.size = 0 then some { s with phase := .closing, observedZero := true }
      else if shutdownInternalCapMs ≤ s.now - started then some { s with phase := .closing }
      else some s
    | _ => none
  | .close => match s.phase with
    | .closing => some { s with phase := .clearing }
    | _ => none
  | .clear => match s.phase with
    | .clearing => some { s with profiles := .empty, phase := .returned }
    | _ => none

end DrainState

/-- The plugin from its creation on. -/
def drain : Machine (DrainState R) (DrainAction R) where
  init s := s = {}
  step s a s' := s.next a = some s'

/-- What a step must be for the drain to be final. -/
structure DrainFinal (s : DrainState R) (a : DrainAction R) (s' : DrainState R) : Prop where
  count : s.draining = true → s'.inFlight.size ≤ s.inFlight.size
  unused : s.observedZero = true → ∀ i, a ≠ .use i
  profiles : s'.phase = .returned → s'.profiles = .empty

/-- The request id that the call at `i` registers next. -/
def DrainState.foundId (s : DrainState R) (i : Nat) : Option String :=
  match s.calls[i]? with
  | some (.found _ requestId _) => some requestId
  | _ => none

/-- When `shutdown` takes a step, no call stands where the step does not count with it; and a
call has a request id of its own. -/
def DrainOk (s : DrainState R) : DrainAction R → Prop
  | .shutdown => s.draining = true ∨ ∀ call ∈ s.calls, call.isPending = false
  | .register i => ∀ requestId ∈ s.foundId i, s.inFlight.get? requestId = none
  | .poll => s.inFlight.size = 0 →
      ∀ call ∈ s.calls, call.isRegistering = false ∧ call.isTransacting = false
  | .transaction backendName => s.observedZero = true → s.profiles.get? backendName = none
  | .clear => ∀ call ∈ s.calls, call.isRegistering = false
  | _ => True

instance (s : DrainState R) : (a : DrainAction R) → Decidable (DrainOk s a)
  | .shutdown =>
    inferInstanceAs (Decidable (s.draining = true ∨ ∀ call ∈ s.calls, call.isPending = false))
  | .register i =>
    inferInstanceAs (Decidable (∀ requestId ∈ s.foundId i, s.inFlight.get? requestId = none))
  | .poll => inferInstanceAs (Decidable (s.inFlight.size = 0 →
      ∀ call ∈ s.calls, call.isRegistering = false ∧ call.isTransacting = false))
  | .transaction backendName =>
    if hzero : s.observedZero = true then match hget : s.profiles.get? backendName with
      | none => isTrue fun _ => hget
      | some _ => isFalse fun h => by simpa [hget] using h hzero
    else isTrue fun h => absurd h hzero
  | .clear => inferInstanceAs (Decidable (∀ call ∈ s.calls, call.isRegistering = false))
  | .tick _ | .execute .. | .find _ | .use _ | .finish _ | .registerProfile .. | .insert _ | .notify
  | .close => isTrue trivial

/-! ## What a step does -/

variable {s s' : DrainState R} {a : DrainAction R}

/-- The steps by what they change. -/
inductive DrainStep (s : DrainState R) : DrainAction R → DrainState R → Prop
  /-- Nothing: a call is refused or not found, `shutdown` was called before, or its wait goes on. -/
  | same {a : DrainAction R} (ha : ∀ i, a ≠ .use i) : DrainStep s a s
  | tick (ms : Nat) : DrainStep s (.tick ms) { s with now := s.now + ms }
  | start {a : DrainAction R} {call : DrainCall R} (hnew : call.runningId = none)
      (hflag : s.draining = false ∨ ∃ backendName runtime, a = .transaction backendName ∧
        s.profiles.get? backendName = some runtime ∧ call = .transacting runtime)
      (ha : ∀ i, a ≠ .use i) : DrainStep s a { s with calls := s.calls ++ [call] }
  | find {i : Nat} {backendName requestId : String} {runtime : R}
      (hi : s.calls[i]? = some (.admitted backendName requestId)) :
      DrainStep s (.find i) (s.proceed i (.found backendName requestId runtime))
  | register {i : Nat} {backendName requestId : String} {runtime : R}
      (hi : s.calls[i]? = some (.found backendName requestId runtime)) :
      DrainStep s (.register i) { s.proceed i (.running requestId runtime) with
        inFlight := s.inFlight.insert requestId backendName }
  | use {i : Nat} {call : DrainCall R} (hi : s.calls[i]? = some call) : DrainStep s (.use i) s
  | drop {i : Nat} {requestId : String} {runtime : R}
      (hi : s.calls[i]? = some (.running requestId runtime)) :
      DrainStep s (.finish i) { s.leave i with inFlight := s.inFlight.erase requestId }
  | leave {a : DrainAction R} (i : Nat) (ha : ∀ i, a ≠ .use i) : DrainStep s a (s.leave i)
  | insert {i : Nat} {backendName : String} {runtime : R}
      (hi : s.calls[i]? = some (.registering backendName runtime)) :
      DrainStep s (.insert i) { s.leave i with profiles := s.profiles.insert backendName runtime }
  | shutdown (hflag : s.draining = false) :
      DrainStep s .shutdown { s with draining := true, phase := .notifying }
  | phase {a : DrainAction R} {phase : DrainPhase} (hidle : s.phase ≠ .idle) (hphase : phase ≠ .returned)
      (ha : ∀ i, a ≠ .use i) : DrainStep s a { s with phase }
  | zero {started : Nat} (hphase : s.phase = .waiting started) (hzero : s.inFlight.size = 0) :
      DrainStep s .poll { s with phase := .closing, observedZero := true }
  | clear (hphase : s.phase = .clearing) :
      DrainStep s .clear { s with profiles := .empty, phase := .returned }

theorem drainStep_of_next (h : s.next a = some s') : DrainStep s a s' := by
  cases a with
  | tick ms => cases h; exact .tick ms
  | execute backendName requestId =>
    simp only [DrainState.next] at h
    split at h
    · cases h; exact .same nofun
    · rename_i hflag
      cases h
      exact .start rfl (.inl (by simpa using hflag)) nofun
  | find i =>
    simp only [DrainState.next] at h
    split at h
    · rename_i hi
      split at h
      · cases h; exact .find hi
      · cases h; exact .leave i nofun
    · cases h
  | register i =>
    simp only [DrainState.next] at h
    split at h
    · rename_i hi
      cases h
      exact .register hi
    · cases h
  | use i =>
    simp only [DrainState.next] at h
    split at h
    · rename_i hi; cases h; exact .use hi
    · rename_i hi; cases h; exact .use hi
    · rename_i hi; cases h; exact .use hi
    · cases h
  | finish i =>
    simp only [DrainState.next] at h
    split at h
    · rename_i hi
      cases h
      exact .drop hi
    · cases h; exact .leave i nofun
    · cases h
  | registerProfile backendName runtime =>
    simp only [DrainState.next] at h
    split at h
    · cases h; exact .same nofun
    · rename_i hflag
      cases h
      exact .start rfl (.inl (by simpa using hflag)) nofun
  | insert i =>
    simp only [DrainState.next] at h
    split at h
    · rename_i hi
      cases h
      exact .insert hi
    · cases h
  | transaction backendName =>
    simp only [DrainState.next] at h
    split at h
    · rename_i runtime hget
      cases h
      exact .start rfl (.inr ⟨backendName, runtime, rfl, hget, rfl⟩) nofun
    · cases h; exact .same nofun
  | shutdown =>
    simp only [DrainState.next] at h
    split at h
    · cases h; exact .same nofun
    · rename_i hflag
      cases h
      exact .shutdown (by simpa using hflag)
  | notify =>
    simp only [DrainState.next] at h
    split at h
    · rename_i hphase
      cases h
      exact .phase (by rw [hphase]; exact nofun) nofun nofun
    · cases h
  | poll =>
    simp only [DrainState.next] at h
    split at h
    · rename_i started hphase
      split at h
      · rename_i hzero
        cases h
        exact .zero hphase hzero
      · split at h
        · cases h
          exact .phase (by rw [hphase]; exact nofun) nofun nofun
        · cases h; exact .same nofun
    · cases h
  | close =>
    simp only [DrainState.next] at h
    split at h
    · rename_i hphase
      cases h
      exact .phase (by rw [hphase]; exact nofun) nofun nofun
    · cases h
  | clear =>
    simp only [DrainState.next] at h
    split at h
    · rename_i hphase
      cases h
      exact .clear hphase
    · cases h

/-! ## Runs -/

/-- The request ids of the calls in flight. -/
def DrainState.runningIds (s : DrainState R) : List String := s.calls.filterMap DrainCall.runningId

/-- What holds in runs in which every step is as `DrainOk` says. -/
structure Draining (s : DrainState R) : Prop where
  nodup : s.runningIds.Nodup
  counted : ∀ id ∈ s.runningIds, s.inFlight.get? id ≠ none
  flagged : s.phase ≠ .idle → s.draining = true
  pending : s.draining = true → ∀ call ∈ s.calls, call.isPending = false
  zero : s.observedZero = true → s.draining = true ∧ s.calls = []
  cleared : s.phase = .returned → s.profiles = .empty ∧ ∀ call ∈ s.calls, call.isRegistering = false

/-- Fewer calls. -/
theorem Draining.leave (h : Draining s) (i : Nat) : Draining (s.leave i) where
  nodup := h.nodup.sublist ((List.eraseIdx_sublist ..).filterMap _)
  counted id hid := h.counted id (((List.eraseIdx_sublist ..).filterMap _).subset hid)
  flagged := h.flagged
  pending hflag call hcall := h.pending hflag call (List.mem_of_mem_eraseIdx hcall)
  zero hzero := by
    obtain ⟨hflag, hcalls⟩ := h.zero hzero
    exact ⟨hflag, by rw [DrainState.leave, hcalls]; rfl⟩
  cleared hphase :=
    ⟨(h.cleared hphase).1, fun call hcall => (h.cleared hphase).2 call (List.mem_of_mem_eraseIdx hcall)⟩

section

variable {i : Nat} {backendName requestId : String} {runtime : R}

/-- Where a call is pending, `shutdown` has not begun. -/
theorem Draining.not_draining (h : Draining s) {call : DrainCall R} (hi : s.calls[i]? = some call)
    (hcall : call.isPending = true) : s.draining = false := by
  rw [Bool.eq_false_iff]
  intro hflag
  have := h.pending hflag call (List.mem_of_getElem? hi)
  rw [hcall] at this
  cases this

/-- Before `shutdown` begins only the request ids matter. -/
theorem Draining.of_not_draining (h : Draining s) (hflag : s.draining = false)
    (hflag' : s'.draining = s.draining) (hphase : s'.phase = s.phase)
    (hzero : s'.observedZero = s.observedZero) (hnodup : s'.runningIds.Nodup)
    (hcounted : ∀ id ∈ s'.runningIds, s'.inFlight.get? id ≠ none) : Draining s' where
  nodup := hnodup
  counted := hcounted
  flagged hidle := by rw [hflag']; exact h.flagged (hphase ▸ hidle)
  pending hdraining := by rw [hflag', hflag] at hdraining; cases hdraining
  zero hz := by
    have := (h.zero (hzero ▸ hz)).1
    rw [hflag] at this
    cases this
  cleared hreturned := by
    have := h.flagged (by rw [← hphase, hreturned]; exact nofun)
    rw [hflag] at this
    cases this

/-- The ids of the calls when one goes on that was not in flight. -/
theorem runningIds_proceed (i : Nat) (call : DrainCall R) :
    (s.proceed i call).runningIds = (s.leave i).runningIds ++ call.runningId.toList := by
  simp only [DrainState.runningIds, DrainState.proceed, DrainState.leave, List.filterMap_append]
  cases hid : call.runningId <;> simp [hid]

theorem runningIds_append {call : DrainCall R} (hnew : call.runningId = none) :
    ({ s with calls := s.calls ++ [call] } : DrainState R).runningIds = s.runningIds := by
  simp [DrainState.runningIds, hnew]

theorem Draining.register (h : Draining s)
    (hi : s.calls[i]? = some (.found backendName requestId runtime))
    (hnew : s.inFlight.get? requestId = none) :
    Draining { s.proceed i (.running requestId runtime) with
      inFlight := s.inFlight.insert requestId backendName } := by
  have hids : (s.proceed i (.running requestId runtime)).runningIds =
      (s.leave i).runningIds ++ [requestId] := runningIds_proceed i _
  refine h.of_not_draining (h.not_draining hi rfl) rfl rfl rfl ?_ fun id hid => ?_
  · show (s.proceed i (.running requestId runtime)).runningIds.Nodup
    rw [hids, List.nodup_append]
    refine ⟨(h.leave i).nodup, List.nodup_singleton _, fun id hid id' hid' => ?_⟩
    rintro rfl
    rw [List.mem_singleton.mp hid'] at hid
    exact (h.leave i).counted requestId hid hnew
  · have hid : id ∈ (s.leave i).runningIds ++ [requestId] := hids ▸ hid
    show (s.inFlight.insert requestId backendName).get? id ≠ none
    rw [OrdMap.get?_insert]
    split
    · exact nofun
    · rename_i hne
      rcases List.mem_append.mp hid with hid | hid
      · exact (h.leave i).counted id hid
      · exact absurd (List.mem_singleton.mp hid).symm hne

/-- A call that ends takes its own entry with it, and no other. -/
theorem Draining.drop (h : Draining s) (hi : s.calls[i]? = some (.running requestId runtime)) :
    Draining { s.leave i with inFlight := s.inFlight.erase requestId } := by
  have hleave := h.leave i
  have hperm : (requestId :: (s.leave i).runningIds).Perm s.runningIds := by
    obtain ⟨hlt, hget⟩ := List.getElem?_eq_some_iff.mp hi
    have := (List.getElem_cons_eraseIdx_perm hlt).filterMap DrainCall.runningId
    rw [hget] at this
    exact this
  have hnot : requestId ∉ (s.leave i).runningIds :=
    (List.nodup_cons.mp (hperm.nodup_iff.mpr h.nodup)).1
  refine ⟨hleave.nodup, fun id hid => ?_, hleave.flagged, hleave.pending, hleave.zero, hleave.cleared⟩
  have hid : id ∈ (s.leave i).runningIds := hid
  have hne : id ≠ requestId := fun heq => hnot (heq ▸ hid)
  show (s.inFlight.erase requestId).get? id ≠ none
  rw [OrdMap.get?_erase, if_neg hne]
  exact hleave.counted id hid

/-- Nothing is left when `shutdown` reads zero. -/
theorem Draining.calls_eq_nil (h : Draining s) (hok : DrainOk s .poll) (hidle : s.phase ≠ .idle)
    (hzero : s.inFlight.size = 0) : s.calls = [] := by
  rw [List.eq_nil_iff_forall_not_mem]
  intro call hcall
  obtain ⟨hregistering, htransacting⟩ := hok hzero call hcall
  have hpending := h.pending (h.flagged hidle) call hcall
  cases call with
  | admitted backendName requestId => cases hpending
  | found backendName requestId runtime => cases hpending
  | registering backendName runtime => cases hregistering
  | transacting runtime => cases htransacting
  | running requestId runtime =>
    have hin := h.counted requestId (List.mem_filterMap.mpr ⟨_, hcall, rfl⟩)
    obtain ⟨name, hname⟩ := Option.ne_none_iff_exists'.mp hin
    have := OrdMap.size_erase_lt hname
    omega

end

theorem Draining.step (h : Draining s) (hok : DrainOk s a) (hstep : DrainStep s a s') :
    Draining s' := by
  cases hstep with
  | same ha => exact h
  | tick ms => exact ⟨h.nodup, h.counted, h.flagged, h.pending, h.zero, h.cleared⟩
  | use hi => exact h
  | leave i ha => exact h.leave i
  | start hnew hflag ha =>
    rename_i call
    have hids := runningIds_append (s := s) hnew
    rcases hflag with hflag | ⟨backendName, runtime, rfl, hget, rfl⟩
    · refine h.of_not_draining hflag rfl rfl rfl ?_ fun id hid => ?_
      · exact hids ▸ h.nodup
      · exact h.counted id (hids ▸ hid)
    · -- A transaction; after the count of zero it would not have found its binding.
      refine ⟨hids ▸ h.nodup, fun id hid => h.counted id (hids ▸ hid), h.flagged,
        fun hdraining c hc => ?_, fun hzero => ?_, fun hphase => ?_⟩
      · rcases List.mem_append.mp hc with hc | hc
        · exact h.pending hdraining c hc
        · rw [List.mem_singleton.mp hc]; rfl
      · have := hok hzero
        rw [hget] at this
        cases this
      · rw [(h.cleared hphase).1] at hget
        cases hget
  | find hi =>
    have hids := runningIds_proceed (s := s)
    refine h.of_not_draining (h.not_draining hi rfl) rfl rfl rfl ?_ fun id hid => ?_
    · rw [hids]
      simpa [DrainCall.runningId] using (h.leave _).nodup
    · rw [hids] at hid
      exact (h.leave _).counted id (by simpa [DrainCall.runningId] using hid)
  | register hi =>
    exact h.register hi (hok _ (by simp [DrainState.foundId, hi]))
  | drop hi => exact h.drop hi
  | insert hi =>
    rename_i i backendName runtime
    have hleave := h.leave i
    refine ⟨hleave.nodup, hleave.counted, hleave.flagged, hleave.pending, hleave.zero, fun hphase => ?_⟩
    have := (h.cleared hphase).2 _ (List.mem_of_getElem? hi)
    cases this
  | shutdown hflag =>
    have hnone : ∀ call ∈ s.calls, call.isPending = false := by
      rcases hok with hok | hok
      · rw [hflag] at hok; cases hok
      · exact hok
    exact ⟨h.nodup, h.counted, fun _ => rfl, fun _ => hnone, fun hzero => ⟨rfl, (h.zero hzero).2⟩, nofun⟩
  | phase hidle hphase ha =>
    exact ⟨h.nodup, h.counted, fun _ => h.flagged hidle, h.pending, h.zero,
      fun hreturned => absurd hreturned hphase⟩
  | zero hphase hzero =>
    have hidle : s.phase ≠ .idle := by rw [hphase]; exact nofun
    exact ⟨h.nodup, h.counted, fun _ => h.flagged hidle, h.pending,
      fun _ => ⟨h.flagged hidle, h.calls_eq_nil hok hidle hzero⟩, nofun⟩
  | clear hphase =>
    exact ⟨h.nodup, h.counted, fun _ => h.flagged (by rw [hphase]; exact nofun), h.pending, h.zero,
      fun _ => ⟨rfl, hok⟩⟩

theorem draining_of_reach (h : (drain (R := R)).Reach DrainOk s) : Draining s := by
  refine h.invariant (fun h₀ => ?_) fun hok hstep hI => hI.step hok (drainStep_of_next hstep)
  cases h₀
  exact ⟨List.nodup_nil, nofun, fun hidle => absurd rfl hidle, nofun, nofun, nofun⟩

theorem Draining.size_le (h : Draining s) (hstep : DrainStep s a s') (hflag : s.draining = true) :
    s'.inFlight.size ≤ s.inFlight.size := by
  cases hstep with
  | register hi =>
    rw [h.not_draining hi rfl] at hflag
    cases hflag
  | drop hi =>
    rename_i i requestId runtime
    obtain ⟨name, hname⟩ := Option.ne_none_iff_exists'.mp
      (h.counted requestId (List.mem_filterMap.mpr ⟨_, List.mem_of_getElem? hi, rfl⟩))
    exact (OrdMap.size_erase_lt hname).le
  | _ => exact le_rfl

/-- In every run whose steps are as `DrainOk` says, the calls in flight only become fewer once
the flag is set, no pool is used after the count of zero, and the profiles are empty once
`shutdown` has returned. -/
theorem drain_final (h : (drain (R := R)).Reach DrainOk s) (hok : DrainOk s a)
    (hstep : drain.step s a s') : DrainFinal s a s' := by
  have hs := draining_of_reach h
  have hcases := drainStep_of_next hstep
  refine ⟨hs.size_le hcases, fun hzero i hi => ?_, fun hphase => ?_⟩
  · subst hi
    cases hcases with
    | use hi =>
      rw [(hs.zero hzero).2] at hi
      cases hi
    | same ha | start _ _ ha | leave _ ha | phase _ _ ha => exact ha i rfl
  · exact ((hs.step hok hcases).cleared hphase).1

/-- A binding is registered and called; the call ends while `shutdown` waits, and a later one
is refused. -/
def quietDrain : List (DrainAction Nat) :=
  [.registerProfile "orders" 1, .insert 0, .execute "orders" "r1", .find 0, .register 0, .shutdown,
    .notify, .poll, .use 0, .finish 0, .execute "orders" "r2", .tick 50, .poll, .close]

theorem quietDrain_final :
    ∃ s s', Machine.run DrainState.next {} quietDrain = some s ∧ s.next .clear = some s' ∧
      s.observedZero = true ∧ s.profiles.get? "orders" = some 1 ∧ DrainFinal s .clear s' := by
  have hrun : (drain (R := Nat)).Reach DrainOk _ :=
    (Machine.Reach.init rfl).along (fun _ h => h) (by decide)
      (show Machine.run DrainState.next {} quietDrain = _ from rfl)
  exact ⟨_, _, rfl, rfl, rfl, by decide, drain_final hrun (by decide) rfl⟩

/-! ## Calls that the drain does not count with -/

section

variable {i : Nat} {backendName requestId : String} {runtime : R}

/-- A call that looked at the flag before it was set registers after. -/
theorem late_registration (hflag : s.draining = true)
    (hi : s.calls[i]? = some (.found backendName requestId runtime))
    (hnew : s.inFlight.get? requestId = none) :
    ∃ s', s.next (.register i) = some s' ∧ ¬DrainFinal s (.register i) s' := by
  refine ⟨{ s.proceed i (.running requestId runtime) with
    inFlight := s.inFlight.insert requestId backendName }, by simp only [DrainState.next, hi],
    fun h => ?_⟩
  exact absurd (h.count hflag) (Nat.not_le.mpr (OrdMap.size_lt_insert hnew backendName))

/-- A registration or a transaction that is not over at the count of zero uses its pool. -/
theorem late_use {call : DrainCall R} (hzero : s.observedZero = true) (hi : s.calls[i]? = some call)
    (hcall : call.isRegistering = true ∨ call.isTransacting = true) :
    ∃ s', s.next (.use i) = some s' ∧ ¬DrainFinal s (.use i) s' := by
  refine ⟨s, ?_, fun h => h.unused hzero i rfl⟩
  cases call with
  | registering backendName runtime => simp only [DrainState.next, hi]
  | transacting runtime => simp only [DrainState.next, hi]
  | _ => rcases hcall with hcall | hcall <;> cases hcall

/-- A registration that is not over when the profiles are cleared inserts its own. -/
theorem late_insert (hphase : s.phase = .returned)
    (hi : s.calls[i]? = some (.registering backendName runtime)) :
    ∃ s', s.next (.insert i) = some s' ∧ ¬DrainFinal s (.insert i) s' := by
  refine ⟨{ s.leave i with profiles := s.profiles.insert backendName runtime },
    by simp only [DrainState.next, hi], fun h => ?_⟩
  have hempty : s.profiles.insert backendName runtime = .empty := h.profiles hphase
  have hget : (s.profiles.insert backendName runtime).get? backendName = some runtime := by simp
  rw [hempty] at hget
  cases hget

/-- Of two calls with one request id the first that ends takes the entry of both. -/
theorem shared_id_lost {j : Nat} {runtime' : R} (hij : i ≠ j)
    (hi : s.calls[i]? = some (.running requestId runtime))
    (hj : s.calls[j]? = some (.running requestId runtime')) :
    ∃ s', s.next (.finish i) = some s' ∧ .running requestId runtime' ∈ s'.calls ∧
      s'.inFlight.get? requestId = none := by
  refine ⟨{ s.leave i with inFlight := s.inFlight.erase requestId },
    by simp only [DrainState.next, hi], ?_, by simp⟩
  exact List.mem_eraseIdx_iff_getElem?.mpr ⟨j, hij.symm, hj⟩

end

/-- A call, a registration and a transaction that `shutdown` overtakes. -/
def overtakenCalls : List (DrainAction Nat) :=
  [.registerProfile "orders" 1, .insert 0, .execute "orders" "r1", .find 0, .registerProfile "users" 2,
    .transaction "orders", .shutdown, .notify, .poll]

/-- The calls in flight become more after the flag was set, pools are used after the count of
zero, and a profile is there after `shutdown` has returned. -/
theorem overtaken_not_final :
    (∃ s s', (drain (R := Nat)).Reach (fun _ _ => True) s ∧ s.next (.register 0) = some s' ∧
      s.draining = true ∧ s.inFlight.size = 0 ∧ s'.inFlight.size = 1 ∧
      ¬DrainFinal s (.register 0) s') ∧
    (∃ s s', (drain (R := Nat)).Reach (fun _ _ => True) s ∧ s.next (.use 2) = some s' ∧
      s.calls[2]? = some (.transacting 1) ∧ s.observedZero = true ∧ ¬DrainFinal s (.use 2) s') ∧
    ∃ s s', (drain (R := Nat)).Reach (fun _ _ => True) s ∧ s.next (.insert 1) = some s' ∧
      s'.phase = .returned ∧ s'.profiles.get? "users" = some 2 ∧ ¬DrainFinal s (.insert 1) s' := by
  have hreach : ∀ {actions s}, Machine.run DrainState.next {} actions = some s →
      (drain (R := Nat)).Reach (fun _ _ => True) s := fun hrun =>
    (Machine.Reach.init rfl).run (fun _ h => h) (fun _ _ _ => trivial) hrun
  refine ⟨?_, ?_, ?_⟩
  · refine ⟨_, _, hreach (show Machine.run _ _ overtakenCalls = _ from rfl), rfl, rfl, rfl, rfl,
      fun h => ?_⟩
    exact absurd (h.count rfl) (by decide)
  · refine ⟨_, _, hreach (show Machine.run _ _ overtakenCalls = _ from rfl), rfl, rfl, rfl, fun h => ?_⟩
    exact h.unused rfl 2 rfl
  · refine ⟨_, _, hreach (show Machine.run _ _ (overtakenCalls ++ [.close, .clear]) = _ from rfl),
      rfl, rfl, by decide, fun h => ?_⟩
    exact absurd (congrArg OrdMap.size (h.profiles rfl)) (by decide)

end McpgSql.Plugin
