import McpgSql.Breaker.Circuit
import McpgSql.Protocol

/-!
# Calls through the breaker

What `execute_inner` does to the breaker of its binding: a call is admitted, runs,
and its outcome is recorded as a success unless it is a timeout or a transport
error. Calls overlap (`callMachine`); their runs are runs of the breaker
(`reach_breaker`).

An operator-class error is recorded as a success. It is without effect exactly
when the call is no probe and no failure is counted (`operator_error_ignored`).
-/

namespace McpgSql.Breaker

open Library

/-- What a call ends in; the response is not looked at. -/
abbrev Outcome := Except BackendError Unit

/-- What `execute_inner` records. -/
def recordsSuccess : Outcome → Bool
  | .error (.timeout _) | .error (.transport _) => false
  | _ => true

/-- The call failed by its request or configuration. -/
def operatorClass : Outcome → Bool
  | .error (.invalidSpec _) | .error (.profileNotFound _) => true
  | _ => false

/-- `execute_inner` of a call that nothing comes between, where the call itself ends
in `outcome` at `finish`. -/
def executeInner (redact : String → String) (b : CircuitBreaker) (start finish : Nat)
    (outcome : Outcome) : CircuitBreaker × Outcome :=
  match b.tryAdmit start with
  | (b, .error e) => (b, .error (.ofSql redact e))
  | (b, .ok g) => (g.record b (recordsSuccess outcome) finish, outcome)

/-! ## Overlapping calls -/

/-- A breaker, the calls it has admitted, and the clock. -/
structure Calls where
  breaker : CircuitBreaker
  inFlight : List (Nat × AdmitGuard) := []
  now : Nat
deriving DecidableEq, Repr

/-- A call is named by a number. -/
inductive CallAction where
  | start (id : Nat) (now : Nat)
  | finish (id : Nat) (outcome : Outcome) (now : Nat)

def CallAction.id : CallAction → Nat
  | .start id _ => id
  | .finish id _ _ => id

/-- The calls after an action, `none` when it cannot happen. A call that is not
admitted ends at once. -/
def Calls.next (c : Calls) : CallAction → Option Calls
  | .start id now =>
    if now < c.now then none
    else match c.breaker.tryAdmit now with
      | (b, .ok g) => some ⟨b, c.inFlight ++ [(id, g)], now⟩
      | (b, .error _) => some ⟨b, c.inFlight, now⟩
  | .finish id outcome now =>
    if now < c.now then none
    else (c.inFlight.find? fun call => call.1 = id).map fun call =>
      ⟨call.2.record c.breaker (recordsSuccess outcome) now,
        c.inFlight.eraseP fun call => call.1 = id, now⟩

/-- The runs of calls on a binding whose breaker has this configuration. -/
def callMachine (config : CircuitBreakerConfig) : Machine Calls CallAction where
  init c := c.breaker = { config } ∧ c.inFlight = []
  step c a c' := c.next a = some c'

/-- A call that nothing comes between is a run. -/
theorem executeInner_run (redact : String → String) (b : CircuitBreaker) {start finish : Nat}
    (h : start ≤ finish) (outcome : Outcome) : ∃ actions c',
      Machine.run Calls.next ⟨b, [], start⟩ actions = some c' ∧ c'.inFlight = [] ∧
        c'.breaker = (executeInner redact b start finish outcome).1 := by
  cases htry : b.tryAdmit start with
  | mk b' answer =>
    cases answer with
    | error e =>
      refine ⟨[.start 0 start], ⟨b', [], start⟩, ?_, rfl, ?_⟩
      · simp [Machine.run, Calls.next, htry]
      · simp [executeInner, htry]
    | ok g =>
      refine ⟨[.start 0 start, .finish 0 outcome finish],
        ⟨g.record b' (recordsSuccess outcome) finish, [], finish⟩, ?_, rfl, ?_⟩
      · simp [Machine.run, Calls.next, htry, Nat.not_lt_of_le h]
      · simp [executeInner, htry]

/-- The breaker with its guards. -/
def Calls.world (c : Calls) (history : List Entry) : World :=
  ⟨c.breaker, c.inFlight.map Prod.snd, c.now, history⟩

section

variable {config : CircuitBreakerConfig} {c c' : Calls} {id now : Nat} {g : AdmitGuard}

/-- The call that ends is one of the guards, and the others are left. -/
theorem guard_of_find? {call : Nat × AdmitGuard}
    (h : (c.inFlight.find? fun call => call.1 = id) = some call) :
    ∃ i, (c.inFlight.map Prod.snd)[i]? = some call.2 ∧
      (c.inFlight.eraseP fun call => call.1 = id).map Prod.snd =
        (c.inFlight.map Prod.snd).eraseIdx i := by
  obtain ⟨hid, before, after, hsplit, hnot⟩ := List.find?_eq_some_iff_append.mp h
  refine ⟨before.length, ?_, ?_⟩
  · simp [hsplit]
  · have hb : ∀ call ∈ before, ¬(decide (call.1 = id)) = true := fun call hc => by
      simpa using hnot call hc
    rw [hsplit, List.eraseP_append_right _ hb, List.eraseP_cons, hid]
    simp [List.eraseIdx_append_of_length_le]

/-- Every step of the calls is one of the breaker. -/
theorem world_step {a : CallAction} (h : c.next a = some c') (history : List Entry) :
    ∃ action history', (c.world history).next action = some (c'.world history') := by
  cases a with
  | start id now =>
    simp only [Calls.next] at h
    split at h
    · cases h
    · rename_i hnow
      refine ⟨.tryAdmit now, ?_⟩
      cases htry : c.breaker.tryAdmit now with
      | mk b answer =>
        cases answer with
        | ok g =>
          simp only [htry, Option.some.injEq] at h
          subst h
          exact ⟨_, by simp [World.next, Calls.world, hnow, htry, World.after]; rfl⟩
        | error e =>
          simp only [htry, Option.some.injEq] at h
          subst h
          exact ⟨_, by simp [World.next, Calls.world, hnow, htry, World.after]; rfl⟩
  | finish id outcome now =>
    simp only [Calls.next] at h
    split at h
    · cases h
    · rename_i hnow
      obtain ⟨call, hfind, rfl⟩ := Option.map_eq_some_iff.mp h
      obtain ⟨i, hi, herase⟩ := guard_of_find? hfind
      refine ⟨.record i (recordsSuccess outcome) now, ?_⟩
      exact ⟨_, by simp [World.next, Calls.world, hnow, hi, herase, World.after]; rfl⟩

/-- The runs of calls are runs of the breaker. -/
theorem reach_breaker {ok : Calls → CallAction → Prop} (h : (callMachine config).Reach ok c) :
    ∃ history, (breakerMachine config).Reach (fun _ _ => True) (c.world history) := by
  induction h with
  | init h₀ => exact ⟨[], .init ⟨h₀.1, by simp [Calls.world, h₀.2], rfl⟩⟩
  | step _ _ hst ih =>
    obtain ⟨history, hr⟩ := ih
    obtain ⟨action, history', hnext⟩ := world_step hst history
    exact ⟨history', hr.step trivial hnext⟩

/-! ## Calls that end in an operator-class error -/

theorem recordsSuccess_of_operatorClass {outcome : Outcome} (h : operatorClass outcome = true) :
    recordsSuccess outcome = true := by
  match outcome, h with
  | .error (.invalidSpec _), _ => rfl
  | .error (.profileNotFound _), _ => rfl

/-- The counter and whether the breaker is closed are as before. -/
def Untouched (b b' : CircuitBreaker) : Prop :=
  b'.consecutiveFailures = b.consecutiveFailures ∧ (b'.state = .closed ↔ b.state = .closed)

/-- A call that is started or ended. -/
def Calls.guard? (c : Calls) (id : Nat) : Option AdmitGuard :=
  (c.inFlight.find? fun call => call.1 = id).map Prod.snd

/-- The end of a call in an operator-class error leaves the breaker untouched
exactly when the call is no probe and no failure is counted. -/
theorem untouched_iff (hvalid : config.validate = .ok ()) {ok : Calls → CallAction → Prop}
    (h : (callMachine config).Reach ok c) {outcome : Outcome}
    (hclass : operatorClass outcome = true) (hg : c.guard? id = some g)
    (hst : c.next (.finish id outcome now) = some c') :
    Untouched c.breaker c'.breaker ↔ g.probe = false ∧ c.breaker.consecutiveFailures = 0 := by
  obtain ⟨hthreshold, -⟩ := CircuitBreakerConfig.validate_ok hvalid
  obtain ⟨history, hr⟩ := reach_breaker h
  have hI := reach_inv hthreshold hr
  obtain ⟨call, hfind, rfl⟩ := Option.map_eq_some_iff.mp hg
  obtain ⟨i, hi, -⟩ := guard_of_find? hfind
  simp only [Calls.next, hfind, Option.map_some] at hst
  split at hst
  · cases hst
  · cases hst
    simp only [AdmitGuard.record, recordsSuccess_of_operatorClass hclass, if_true, Untouched,
      CircuitBreaker.recordSuccess]
    cases hp : call.2.probe with
    | true =>
      -- The probe closes the half-open breaker.
      have hs : c.breaker.state = .halfOpen := (hI.halfOpen_of_probe hi hp).1
      simp [hs]
    | false =>
      simp only [Bool.false_eq_true, if_false, and_true, true_and]
      exact eq_comm

/-! ## The run without these calls -/

/-- The calls that `skip` names are started while the breaker is closed, and end in
an operator-class error while no failure is counted. -/
def Harmless (skip : Nat → Bool) (c : Calls) : CallAction → Prop
  | .start id _ => skip id = true → c.breaker.state = .closed
  | .finish id outcome _ => skip id = true →
    operatorClass outcome = true ∧ c.breaker.consecutiveFailures = 0

instance (skip : Nat → Bool) (c : Calls) (a : CallAction) : Decidable (Harmless skip c a) := by
  cases a <;> exact inferInstanceAs (Decidable (_ → _))

/-- `d` is `c` without the calls that `skip` names. -/
structure Without (skip : Nat → Bool) (c d : Calls) : Prop where
  breaker : d.breaker = c.breaker
  inFlight : d.inFlight = c.inFlight.filter fun call => !skip call.1
  now : d.now ≤ c.now
  noProbe : ∀ call ∈ c.inFlight, skip call.1 = true → call.2.probe = false

variable {skip : Nat → Bool} {d : Calls}

/-- A call that is not kept may be taken out. -/
theorem filter_eraseP (hid : skip id = true) (calls : List (Nat × AdmitGuard)) :
    (calls.eraseP fun call => call.1 = id).filter (fun call => !skip call.1) =
      calls.filter fun call => !skip call.1 := by
  induction calls with
  | nil => rfl
  | cons call calls ih =>
    by_cases hc : call.1 = id
    · simp [hc, hid]
    · simp [hc, List.filter_cons, ih]

/-- A skipped call changes nothing. -/
theorem Without.skipped {a : CallAction} (h : Without skip c d) (hok : Harmless skip c a)
    (hst : c.next a = some c') (hs : skip a.id = true) : Without skip c' d := by
  cases a with
  | start id now =>
    have hclosed : c.breaker.state = .closed := hok hs
    have hid : skip id = true := hs
    simp only [Calls.next, CircuitBreaker.tryAdmit, hclosed] at hst
    split at hst
    · cases hst
    · rename_i hnow
      cases hst
      refine ⟨h.breaker, ?_, Nat.le_trans h.now (Nat.le_of_not_lt hnow), fun call hcall hskip => ?_⟩
      · simp [h.inFlight, List.filter_append, hid]
      · rcases List.mem_append.mp hcall with hcall | hcall
        · exact h.noProbe call hcall hskip
        · rw [List.mem_singleton.mp hcall]
  | finish id outcome now =>
    obtain ⟨hclass, hcount⟩ := hok hs
    have hid : skip id = true := hs
    simp only [Calls.next] at hst
    split at hst
    · cases hst
    · rename_i hnow
      obtain ⟨call, hfind, rfl⟩ := Option.map_eq_some_iff.mp hst
      have hcall : call.1 = id := by simpa using List.find?_some hfind
      have hp := h.noProbe call (List.mem_of_find?_eq_some hfind) (hcall ▸ hid)
      refine ⟨?_, h.inFlight.trans (filter_eraseP hid _).symm,
        Nat.le_trans h.now (Nat.le_of_not_lt hnow), fun call hcall => h.noProbe call (List.mem_of_mem_eraseP hcall)⟩
      simp [h.breaker, AdmitGuard.record, recordsSuccess_of_operatorClass hclass,
        CircuitBreaker.recordSuccess, hp, ← hcount]

/-- The other calls do the same in both runs. -/
theorem Without.kept {a : CallAction} (h : Without skip c d) (hst : c.next a = some c')
    (hs : skip a.id = false) : ∃ d', d.next a = some d' ∧ Without skip c' d' := by
  have hnow := h.now
  cases a with
  | start id now =>
    have hid : skip id = false := hs
    simp only [Calls.next] at hst
    split at hst
    · cases hst
    · rename_i hle
      have hle' : ¬now < d.now := by omega
      cases htry : c.breaker.tryAdmit now with
      | mk b answer =>
        cases answer with
        | ok g =>
          simp only [htry, Option.some.injEq] at hst
          subst hst
          refine ⟨⟨b, d.inFlight ++ [(id, g)], now⟩, ?_, rfl, ?_, Nat.le_refl _,
            fun call hcall hskip => ?_⟩
          · simp [Calls.next, hle', h.breaker, htry]
          · simp [h.inFlight, List.filter_append, hid]
          · rcases List.mem_append.mp hcall with hcall | hcall
            · exact h.noProbe call hcall hskip
            · rw [List.mem_singleton.mp hcall, hid] at hskip
              cases hskip
        | error e =>
          simp only [htry, Option.some.injEq] at hst
          subst hst
          refine ⟨⟨b, d.inFlight, now⟩, ?_, rfl, h.inFlight, Nat.le_refl _, h.noProbe⟩
          simp [Calls.next, hle', h.breaker, htry]
  | finish id outcome now =>
    have hid : skip id = false := hs
    simp only [Calls.next] at hst
    split at hst
    · cases hst
    · rename_i hle
      have hle' : ¬now < d.now := by omega
      obtain ⟨call, hfind, rfl⟩ := Option.map_eq_some_iff.mp hst
      -- The call is kept, so it is the same one in both.
      have hsame : (fun call : Nat × AdmitGuard => decide (call.1 = id) && !skip call.1) =
          fun call => decide (call.1 = id) := by
        funext call
        by_cases hc : call.1 = id <;> simp [hc, hid]
      have hfind' : (d.inFlight.find? fun call => call.1 = id) = some call := by
        rw [h.inFlight, List.find?_filter, ← hfind, ← hsame]
        congr 1
        funext call
        simp [Bool.and_comm]
      refine ⟨⟨call.2.record d.breaker (recordsSuccess outcome) now,
        d.inFlight.eraseP fun call => call.1 = id, now⟩, ?_, ?_, ?_, Nat.le_refl _,
        fun call hcall => h.noProbe call (List.mem_of_mem_eraseP hcall)⟩
      · simp only [Calls.next, hle', if_false, hfind', Option.map_some]
      · rw [h.breaker]
      · rw [h.inFlight, List.eraseP_filter, hsame]

end

/-- The end of a call in an operator-class error leaves the failure count and the
closed or open state as they are exactly when the call is no probe and no failure
is counted; and in a run where that is so for the calls that `skip` names, the
breaker ends as in the run without these calls. -/
theorem operator_error_ignored {config : CircuitBreakerConfig} (hvalid : config.validate = .ok ()) :
    (∀ c, (callMachine config).Reach (fun _ _ => True) c → ∀ id outcome now g c',
      operatorClass outcome = true → c.guard? id = some g →
      c.next (.finish id outcome now) = some c' →
      (Untouched c.breaker c'.breaker ↔ g.probe = false ∧ c.breaker.consecutiveFailures = 0)) ∧
    ∀ (skip : Nat → Bool) (c : Calls) (actions : List CallAction) (c' : Calls),
      (callMachine config).init c → Machine.run Calls.next c actions = some c' →
      Machine.Along Calls.next (Harmless skip) c actions →
      ∃ d, Machine.run Calls.next c (actions.filter fun a => !skip a.id) = some d ∧
        d.breaker = c'.breaker := by
  constructor
  · intro c h id outcome now g c' hclass hg hst
    exact untouched_iff hvalid h hclass hg hst
  · intro skip c actions c' hinit hrun hok
    have hR : Without skip c c :=
      ⟨rfl, by simp [hinit.2], Nat.le_refl _, by simp [hinit.2]⟩
    obtain ⟨d, hd, hR⟩ := Machine.run_filter (fun a : CallAction => skip a.id) (Without skip)
      (fun hok hst hR hs => hR.skipped hok hst hs) (fun _ hst hR hs => hR.kept hst hs) hok hrun hR
    exact ⟨d, hd, hR.breaker⟩

/-! ## An error that is not ignored -/

/-- A breaker that trips at two failures. -/
def twoStrikes : Calls := { breaker := { config := ⟨2, 1⟩ }, now := 0 }

/-- A call that fails, one whose request is invalid, and a call that fails. -/
def resetStreak : List CallAction :=
  [.start 1 0, .finish 1 (.error (.transport "connect: refused")) 1, .start 2 2,
    .finish 2 (.error (.invalidSpec "missing required parameter 'id'")) 3, .start 3 4,
    .finish 3 (.error (.transport "connect: refused")) 5]

/-- Two calls that fail, and a probe whose request is invalid. -/
def closeByProbe : List CallAction :=
  [.start 1 0, .finish 1 (.error (.transport "connect: refused")) 1, .start 2 2,
    .finish 2 (.error (.timeout 30000)) 3, .start 3 1000003,
    .finish 3 (.error (.invalidSpec "missing required parameter 'id'")) 1000004]

/-- An invalid request resets the failures in a row, so that the breaker does not
trip, and as the probe it closes the breaker. -/
theorem operator_error_counts :
    (Machine.run Calls.next twoStrikes resetStreak).map (·.breaker.state) = some .closed ∧
    (Machine.run Calls.next twoStrikes (resetStreak.filter fun a => a.id ≠ 2)).map
      (·.breaker.state) = some .opened ∧
    (Machine.run Calls.next twoStrikes closeByProbe).map (·.breaker.state) = some .closed ∧
    (Machine.run Calls.next twoStrikes (closeByProbe.filter fun a => a.id ≠ 3)).map
      (·.breaker.state) = some .opened := by
  decide

/-- An invalid request between two successes is ignored. -/
theorem invalid_request_ignored : ∃ d,
    Machine.run Calls.next twoStrikes [.start 1 0, .finish 1 (.ok ()) 2] = some d ∧
    some d.breaker = (Machine.run Calls.next twoStrikes
      [.start 1 0, .start 2 1, .finish 1 (.ok ()) 2,
        .finish 2 (.error (.invalidSpec "missing required parameter 'id'")) 3]).map
        Calls.breaker := by
  obtain ⟨d, hd, hb⟩ := (operator_error_ignored
    (show (⟨2, 1⟩ : CircuitBreakerConfig).validate = .ok () by decide)).2 (fun id => id = 2)
    twoStrikes [.start 1 0, .start 2 1, .finish 1 (.ok ()) 2,
      .finish 2 (.error (.invalidSpec "missing required parameter 'id'")) 3] _ ⟨rfl, rfl⟩ rfl
    (by decide)
  exact ⟨d, hd, congrArg some hb⟩

end McpgSql.Breaker
