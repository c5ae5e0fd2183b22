import McpgSql.Library.Machine

/-!
# Await loops and the drain

`execute_await_loop` fires its trigger, then runs its check query, decides on the row,
and sleeps for the poll interval. Only in that sleep it listens to `drain_notify`.
`shutdown` sets the flag that keeps new calls out and notifies once. `notify_waiters`
reaches the loops that listen at that moment and leaves nothing behind for the others.

`drain_wakes_loops`: in every run in which each loop is asleep when `shutdown` notifies,
and then takes the notification and not its timer, no loop goes to sleep after it. A
loop that is awake then goes on as before: where its check does not match before its
deadline it sleeps, and checks again after it (`awake_checks_again`).
-/

namespace McpgSql.Plugin

open Library

/-- Where an await loop is. -/
inductive AwaitPhase where
  /-- Past the look of `execute` at the flag. -/
  | admitted
  | triggering
  | checking
  /-- With the answer of the check, which satisfies the predicate or not. -/
  | deciding (matched : Bool)
  /-- In the `select!` of the timer and the notification. -/
  | sleeping (wakeAt : Nat) (notified : Bool)
  | returned
deriving DecidableEq, Repr

structure AwaitLoop where
  hasTrigger : Bool
  pollIntervalMs : Nat
  timeoutMs : Nat
  phase : AwaitPhase := .admitted
  deadline : Nat := 0
  /-- It went to sleep after the notification. -/
  sleptLate : Bool := false
  /-- It ran a check after such a sleep. -/
  checkedLate : Bool := false
deriving DecidableEq, Repr

structure AwaitState where
  loops : List AwaitLoop := []
  draining : Bool := false
  /-- `shutdown` has called `notify_waiters`. -/
  notified : Bool := false
  /-- Milliseconds. -/
  now : Nat := 0
deriving DecidableEq, Repr

/-- The steps of a loop. -/
inductive AwaitStep where
  | enter
  | triggered
  | checked (matched : Bool)
  | decide
  | timer
  | notification
  /-- The loop ends with an error, or its future is dropped. -/
  | fail
deriving DecidableEq, Repr

/-- A loop is named by its place. -/
inductive AwaitAction where
  | tick (ms : Nat)
  | execute (hasTrigger : Bool) (pollIntervalMs timeoutMs : Nat)
  | loop (i : Nat) (step : AwaitStep)
  | shutdown
  | notify
deriving DecidableEq, Repr

namespace AwaitLoop

variable (l : AwaitLoop)

/-- The loop begins its checks; the time it has counts from here. -/
def begin (now : Nat) : AwaitLoop :=
  { l with phase := .checking, deadline := now + l.timeoutMs }

/-- The next sleep, which ends at the deadline at the latest. -/
def sleep (now : Nat) (notified : Bool) : AwaitLoop :=
  { l with
    phase := .sleeping (now + min l.pollIntervalMs (l.deadline - now)) false
    sleptLate := l.sleptLate || notified }

/-- `notify_waiters`, to one loop. -/
def wake : AwaitLoop :=
  match l.phase with
  | .sleeping wakeAt _ => { l with phase := .sleeping wakeAt true }
  | _ => l

/-- What the loop at hand does; `none` where it cannot. -/
def next (now : Nat) (notified : Bool) : AwaitStep → Option AwaitLoop
  | .enter => match l.phase with
    | .admitted => some (if l.hasTrigger then { l with phase := .triggering } else l.begin now)
    | _ => none
  | .triggered => match l.phase with
    | .triggering => some (l.begin now)
    | _ => none
  | .checked matched => match l.phase with
    | .checking => some { l with phase := .deciding matched }
    | _ => none
  | .decide => match l.phase with
    | .deciding true => some { l with phase := .returned }
    | .deciding false =>
      if now ≥ l.deadline then some { l with phase := .returned } else some (l.sleep now notified)
    | _ => none
  | .timer => match l.phase with
    | .sleeping wakeAt _ =>
      if now ≥ wakeAt then some { l with phase := .checking, checkedLate := l.checkedLate || l.sleptLate }
      else none
    | _ => none
  | .notification => match l.phase with
    | .sleeping _ true => some { l with phase := .returned }
    | _ => none
  | .fail => some { l with phase := .returned }

end AwaitLoop

namespace AwaitState

variable (s : AwaitState)

def next : AwaitAction → Option AwaitState
  | .tick ms => some { s with now := s.now + ms }
  | .execute hasTrigger pollIntervalMs timeoutMs =>
    if s.draining then some s
    else some { s with loops := s.loops ++ [{ hasTrigger, pollIntervalMs, timeoutMs }] }
  | .loop i step => (s.loops[i]?).bind fun l =>
    (l.next s.now s.notified step).map fun l' => { s with loops := s.loops.set i l' }
  | .shutdown => some { s with draining := true }
  | .notify =>
    if s.draining ∧ ¬s.notified then
      some { s with loops := s.loops.map AwaitLoop.wake, notified := true }
    else none

end AwaitState

/-- Await loops and `shutdown`, from the plugin's creation on. -/
def awaitLoops : Machine AwaitState AwaitAction where
  init s := s = {}
  step s a s' := s.next a = some s'

/-- No loop went to sleep after the notification, and none ran a check after such a sleep. -/
def Woken (s : AwaitState) : Prop :=
  ∀ l ∈ s.loops, l.sleptLate = false ∧ l.checkedLate = false

/-- The loop listens, or it has nothing left to do. -/
def AwaitPhase.isAsleep : AwaitPhase → Bool
  | .sleeping .. | .returned => true
  | _ => false

/-- The notification has reached the loop, or it has nothing left to do. -/
def AwaitPhase.isNotified : AwaitPhase → Bool
  | .sleeping _ notified => notified
  | .returned => true
  | _ => false

/-- Each loop is asleep when `shutdown` notifies, and one that is notified takes that. -/
def AsleepAtNotify (s : AwaitState) : AwaitAction → Prop
  | .notify => ∀ l ∈ s.loops, l.phase.isAsleep
  | .loop i .timer => ∀ l ∈ s.loops[i]?, l.phase.isNotified = false
  | _ => True

instance (s : AwaitState) : (a : AwaitAction) → Decidable (AsleepAtNotify s a)
  | .notify => inferInstanceAs (Decidable (∀ l ∈ s.loops, l.phase.isAsleep))
  | .loop i .timer => inferInstanceAs (Decidable (∀ l ∈ s.loops[i]?, l.phase.isNotified = false))
  | .loop _ .enter | .loop _ .triggered | .loop _ (.checked _) | .loop _ .decide
  | .loop _ .notification | .loop _ .fail => isTrue trivial
  | .tick _ | .execute .. | .shutdown => isTrue trivial

/-! ## What a step does -/

variable {s s' : AwaitState} {a : AwaitAction} {l l' : AwaitLoop} {step : AwaitStep}
  {now : Nat} {notified : Bool}

/-- The steps of a loop by what they change. -/
inductive LoopStep (l : AwaitLoop) (now : Nat) (notified : Bool) : AwaitStep → AwaitLoop → Prop
  /-- It goes on, awake before and after. -/
  | proceed {step : AwaitStep} {phase : AwaitPhase} {deadline : Nat}
      (hawake : l.phase.isAsleep = false) : LoopStep l now notified step { l with phase, deadline }
  | sleep (hphase : l.phase = .deciding false) (hnow : now < l.deadline) :
      LoopStep l now notified .decide (l.sleep now notified)
  | timer {wakeAt : Nat} {b : Bool} (hphase : l.phase = .sleeping wakeAt b) (hnow : wakeAt ≤ now) :
      LoopStep l now notified .timer
        { l with phase := .checking, checkedLate := l.checkedLate || l.sleptLate }
  | ret {step : AwaitStep} : LoopStep l now notified step { l with phase := .returned }

theorem loopStep_of_next (h : l.next now notified step = some l') : LoopStep l now notified step l' := by
  cases step with
  | enter =>
    simp only [AwaitLoop.next] at h
    split at h
    · rename_i hphase
      cases h
      split
      · exact .proceed (by rw [hphase]; rfl)
      · exact .proceed (by rw [hphase]; rfl)
    · cases h
  | triggered =>
    simp only [AwaitLoop.next] at h
    split at h
    · rename_i hphase
      cases h
      exact .proceed (by rw [hphase]; rfl)
    · cases h
  | checked matched =>
    simp only [AwaitLoop.next] at h
    split at h
    · rename_i hphase
      cases h
      exact .proceed (by rw [hphase]; rfl)
    · cases h
  | decide =>
    simp only [AwaitLoop.next] at h
    split at h
    · cases h; exact .ret
    · rename_i hphase
      split at h
      · cases h; exact .ret
      · rename_i hnow
        cases h
        exact .sleep hphase (by omega)
    · cases h
  | timer =>
    simp only [AwaitLoop.next] at h
    split at h
    · rename_i hphase
      split at h
      · rename_i hnow
        cases h
        exact .timer hphase hnow
      · cases h
    · cases h
  | notification =>
    simp only [AwaitLoop.next] at h
    split at h
    · cases h; exact .ret
    · cases h
  | fail => cases h; exact .ret

theorem AwaitPhase.isNotified_of_isAsleep {phase : AwaitPhase} (h : phase.isAsleep = false) :
    phase.isNotified = false := by
  cases phase <;> first | rfl | cases h

/-! ## Runs -/

def AwaitLoop.Punctual (l : AwaitLoop) : Prop := l.sleptLate = false ∧ l.checkedLate = false

/-- Before the notification nothing is late. -/
theorem LoopStep.early (h : LoopStep l now false step l') (hl : l.Punctual) : l'.Punctual := by
  obtain ⟨hslept, hchecked⟩ := hl
  cases h with
  | proceed _ => exact ⟨hslept, hchecked⟩
  | sleep _ _ => exact ⟨by simp [AwaitLoop.sleep, hslept], hchecked⟩
  | timer _ _ => exact ⟨hslept, by simp [hslept, hchecked]⟩
  | ret => exact ⟨hslept, hchecked⟩

/-- A loop that the notification has reached returns with it. -/
theorem LoopStep.late (h : LoopStep l now notified step l') (hl : l.phase.isNotified = true)
    (hstep : step = .timer → l.phase.isNotified = false) : l' = { l with phase := .returned } := by
  cases h with
  | proceed hawake => rw [AwaitPhase.isNotified_of_isAsleep hawake] at hl; cases hl
  | sleep hphase _ => rw [hphase] at hl; cases hl
  | timer _ _ => rw [hstep rfl] at hl; cases hl
  | ret => rfl

theorem AwaitLoop.wake_punctual (hl : l.Punctual) : l.wake.Punctual := by
  unfold AwaitLoop.wake
  split
  · exact hl
  · exact hl

theorem AwaitLoop.wake_isNotified (hl : l.phase.isAsleep = true) : l.wake.phase.isNotified = true := by
  unfold AwaitLoop.wake
  split
  · rfl
  · rename_i hphase
    cases hp : l.phase with
    | sleeping wakeAt b => exact absurd hp (hphase wakeAt b)
    | returned => rfl
    | admitted | triggering | checking | deciding _ => rw [hp] at hl; cases hl

/-- Nothing is late, and after the notification every loop has it or has returned. -/
structure Listening (s : AwaitState) : Prop where
  punctual : ∀ l ∈ s.loops, l.Punctual
  draining : s.notified = true → s.draining = true
  reached : s.notified = true → ∀ l ∈ s.loops, l.phase.isNotified = true

theorem Listening.loop (h : Listening s) {i : Nat} (hi : s.loops[i]? = some l)
    (hok : AsleepAtNotify s (.loop i step)) (hstep : LoopStep l s.now s.notified step l') :
    Listening { s with loops := s.loops.set i l' } := by
  have hmem := List.mem_of_getElem? hi
  have htimer : step = .timer → l.phase.isNotified = false := by
    rintro rfl
    exact hok l hi
  refine ⟨fun k hk => ?_, h.draining, fun hn k hk => ?_⟩
  · rcases List.mem_or_eq_of_mem_set hk with hk | rfl
    · exact h.punctual k hk
    · cases hn : s.notified with
      | false =>
        rw [hn] at hstep
        exact hstep.early (h.punctual l hmem)
      | true =>
        rw [hstep.late (h.reached hn l hmem) htimer]
        exact h.punctual l hmem
  · rcases List.mem_or_eq_of_mem_set hk with hk | rfl
    · exact h.reached hn k hk
    · rw [hstep.late (h.reached hn l hmem) htimer]
      rfl

theorem Listening.notify (h : Listening s) (hok : ∀ l ∈ s.loops, l.phase.isAsleep = true)
    (hdraining : s.draining = true) :
    Listening { s with loops := s.loops.map AwaitLoop.wake, notified := true } := by
  refine ⟨fun k hk => ?_, fun _ => hdraining, fun _ k hk => ?_⟩
  · obtain ⟨l, hl, rfl⟩ := List.mem_map.mp hk
    exact AwaitLoop.wake_punctual (h.punctual l hl)
  · obtain ⟨l, hl, rfl⟩ := List.mem_map.mp hk
    exact AwaitLoop.wake_isNotified (hok l hl)

theorem Listening.next (h : Listening s) (hok : AsleepAtNotify s a) (hstep : s.next a = some s') :
    Listening s' := by
  cases a with
  | tick ms => cases hstep; exact ⟨h.punctual, h.draining, h.reached⟩
  | execute hasTrigger pollIntervalMs timeoutMs =>
    simp only [AwaitState.next] at hstep
    split at hstep
    · cases hstep; exact h
    · -- The flag is not set, so nothing was notified.
      rename_i hflag
      cases hstep
      refine ⟨fun l hl => ?_, h.draining, fun hn => absurd (h.draining hn) hflag⟩
      rcases List.mem_append.mp hl with hl | hl
      · exact h.punctual l hl
      · rw [List.mem_singleton.mp hl]
        exact ⟨rfl, rfl⟩
  | loop i step =>
    obtain ⟨l, hi, hstep⟩ := Option.bind_eq_some_iff.mp hstep
    obtain ⟨l', hl', rfl⟩ := Option.map_eq_some_iff.mp hstep
    exact h.loop hi hok (loopStep_of_next hl')
  | shutdown => cases hstep; exact ⟨h.punctual, fun _ => rfl, h.reached⟩
  | notify =>
    simp only [AwaitState.next] at hstep
    split at hstep
    · rename_i hphase
      cases hstep
      exact h.notify hok hphase.1
    · cases hstep

theorem listening_of_reach (h : awaitLoops.Reach AsleepAtNotify s) : Listening s := by
  refine h.invariant (fun h₀ => ?_) fun hok hstep hI => hI.next hok hstep
  cases h₀
  exact ⟨nofun, nofun, nofun⟩

/-- In every run in which the notification finds each loop asleep, no loop goes to sleep after
it. -/
theorem drain_wakes_loops (h : awaitLoops.Reach AsleepAtNotify s) : Woken s :=
  (listening_of_reach h).punctual

/-- Two loops, one of which has returned when the other is notified in its sleep. -/
def notifiedAsleep : List AwaitAction :=
  [.execute true 5000 60000, .loop 0 .enter, .execute false 1000 60000, .loop 1 .enter,
    .loop 1 (.checked true), .loop 0 .triggered, .loop 0 (.checked false), .loop 1 .decide,
    .loop 0 .decide, .shutdown, .notify, .loop 0 .notification]

theorem notifiedAsleep_woken :
    ∃ s, Machine.run AwaitState.next {} notifiedAsleep = some s ∧ s.notified = true ∧
      (∀ l ∈ s.loops, l.phase = .returned) ∧ Woken s := by
  have hrun : awaitLoops.Reach AsleepAtNotify _ :=
    (Machine.Reach.init rfl).along (fun _ h => h) (by decide)
      (show Machine.run AwaitState.next {} notifiedAsleep = _ from rfl)
  exact ⟨_, rfl, rfl, by decide, drain_wakes_loops hrun⟩

/-! ## Loops that are awake -/

/-- The rest of a poll of the loop at `i`, and the next one. -/
def pollOnce (i ms : Nat) : List AwaitAction :=
  [.loop i (.checked false), .loop i .decide, .tick ms, .loop i .timer]

/-- A loop that is in its check after the notification, where the check does not match
before the deadline, sleeps and checks again. -/
theorem awake_checks_again {i : Nat} (hn : s.notified = true) (hi : s.loops[i]? = some l)
    (hphase : l.phase = .checking) (hdeadline : s.now < l.deadline) :
    ∃ ms s', Machine.run AwaitState.next s (pollOnce i ms) = some s' ∧ ¬Woken s' := by
  obtain ⟨hlt, hl⟩ := List.getElem?_eq_some_iff.mp hi
  refine ⟨l.pollIntervalMs, { s with
    now := s.now + l.pollIntervalMs
    loops := s.loops.set i { l with
      phase := .checking, sleptLate := true, checkedLate := true } }, ?_, fun h => ?_⟩
  · have hnow : ¬s.now ≥ l.deadline := by omega
    have hwake : s.now + l.pollIntervalMs ≥ s.now + min l.pollIntervalMs (l.deadline - s.now) := by
      omega
    simp [pollOnce, Machine.run, AwaitState.next, AwaitLoop.next, AwaitLoop.sleep, hlt, hl, hphase, hn,
      hnow, hwake]
  · have := h _ (List.mem_set hlt _)
    cases this.1

/-- A loop that fires its trigger while `shutdown` notifies. -/
def notifiedAwake : List AwaitAction :=
  [.execute true 1000 60000, .loop 0 .enter, .shutdown, .notify, .loop 0 .triggered] ++ pollOnce 0 1000

theorem notifiedAwake_not_woken :
    ∃ s, awaitLoops.Reach (fun _ _ => True) s ∧ s.notified = true ∧
      s.loops.map AwaitLoop.phase = [.checking] ∧ ¬Woken s := by
  have hrun : awaitLoops.Reach (fun _ _ => True) _ :=
    (Machine.Reach.init rfl).run (fun _ h => h) (fun _ _ _ => trivial)
      (show Machine.run AwaitState.next {} notifiedAwake = _ from rfl)
  refine ⟨_, hrun, rfl, by decide, fun h => ?_⟩
  have := (h _ List.mem_cons_self).1
  cases this

end McpgSql.Plugin
