import Mathlib.Logic.Function.Basic
import McpgSql.Library.Broadcast
import McpgSql.Library.Machine
import McpgSql.Library.Shared
import McpgSql.Watch.Notify

/-!
# Watches that LISTEN

The watches of one `(url, channel)` share a connection: `listener` joins the one that
is registered or opens one outside the lock and checks again, a task of its own sends
each NOTIFY on to every watch, and the last watch that ends closes it. The calls of
`watch`, the tasks and the cancels interleave in any order (`listening`).

What a step can do is said once (`Step.of_next`); from it, what a step does to a
listener, a watch and a call (`Step.listener`, `Step.watch`, `Step.new_watch`,
`Step.joined_call`).
-/

namespace McpgSql.Watch

open Library

/-- How many notifications are kept for a watch that is slow. -/
def notificationBuffer : Nat := 1024

/-- The task of a listener: after an error of its connection it only waits. -/
inductive ReceiveTask where
  | receiving
  | failed
  | ended
deriving DecidableEq, Repr

/-- A `SharedListener` with its task, and what the task has sent: channel and payload. -/
structure Listener where
  key : String × String
  sent : List (String × String) := []
  cancelled : Bool := false
  task : ReceiveTask := .receiving
deriving DecidableEq, Repr

/-- An event, and how many notifications of its listener the watch had taken for it: the event
answers the last of them, and none that came later. -/
structure Emission where
  event : WatchEvent
  taken : Nat
deriving DecidableEq, Repr

/-- The task of a watch. `subscribed` and `started` are the notifications before it and
the state of its listener's task when `watch` returned. -/
structure WatchTask where
  uri : String
  spec : PostgresListenNotifyWatchSpec
  eventSource : Bool
  listener : Nat
  subscribed : Nat
  started : ReceiveTask
  next : Nat
  emitting : Option WatchEvent := none
  cancelled : Bool := false
  ended : Bool := false
  emitted : List Emission := []
deriving DecidableEq, Repr

/-- Where a call of `watch` is. -/
inductive CallPhase where
  | started
  | connecting
  | joined (listener : Nat)
deriving DecidableEq, Repr

structure WatchCall where
  uri : String
  spec : PostgresListenNotifyWatchSpec
  /-- `is_event_source` of the URI. -/
  eventSource : Bool
  phase : CallPhase := .started
deriving DecidableEq, Repr

def WatchCall.key (call : WatchCall) : String × String := (call.spec.url, call.spec.channel)

/-- The listener that a call holds. -/
def WatchCall.holds (call : WatchCall) : Option Nat :=
  match call.phase with
  | .joined id => some id
  | .started | .connecting => none

/-- The listener that a watch holds. -/
def WatchTask.holds (task : WatchTask) : Option Nat :=
  if task.ended then none else some task.listener

structure Listening where
  listeners : List (Shared Listener) := []
  /-- The listeners that are registered, by weak references. -/
  map : String × String → Option Nat := fun _ => none
  calls : List WatchCall := []
  watches : List WatchTask := []

inductive ListenAction where
  | call (uri : String) (spec : PostgresListenNotifyWatchSpec) (eventSource : Bool)
  | lookup (c : Nat)
  | connectFail (c : Nat)
  /-- The connection is open and listens: the second check. -/
  | connected (c : Nat)
  /-- The watch subscribes and `watch` returns. -/
  | subscribe (c : Nat)
  | notify (l : Nat) (payload : String)
  | recvError (l : Nat)
  /-- The task of a listener finds its token cancelled. -/
  | taskEnds (l : Nat)
  /-- The task of a watch takes its next step. -/
  | turn (i : Nat)
  | cancel (i : Nat)
deriving DecidableEq, Repr

/-- The step of a watch's task: it emits what it has, or it ends where it is cancelled,
or it takes the next notification. It holds a sender itself, so its channel is never
closed. -/
def WatchTask.turn (lib : NotifyLib) (task : WatchTask) (sent : List (String × String)) :
    Option WatchTask :=
  match task.emitting with
  | some event => some { task with
      emitting := none, emitted := task.emitted ++ [⟨event, task.next⟩] }
  | none =>
    if task.cancelled then some { task with ended := true }
    else (recv notificationBuffer sent task.next).map fun
      | (.value (channel, payload), next) =>
        if task.spec.changes lib payload task.uri then
          { task with next, emitting := some (eventFromPayload lib channel payload task.eventSource) }
        else { task with next }
      -- what it missed may have named this URI
      | (.lagged _, next) => { task with
          next, emitting := some (eventFromPayload lib task.spec.channel "" task.eventSource) }

/-- The steps of the watch until it has answered notification `k`: one for an event that it
is about to emit, and for each notification that is left one to take it and one to emit. -/
def WatchTask.stepsTo (task : WatchTask) (k : Nat) : Nat :=
  2 * (k + 1 - task.next) + if task.emitting.isSome then 1 else 0

namespace Listening

variable (lib : NotifyLib) (w : Listening)

/-- The references to the listeners. -/
def holders : List Nat := w.calls.filterMap WatchCall.holds ++ w.watches.filterMap WatchTask.holds

/-- The registered listener of a key, where a reference to it is left. -/
def upgrade (key : String × String) : Option Nat :=
  (w.map key).filter fun id => (w.listeners[id]?).any fun l => 0 < l.strong

/-- The call `c` has the listener `id`, which it cloned. -/
def join (c : Nat) (call : WatchCall) (id : Nat) : Listening :=
  { w with
    listeners := w.listeners.modify id Shared.clone
    calls := w.calls.set c { call with phase := .joined id } }

/-- A new listener is registered and its task spawned; entries without a listener go. -/
def register (c : Nat) (call : WatchCall) : Listening :=
  { w with
    listeners := w.listeners ++ [⟨1, { key := call.key }⟩]
    map := Function.update (fun key => w.upgrade key) call.key (some w.listeners.length)
    calls := w.calls.set c { call with phase := .joined w.listeners.length } }

/-- The listener changes behind its references. -/
def setListener (l : Nat) (f : Listener → Listener) : Listening :=
  { w with listeners := w.listeners.modify l (Shared.update f) }

/-- The last reference cancels the task of the listener. -/
def release (l : Nat) : Listening :=
  { w with listeners := w.listeners.modify l (Shared.release fun l => { l with cancelled := true }) }

def next : ListenAction → Option Listening
  | .call uri spec eventSource =>
    if spec.validate = .ok () then
      some { w with calls := w.calls ++ [{ uri, spec, eventSource }] }
    else none
  | .lookup c => (w.calls[c]?).bind fun call =>
    if call.phase = .started then
      some (match w.upgrade call.key with
        | some id => w.join c call id
        | none => { w with calls := w.calls.set c { call with phase := .connecting } })
    else none
  | .connectFail c => (w.calls[c]?).bind fun call =>
    if call.phase = .connecting then some { w with calls := w.calls.eraseIdx c } else none
  | .connected c => (w.calls[c]?).bind fun call =>
    if call.phase = .connecting then
      some (match w.upgrade call.key with
        -- another watch opened one meanwhile: ours is closed
        | some id => w.join c call id
        | none => w.register c call)
    else none
  | .subscribe c => (w.calls[c]?).bind fun call =>
    call.holds.bind fun id => (w.listeners[id]?).map fun l =>
      { w with
        calls := w.calls.eraseIdx c
        watches := w.watches ++ [{
          uri := call.uri
          spec := call.spec
          eventSource := call.eventSource
          listener := id
          subscribed := l.value.sent.length
          started := l.value.task
          next := l.value.sent.length }] }
  | .notify l payload => (w.listeners[l]?).bind fun s =>
    if s.value.task = .receiving then
      some (w.setListener l fun l => { l with sent := l.sent ++ [(l.key.2, payload)] })
    else none
  | .recvError l => (w.listeners[l]?).bind fun s =>
    if s.value.task = .receiving then some (w.setListener l fun l => { l with task := .failed })
    else none
  | .taskEnds l => (w.listeners[l]?).bind fun s =>
    if s.value.cancelled ∧ s.value.task ≠ .ended then
      some (w.setListener l fun l => { l with task := .ended })
    else none
  | .turn i => (w.watches[i]?).bind fun task =>
    if task.ended then none
    else (w.listeners[task.listener]?).bind fun s =>
      (task.turn lib s.value.sent).map fun task' =>
        let w := { w with watches := w.watches.set i task' }
        if task'.ended then w.release task.listener else w
  | .cancel i => (w.watches[i]?).map fun task =>
      { w with watches := w.watches.set i { task with cancelled := true } }

/-- Every `watch` that returned had a listener whose task received. -/
def Live : Prop := ∀ task ∈ w.watches, task.started = .receiving

/-- What the watch is to answer: a notification after its start that changes its URI. -/
def Concerns (task : WatchTask) (k : Nat) : Prop :=
  task.subscribed ≤ k ∧ ∃ s channel payload, w.listeners[task.listener]? = some s ∧
    s.value.sent[k]? = some (channel, payload) ∧ task.spec.changes lib payload task.uri = true

/-- The watch has emitted an event for which it had taken notification `k`. -/
def Answered (i k : Nat) : Prop :=
  ∃ task, w.watches[i]? = some task ∧ ∃ e ∈ task.emitted, k < e.taken

/-- Each watch that is not cancelled answers every notification that concerns it: until it
has, its task can go on, and it has after the steps of its own that are left to it. -/
def Answers : Prop :=
  ∀ i task k, w.watches[i]? = some task → task.cancelled = false → w.Concerns lib task k →
    (w.Answered i k ∨ (w.next lib (.turn i)).isSome = true) ∧
    ∀ actions w', Machine.run (Listening.next lib) w actions = some w' → .cancel i ∉ actions →
      task.stepsTo k ≤ actions.count (.turn i) → w'.Answered i k

end Listening

/-- `lookup` finds only listeners whose task receives, and no connection fails under a
call that has joined it. -/
def Joins (w : Listening) : ListenAction → Prop
  | .lookup c | .connected c => ∀ call ∈ w.calls[c]?, ∀ id ∈ w.upgrade call.key,
      ∀ s ∈ w.listeners[id]?, s.value.task ≠ .failed
  | .recvError l => ∀ call ∈ w.calls, call.holds ≠ some l
  | _ => True

instance (w : Listening) : (a : ListenAction) → Decidable (Joins w a)
  | .lookup c | .connected c => inferInstanceAs (Decidable (∀ call ∈ w.calls[c]?,
      ∀ id ∈ w.upgrade call.key, ∀ s ∈ w.listeners[id]?, s.value.task ≠ .failed))
  | .recvError l => inferInstanceAs (Decidable (∀ call ∈ w.calls, call.holds ≠ some l))
  | .call .. | .connectFail _ | .subscribe _ | .notify .. | .taskEnds _ | .turn _ | .cancel _ =>
    isTrue trivial

/-- The runs of a plugin from its creation on. -/
def listening (lib : NotifyLib) : Machine Listening ListenAction where
  init w := w.listeners = [] ∧ w.calls = [] ∧ w.watches = [] ∧ ∀ key, w.map key = none
  step w a w' := w.next lib a = some w'

/-! ## Steps -/

/-- What the task of a watch does in one step. -/
theorem turn_cases {lib : NotifyLib} {task task' : WatchTask} {sent : List (String × String)}
    (h : task.turn lib sent = some task') :
    (∃ event, task.emitting = some event ∧
      task' = { task with emitting := none, emitted := task.emitted ++ [⟨event, task.next⟩] }) ∨
    (task.emitting = none ∧ task.cancelled = true ∧ task' = { task with ended := true }) ∨
    (∃ next emitting, task' = { task with next, emitting } ∧ task.emitting = none ∧
      task.cancelled = false ∧ task.next < next ∧ next ≤ sent.length ∧
      (emitting = none → next = task.next + 1 ∧ ∃ channel payload,
        sent[task.next]? = some (channel, payload) ∧
        task.spec.changes lib payload task.uri = false)) := by
  unfold WatchTask.turn at h
  cases hemitting : task.emitting with
  | some event =>
    rw [hemitting] at h
    cases h
    exact .inl ⟨event, rfl, rfl⟩
  | none =>
    rw [hemitting] at h
    cases hcancelled : task.cancelled with
    | true =>
      rw [hcancelled] at h
      cases h
      exact .inr (.inl ⟨rfl, rfl, rfl⟩)
    | false =>
      simp only [hcancelled, Bool.false_eq_true, ↓reduceIte] at h
      obtain ⟨⟨r, next⟩, hrecv, htask⟩ := Option.map_eq_some_iff.mp h
      right
      right
      obtain ⟨⟨channel, payload⟩, rfl, hmessage, rfl⟩ | ⟨missed, rfl, hlt, hle⟩ := recv_cases hrecv
      · have hlt := (List.getElem?_eq_some_iff.mp hmessage).1
        cases hchanges : task.spec.changes lib payload task.uri with
        | true =>
          simp only [hchanges, ↓reduceIte] at htask
          exact ⟨_, _, htask.symm, rfl, rfl, by omega, by omega, nofun⟩
        | false =>
          simp only [hchanges, Bool.false_eq_true, ↓reduceIte] at htask
          refine ⟨task.next + 1, none, ?_, rfl, rfl, by omega, by omega,
            fun _ => ⟨rfl, channel, payload, hmessage, hchanges⟩⟩
          rw [← htask, ← hemitting]
      · exact ⟨next, _, htask.symm, rfl, rfl, hlt, hle, nofun⟩

/-- The step of a watch's task keeps what it was started with, and adds to its events. -/
theorem turn_keeps {lib : NotifyLib} {task task' : WatchTask} {sent : List (String × String)}
    (h : task.turn lib sent = some task') :
    (task'.uri = task.uri ∧ task'.spec = task.spec ∧ task'.listener = task.listener ∧
      task'.subscribed = task.subscribed ∧ task'.started = task.started ∧
      task'.cancelled = task.cancelled) ∧ task.emitted ⊆ task'.emitted := by
  obtain ⟨_, -, rfl⟩ | ⟨-, -, rfl⟩ | ⟨_, _, rfl, -⟩ := turn_cases h
  · exact ⟨⟨rfl, rfl, rfl, rfl, rfl, rfl⟩, List.subset_append_left _ _⟩
  · exact ⟨⟨rfl, rfl, rfl, rfl, rfl, rfl⟩, List.Subset.refl _⟩
  · exact ⟨⟨rfl, rfl, rfl, rfl, rfl, rfl⟩, List.Subset.refl _⟩

section

variable {lib : NotifyLib} {w w' : Listening} {a : ListenAction}

/-- What each action does. -/
inductive Step (lib : NotifyLib) (w : Listening) : ListenAction → Listening → Prop
  | call {uri : String} {spec : PostgresListenNotifyWatchSpec} {eventSource : Bool} :
    Step lib w (.call uri spec eventSource)
      { w with calls := w.calls ++ [{ uri, spec, eventSource }] }
  | joins {a : ListenAction} {c : Nat} {call : WatchCall} {id : Nat} :
    a = .lookup c ∨ a = .connected c → w.calls[c]? = some call → call.holds = none →
    w.upgrade call.key = some id → Step lib w a (w.join c call id)
  | misses {c : Nat} {call : WatchCall} : w.calls[c]? = some call → call.holds = none →
    Step lib w (.lookup c) { w with calls := w.calls.set c { call with phase := .connecting } }
  | connectFail {c : Nat} {call : WatchCall} : w.calls[c]? = some call → call.holds = none →
    Step lib w (.connectFail c) { w with calls := w.calls.eraseIdx c }
  | registers {c : Nat} {call : WatchCall} : w.calls[c]? = some call → call.holds = none →
    Step lib w (.connected c) (w.register c call)
  | subscribe {c id : Nat} {call : WatchCall} {s : Shared Listener} {task : WatchTask} :
    w.calls[c]? = some call → call.holds = some id → w.listeners[id]? = some s →
    task.listener = id → task.ended = false → task.started = s.value.task →
    task.next = s.value.sent.length → task.subscribed = task.next →
    Step lib w (.subscribe c)
      { w with calls := w.calls.eraseIdx c, watches := w.watches ++ [task] }
  | notify {l : Nat} {s : Shared Listener} {payload : String} : w.listeners[l]? = some s →
    Step lib w (.notify l payload)
      (w.setListener l fun l => { l with sent := l.sent ++ [(l.key.2, payload)] })
  | recvError {l : Nat} {s : Shared Listener} : w.listeners[l]? = some s →
    Step lib w (.recvError l) (w.setListener l fun l => { l with task := .failed })
  | taskEnds {l : Nat} {s : Shared Listener} : w.listeners[l]? = some s →
    s.value.cancelled = true →
    Step lib w (.taskEnds l) (w.setListener l fun l => { l with task := .ended })
  | turn {i : Nat} {task task' : WatchTask} {s : Shared Listener} : w.watches[i]? = some task →
    w.listeners[task.listener]? = some s → task.turn lib s.value.sent = some task' →
    task.ended = false → task'.ended = false →
    Step lib w (.turn i) { w with watches := w.watches.set i task' }
  | ends {i : Nat} {task : WatchTask} {s : Shared Listener} : w.watches[i]? = some task →
    w.listeners[task.listener]? = some s →
    task.turn lib s.value.sent = some { task with ended := true } → task.ended = false →
    Step lib w (.turn i)
      (Listening.release { w with watches := w.watches.set i { task with ended := true } } task.listener)
  | cancel {i : Nat} {task : WatchTask} : w.watches[i]? = some task →
    Step lib w (.cancel i) { w with watches := w.watches.set i { task with cancelled := true } }

theorem holds_eq_none {call : WatchCall} (h : call.phase = .started ∨ call.phase = .connecting) :
    call.holds = none := by
  rcases h with h | h <;> rw [WatchCall.holds, h]

theorem Step.of_next (h : w.next lib a = some w') : Step lib w a w' := by
  cases a with
  | call uri spec eventSource =>
    simp only [Listening.next] at h
    split at h
    · cases h
      exact .call
    · cases h
  | lookup c =>
    obtain ⟨call, hcall, h⟩ := Option.bind_eq_some_iff.mp h
    split at h
    · rename_i hphase
      have hholds := holds_eq_none (.inl hphase)
      cases hup : w.upgrade call.key with
      | some id =>
        simp only [hup] at h
        cases h
        exact .joins (.inl rfl) hcall hholds hup
      | none =>
        simp only [hup] at h
        cases h
        exact .misses hcall hholds
    · cases h
  | connectFail c =>
    obtain ⟨call, hcall, h⟩ := Option.bind_eq_some_iff.mp h
    split at h
    · rename_i hphase
      cases h
      exact .connectFail hcall (holds_eq_none (.inr hphase))
    · cases h
  | connected c =>
    obtain ⟨call, hcall, h⟩ := Option.bind_eq_some_iff.mp h
    split at h
    · rename_i hphase
      have hholds := holds_eq_none (.inr hphase)
      cases hup : w.upgrade call.key with
      | some id =>
        simp only [hup] at h
        cases h
        exact .joins (.inr rfl) hcall hholds hup
      | none =>
        simp only [hup] at h
        cases h
        exact .registers hcall hholds
    · cases h
  | subscribe c =>
    obtain ⟨call, hcall, h⟩ := Option.bind_eq_some_iff.mp h
    obtain ⟨id, hid, h⟩ := Option.bind_eq_some_iff.mp h
    obtain ⟨s, hs, rfl⟩ := Option.map_eq_some_iff.mp h
    exact .subscribe hcall hid hs rfl rfl rfl rfl rfl
  | notify l payload =>
    obtain ⟨s, hs, h⟩ := Option.bind_eq_some_iff.mp h
    split at h
    · cases h
      exact .notify hs
    · cases h
  | recvError l =>
    obtain ⟨s, hs, h⟩ := Option.bind_eq_some_iff.mp h
    split at h
    · cases h
      exact .recvError hs
    · cases h
  | taskEnds l =>
    obtain ⟨s, hs, h⟩ := Option.bind_eq_some_iff.mp h
    split at h
    · rename_i hcancelled
      cases h
      exact .taskEnds hs hcancelled.1
    · cases h
  | turn i =>
    obtain ⟨task, htask, h⟩ := Option.bind_eq_some_iff.mp h
    split at h
    · cases h
    · rename_i hended
      rw [Bool.not_eq_true] at hended
      obtain ⟨s, hs, h⟩ := Option.bind_eq_some_iff.mp h
      obtain ⟨task', hturn, rfl⟩ := Option.map_eq_some_iff.mp h
      cases hended' : task'.ended with
      | false =>
        simp only [Bool.false_eq_true, ↓reduceIte]
        exact .turn htask hs hturn hended hended'
      | true =>
        -- only a cancelled task ends
        obtain ⟨_, -, rfl⟩ | ⟨-, -, rfl⟩ | ⟨_, _, rfl, -⟩ := turn_cases hturn
        · rw [hended] at hended'
          cases hended'
        · simp only [↓reduceIte]
          exact .ends htask hs hturn hended
        · rw [hended] at hended'
          cases hended'
  | cancel i =>
    obtain ⟨task, htask, rfl⟩ := Option.map_eq_some_iff.mp h
    exact .cancel htask

theorem getElem?_modify_some {heap : List (Shared Listener)} {l : Nat} {s : Shared Listener}
    (hs : heap[l]? = some s) (j : Nat) (f : Shared Listener → Shared Listener) :
    (heap.modify j f)[l]? = some (if j = l then f s else s) := by
  rw [List.getElem?_modify, hs]
  rfl

/-- A listener's log grows, and its task goes on unless it fails or ends. -/
theorem Step.listener (h : Step lib w a w') {l : Nat} {s : Shared Listener}
    (hs : w.listeners[l]? = some s) :
    ∃ s', w'.listeners[l]? = some s' ∧ s.value.sent <+: s'.value.sent ∧
      (s'.value.task = s.value.task ∨ a = .recvError l ∨
        a = .taskEnds l ∧ s.value.cancelled = true) := by
  have hsame : ∃ s', w.listeners[l]? = some s' ∧ s.value.sent <+: s'.value.sent ∧
      (s'.value.task = s.value.task ∨ a = .recvError l ∨
        a = .taskEnds l ∧ s.value.cancelled = true) := ⟨s, hs, List.prefix_refl _, .inl rfl⟩
  cases h with
  | call | misses | connectFail | subscribe | turn | cancel => exact hsame
  | joins =>
    refine ⟨_, getElem?_modify_some hs _ _, ?_, .inl ?_⟩
    · split <;> exact List.prefix_refl _
    · split <;> rfl
  | registers =>
    exact ⟨s, getElem?_concat_of_some hs, List.prefix_refl _, .inl rfl⟩
  | notify =>
    refine ⟨_, getElem?_modify_some hs _ _, ?_, .inl ?_⟩
    · split
      · exact List.prefix_append _ _
      · exact List.prefix_refl _
    · split <;> rfl
  | recvError hl =>
    refine ⟨_, getElem?_modify_some hs _ _, ?_, ?_⟩
    · split <;> exact List.prefix_refl _
    · split
      · rename_i heq
        exact .inr (.inl (by rw [heq]))
      · exact .inl rfl
  | taskEnds hl hcancelled =>
    refine ⟨_, getElem?_modify_some hs _ _, ?_, ?_⟩
    · split <;> exact List.prefix_refl _
    · split
      · rename_i heq
        subst heq
        obtain rfl := Option.some.inj (hl.symm.trans hs)
        exact .inr (.inr ⟨rfl, hcancelled⟩)
      · exact .inl rfl
  | ends =>
    refine ⟨_, getElem?_modify_some hs _ _, ?_, .inl ?_⟩
    · split
      · simp only [Shared.release]
        split <;> exact List.prefix_refl _
      · exact List.prefix_refl _
    · split
      · simp only [Shared.release]
        split <;> rfl
      · rfl

/-- A watch takes its turn, is cancelled, or stays as it is. -/
theorem Step.watch (h : Step lib w a w') {i : Nat} {task : WatchTask}
    (hi : w.watches[i]? = some task) :
    ∃ task', w'.watches[i]? = some task' ∧
      ((a = .turn i ∧ ∃ s, w.listeners[task.listener]? = some s ∧
        task.turn lib s.value.sent = some task') ∨
      (a = .cancel i ∧ task' = { task with cancelled := true }) ∨ (a ≠ .turn i ∧ task' = task)) := by
  have hlt := (List.getElem?_eq_some_iff.mp hi).1
  cases h with
  | call | misses | connectFail | registers | notify | recvError | taskEnds =>
    exact ⟨task, hi, .inr (.inr ⟨nofun, rfl⟩)⟩
  | joins ha => exact ⟨task, hi, .inr (.inr ⟨by rcases ha with rfl | rfl <;> nofun, rfl⟩)⟩
  | subscribe => exact ⟨task, getElem?_concat_of_some hi, .inr (.inr ⟨nofun, rfl⟩)⟩
  | @turn j task₀ task' s htask hs hturn =>
    by_cases hij : j = i
    · subst hij
      obtain rfl := Option.some.inj (htask.symm.trans hi)
      exact ⟨task', List.getElem?_set_self hlt, .inl ⟨rfl, s, hs, hturn⟩⟩
    · exact ⟨task, (List.getElem?_set_ne hij).trans hi, .inr (.inr ⟨by simpa using hij, rfl⟩)⟩
  | @ends j task₀ s htask hs hturn =>
    by_cases hij : j = i
    · subst hij
      obtain rfl := Option.some.inj (htask.symm.trans hi)
      exact ⟨_, List.getElem?_set_self hlt, .inl ⟨rfl, s, hs, hturn⟩⟩
    · exact ⟨task, (List.getElem?_set_ne hij).trans hi, .inr (.inr ⟨by simpa using hij, rfl⟩)⟩
  | @cancel j task₀ htask =>
    by_cases hij : j = i
    · subst hij
      obtain rfl := Option.some.inj (htask.symm.trans hi)
      exact ⟨_, List.getElem?_set_self hlt, .inr (.inl ⟨rfl, rfl⟩)⟩
    · exact ⟨task, (List.getElem?_set_ne hij).trans hi, .inr (.inr ⟨nofun, rfl⟩)⟩

/-- A watch that was not there has subscribed, on the listener its call had joined. -/
theorem Step.new_watch (h : Step lib w a w') {i : Nat} {task : WatchTask}
    (hi : w.watches[i]? = none) (hi' : w'.watches[i]? = some task) :
    ∃ call s, call ∈ w.calls ∧ call.holds = some task.listener ∧
      w.listeners[task.listener]? = some s ∧ task.started = s.value.task ∧
      task.next = s.value.sent.length ∧ task.subscribed = task.next ∧ task.ended = false := by
  have hset (j : Nat) (t : WatchTask) : (w.watches.set j t)[i]? = none := by
    rw [List.getElem?_eq_none_iff] at hi ⊢
    rwa [List.length_set]
  have habsurd {l : List WatchTask} (hl : l[i]? = none) (hl' : l[i]? = some task) : False := by
    rw [hl] at hl'
    cases hl'
  cases h with
  | subscribe hcall hid hs hlistener hended hstarted hnext hsubscribed =>
    obtain hold | ⟨-, rfl⟩ := getElem?_concat_cases hi'
    · exact (habsurd hi hold).elim
    · subst hlistener
      exact ⟨_, _, List.mem_of_getElem? hcall, hid, hs, hstarted, hnext, hsubscribed, hended⟩
  | turn | ends | cancel => exact (habsurd (hset ..) hi').elim
  | call | joins | misses | connectFail | registers | notify | recvError | taskEnds =>
    exact (habsurd hi hi').elim

/-- A call that holds a listener held it before, or found or made it now. -/
theorem Step.joined_call (h : Step lib w a w') {call : WatchCall} {id : Nat} (hc : call ∈ w'.calls)
    (hid : call.holds = some id) :
    call ∈ w.calls ∨
    (∃ c call₀, (a = .lookup c ∨ a = .connected c) ∧ w.calls[c]? = some call₀ ∧
      w.upgrade call₀.key = some id) ∨
    (∃ s, w'.listeners[id]? = some s ∧ s.value.task = .receiving) := by
  cases h with
  | call =>
    rcases List.mem_append.mp hc with hc | hc
    · exact .inl hc
    · rw [List.mem_singleton.mp hc] at hid
      cases hid
  | @joins _ c call₀ id₀ ha hcall _ hup =>
    obtain hc | rfl := List.mem_or_eq_of_mem_set hc
    · exact .inl hc
    · cases hid
      exact .inr (.inl ⟨c, call₀, ha, hcall, hup⟩)
  | misses =>
    obtain hc | rfl := List.mem_or_eq_of_mem_set hc
    · exact .inl hc
    · cases hid
  | registers =>
    obtain hc | rfl := List.mem_or_eq_of_mem_set hc
    · exact .inl hc
    · cases hid
      exact .inr (.inr ⟨_, List.getElem?_concat_length, rfl⟩)
  | connectFail | subscribe => exact .inl (List.mem_of_mem_eraseIdx hc)
  | notify | recvError | taskEnds | turn | ends | cancel => exact .inl hc

end

end McpgSql.Watch
