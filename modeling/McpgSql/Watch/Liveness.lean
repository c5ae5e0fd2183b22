import McpgSql.Watch.Listening

/-!
# Watches that are live

A task whose connection failed waits for its cancel and stays registered, so a watch
may join it and hear nothing (`failed_listener_joined`). Where no call joins such a
listener and none fails under a call that has joined it, every watch starts on a task
that receives; and each watch, in every run, answers what its task receives
(`listen_watch_live`):

* `Held`: the references to a listener are counted, and it is cancelled with the last;
* `Joined`: the task of a listener that a call has joined receives;
* `WatchTask.Heard`: a watch has emitted for every notification it took that changes
  its URI;
* `emits_after`: it does after two steps of its own for each notification it has left.
-/

namespace McpgSql.Watch

open Library

section

variable {lib : NotifyLib} {w w' : Listening} {a : ListenAction}

/-! ## References -/

/-- The references to the listeners are counted, and the last one cancels the task. -/
structure Held (w : Listening) : Prop where
  counted : Counted (fun l : Listener => l.cancelled = true) w.listeners w.holders
  ended : ∀ {l : Nat} {s : Shared Listener}, w.listeners[l]? = some s → s.value.task = .ended →
    s.value.cancelled = true

theorem count_holders (w : Listening) (j : Nat) :
    w.holders.count j = (w.calls.filterMap WatchCall.holds).count j +
      (w.watches.filterMap WatchTask.holds).count j := by
  rw [Listening.holders, List.count_append]

/-- A listener that can still be had has a holder. -/
theorem Held.upgrade (hw : Held w) {key : String × String} {id : Nat}
    (h : w.upgrade key = some id) : id ∈ w.holders := by
  obtain ⟨-, hstrong⟩ := Option.filter_eq_some_iff.mp h
  obtain ⟨s, hs, hpos⟩ := (Option.any_eq_true ..).mp hstrong
  exact (hw.counted.strong_pos_iff hs).mp (by simpa using hpos)

/-- The task of a listener with a holder has not ended. -/
theorem Held.task (hw : Held w) {id : Nat} (h : id ∈ w.holders) :
    ∃ s, w.listeners[id]? = some s ∧ s.value.cancelled = false ∧ s.value.task ≠ .ended := by
  obtain ⟨s, hs, -, halive⟩ := hw.counted.alive h
  exact ⟨s, hs, by simpa using halive, fun hended => halive (hw.ended hs hended)⟩

/-- The step of a watch's task keeps its listener. -/
theorem holds_turn {task task' : WatchTask} {sent : List (String × String)}
    (h : task.turn lib sent = some task') (hended : task.ended = false)
    (hended' : task'.ended = false) : task'.holds = task.holds := by
  obtain ⟨⟨-, -, hlistener, -⟩, -⟩ := turn_keeps h
  rw [WatchTask.holds, WatchTask.holds, hended, hended', hlistener]

/-- A change of the listener `l` that does not end its task. -/
theorem Held.ended_modify (hw : Held w) (l : Nat) (f : Shared Listener → Shared Listener)
    (htask : ∀ s, w.listeners[l]? = some s → (f s).value.task = .ended →
      (f s).value.cancelled = true) {j : Nat} {s : Shared Listener}
    (hs : (w.listeners.modify l f)[j]? = some s) (hended : s.value.task = .ended) :
    s.value.cancelled = true := by
  obtain ⟨t, ht, rfl⟩ := getElem?_modify_cases hs
  by_cases hj : j = l
  · subst hj
    rw [if_pos rfl] at hended ⊢
    exact htask t ht hended
  · rw [if_neg hj] at hended ⊢
    exact hw.ended ht hended

/-- A change of a listener that keeps its token. -/
theorem Held.setListener (hw : Held w) (l : Nat) {f : Listener → Listener}
    (hcancelled : ∀ v, (f v).cancelled = v.cancelled)
    (hended : ∀ s, w.listeners[l]? = some s → (f s.value).task = .ended → s.value.cancelled = true) :
    Held (w.setListener l f) where
  counted := hw.counted.update fun v => by rw [hcancelled]
  ended := hw.ended_modify l (Shared.update f) fun s hs htask =>
    (hcancelled s.value).trans (hended s hs htask)

/-- A step that keeps the listeners, and each one's number of holders. -/
theorem Held.of_count (hw : Held w) (hlisteners : w'.listeners = w.listeners)
    (hcount : ∀ j, w.holders.count j = w'.holders.count j) : Held w' := by
  refine ⟨?_, ?_⟩
  · rw [hlisteners]
    exact hw.counted.perm (List.perm_iff_count.mpr hcount)
  · rw [hlisteners]
    exact hw.ended

theorem Step.held (h : Step lib w a w') (hw : Held w) : Held w' := by
  cases h with
  | call =>
    refine hw.of_count rfl fun j => ?_
    simp only [count_holders, count_filterMap_concat, WatchCall.holds, Option.toList_none,
      List.count_nil, Nat.add_zero]
  | @joins _ c call id _ hcall hholds hup =>
    refine ⟨(hw.counted.clone (hw.upgrade hup)).perm (List.perm_iff_count.mpr fun j => ?_),
      hw.ended_modify id Shared.clone fun s hs htask => hw.ended (s := s) hs htask⟩
    have hcalls := count_filterMap_set WatchCall.holds j hcall { call with phase := .joined id }
    rw [hholds] at hcalls
    simp only [Listening.join, count_holders, List.count_cons, List.count_nil, Option.toList_none,
      WatchCall.holds, Option.toList_some] at hcalls ⊢
    omega
  | @misses c call hcall hholds =>
    refine hw.of_count rfl fun j => ?_
    have hcalls := count_filterMap_set WatchCall.holds j hcall { call with phase := .connecting }
    rw [hholds] at hcalls
    simp only [count_holders, WatchCall.holds] at hcalls ⊢
    omega
  | connectFail hcall hholds =>
    refine hw.of_count rfl fun j => ?_
    have hcalls := count_filterMap_eraseIdx WatchCall.holds j hcall
    rw [hholds, Option.toList_none, List.count_nil, Nat.zero_add] at hcalls
    rw [count_holders, count_holders, hcalls]
  | @registers c call hcall hholds =>
    refine ⟨(hw.counted.push Nat.one_pos (by simp)).perm (List.perm_iff_count.mpr fun j => ?_),
      fun hs htask => ?_⟩
    · have hcalls := count_filterMap_set WatchCall.holds j hcall
        { call with phase := .joined w.listeners.length }
      rw [hholds] at hcalls
      simp only [Listening.register, count_holders, List.count_append, List.replicate_one,
        Option.toList_none, List.count_nil, WatchCall.holds, Option.toList_some] at hcalls ⊢
      omega
    · obtain hold | ⟨-, rfl⟩ := getElem?_concat_cases hs
      · exact hw.ended hold htask
      · cases htask
  | @subscribe c id call s task hcall hid hs hlistener hended =>
    refine hw.of_count rfl fun j => ?_
    have hcalls := count_filterMap_eraseIdx WatchCall.holds j hcall
    have hholds : task.holds = some id := by rw [WatchTask.holds, hended, ← hlistener]; rfl
    simp only [count_holders, count_filterMap_concat, hholds]
    rw [hid] at hcalls
    omega
  | notify => exact hw.setListener _ (fun _ => rfl) fun _ hs htask => hw.ended hs htask
  | recvError => exact hw.setListener _ (fun _ => rfl) fun _ hs htask => by cases htask
  | taskEnds hl hcancelled =>
    refine hw.setListener _ (fun _ => rfl) fun _ hs _ => ?_
    obtain rfl := Option.some.inj (hl.symm.trans hs)
    exact hcancelled
  | @turn i task task' s htask hs hturn hended hended' =>
    refine hw.of_count rfl fun j => ?_
    have hwatches := count_filterMap_set WatchTask.holds j htask task'
    rw [holds_turn hturn hended hended'] at hwatches
    simp only [count_holders]
    omega
  | @ends i task s htask hs hturn hended =>
    have hholds : task.holds = some task.listener := by rw [WatchTask.holds, hended]; rfl
    refine ⟨Counted.release (hw.counted.perm (List.perm_iff_count.mpr fun j => ?_)) fun _ => rfl,
      hw.ended_modify task.listener (Shared.release _) fun s hs htask => ?_⟩
    · have hwatches := count_filterMap_set WatchTask.holds j htask { task with ended := true }
      rw [hholds] at hwatches
      simp only [count_holders, Listening.release, List.count_cons, List.count_nil,
        Option.toList_some, WatchTask.holds, ↓reduceIte, Option.toList_none] at hwatches ⊢
      omega
    · simp only [Shared.release] at htask ⊢
      split
      · rfl
      · rename_i hmore
        rw [if_neg hmore] at htask
        exact hw.ended hs htask
  | @cancel i task htask =>
    refine hw.of_count rfl fun j => ?_
    have hwatches := count_filterMap_set WatchTask.holds j htask { task with cancelled := true }
    have hholds : ({ task with cancelled := true } : WatchTask).holds = task.holds := rfl
    rw [hholds] at hwatches
    simp only [count_holders]
    omega

theorem held_of_reach {ok : Listening → ListenAction → Prop} (h : (listening lib).Reach ok w) :
    Held w := by
  refine h.invariant ?_ fun _ hstep hw => (Step.of_next hstep).held hw
  rintro w ⟨hlisteners, hcalls, hwatches, -⟩
  refine ⟨?_, fun hs => ?_⟩
  · rw [hlisteners, Listening.holders, hcalls, hwatches]
    exact Counted.nil
  · rw [hlisteners] at hs
    cases hs

/-! ## Calls -/

/-- The task of a listener that a call has joined receives. -/
def Joined (w : Listening) : Prop :=
  ∀ call ∈ w.calls, ∀ id, call.holds = some id →
    ∃ s, w.listeners[id]? = some s ∧ s.value.task = .receiving

theorem mem_holders_of_call {call : WatchCall} {id : Nat} (hc : call ∈ w.calls)
    (hid : call.holds = some id) : id ∈ w.holders :=
  List.mem_append_left _ (List.mem_filterMap.mpr ⟨call, hc, hid⟩)

/-- A call keeps its listener from ending, and its way keeps it from failing. -/
theorem Step.joined (h : Step lib w a w') (hok : Joins w a) (hheld : Held w) (hw : Joined w) :
    Joined w' := by
  intro call hc id hid
  obtain hc | ⟨c, call₀, ha, hcall, hup⟩ | hnew := h.joined_call hc hid
  · obtain ⟨s, hs, hreceiving⟩ := hw call hc id hid
    obtain ⟨s', hs', -, hsame | rfl | ⟨-, hcancelled⟩⟩ := h.listener hs
    · exact ⟨s', hs', hsame.trans hreceiving⟩
    · exact absurd hid (hok call hc)
    · obtain ⟨t, ht, halive, -⟩ := hheld.task (mem_holders_of_call hc hid)
      obtain rfl := Option.some.inj (hs.symm.trans ht)
      rw [halive] at hcancelled
      cases hcancelled
  · obtain ⟨s, hs, -, hended⟩ := hheld.task (hheld.upgrade hup)
    have hfailed : s.value.task ≠ .failed := by
      rcases ha with rfl | rfl <;> exact hok call₀ hcall id hup s hs
    obtain ⟨s', hs', -, hsame | rfl | ⟨rfl, -⟩⟩ := h.listener hs
    · refine ⟨s', hs', hsame.trans ?_⟩
      cases htask : s.value.task with
      | receiving => rfl
      | failed => exact absurd htask hfailed
      | ended => exact absurd htask hended
    · rcases ha with ha | ha <;> cases ha
    · rcases ha with ha | ha <;> cases ha
  · exact hnew

theorem joined_of_reach (h : (listening lib).Reach Joins w) : Joined w := by
  refine h.invariant_of (J := Held) held_of_reach ?_ fun hok hstep hheld hw =>
    (Step.of_next hstep).joined hok hheld hw
  rintro w ⟨-, hcalls, -, -⟩
  rw [Joined, hcalls]
  exact fun _ hc => by cases hc

theorem Step.live (h : Step lib w a w') (hjoined : Joined w) (hw : w.Live) : w'.Live := by
  intro task hmem
  obtain ⟨i, hi⟩ := List.mem_iff_getElem?.mp hmem
  cases hold : w.watches[i]? with
  | none =>
    obtain ⟨call, s, hc, hid, hs, hstarted, -⟩ := h.new_watch hold hi
    obtain ⟨t, ht, hreceiving⟩ := hjoined call hc _ hid
    obtain rfl := Option.some.inj (hs.symm.trans ht)
    rw [hstarted, hreceiving]
  | some task₀ =>
    have hstarted := hw task₀ (List.mem_of_getElem? hold)
    obtain ⟨task', hi', hcases⟩ := h.watch hold
    obtain rfl := Option.some.inj (hi'.symm.trans hi)
    obtain ⟨-, s, -, hturn⟩ | ⟨-, rfl⟩ | ⟨-, rfl⟩ := hcases
    · obtain ⟨⟨-, -, -, -, hsame, -⟩, -⟩ := turn_keeps hturn
      rw [hsame, hstarted]
    · exact hstarted
    · exact hstarted

theorem live_of_reach (h : (listening lib).Reach Joins w) : w.Live := by
  refine h.invariant_of (J := Joined) joined_of_reach ?_ fun _ hstep hjoined hw =>
    (Step.of_next hstep).live hjoined hw
  rintro w ⟨-, -, hwatches, -⟩
  rw [Listening.Live, hwatches]
  exact fun _ ht => by cases ht

/-! ## Notifications -/

/-- The watch took its notifications from `sent`; where one of them changes its URI it
has emitted for it, or is about to. -/
structure WatchTask.Heard (lib : NotifyLib) (task : WatchTask) (sent : List (String × String)) :
    Prop where
  within : task.next ≤ sent.length
  ended : task.ended = true → task.cancelled = true
  heard : ∀ k, task.subscribed ≤ k → k < task.next → ∀ channel payload,
    sent[k]? = some (channel, payload) → task.spec.changes lib payload task.uri = true →
    task.emitting.isSome = true ∨ ∃ e ∈ task.emitted, k < e.taken

namespace WatchTask.Heard

variable {task task' : WatchTask} {sent sent' : List (String × String)}

/-- What is sent later is not taken yet. -/
theorem mono (h : task.Heard lib sent) (hsent : sent <+: sent') : task.Heard lib sent' where
  within := h.within.trans hsent.length_le
  ended := h.ended
  heard k hk hnext channel payload hmessage hchanges := by
    refine h.heard k hk hnext channel payload ?_ hchanges
    obtain ⟨more, rfl⟩ := hsent
    rwa [List.getElem?_append_left (by have := h.within; omega)] at hmessage

theorem turn (h : task.Heard lib sent) (hturn : task.turn lib sent = some task') :
    task'.Heard lib sent := by
  obtain ⟨event, -, rfl⟩ | ⟨-, hcancelled, rfl⟩ |
    ⟨next, emitting, rfl, hidle, -, hlt, hle, hquiet⟩ := turn_cases hturn
  · -- an event that is emitted now is for everything that was taken
    refine ⟨h.within, h.ended, fun k _ hnext _ _ _ _ => .inr ⟨⟨event, task.next⟩, ?_, hnext⟩⟩
    exact List.mem_append_right _ List.mem_cons_self
  · exact ⟨h.within, fun _ => hcancelled, h.heard⟩
  · refine ⟨hle, h.ended, fun k hk hnext channel payload hmessage hchanges => ?_⟩
    cases emitting with
    | some event => exact .inl rfl
    | none =>
      obtain ⟨rfl, channel', payload', htaken, hnot⟩ := hquiet rfl
      rcases Nat.lt_succ_iff_lt_or_eq.mp hnext with hold | rfl
      · obtain hemitting | hemitted := h.heard k hk hold channel payload hmessage hchanges
        · rw [hidle] at hemitting
          cases hemitting
        · exact .inr hemitted
      · rw [htaken] at hmessage
        cases hmessage
        rw [hnot] at hchanges
        cases hchanges

end WatchTask.Heard

/-- Every watch has heard what it took from its listener. -/
def Hearing (lib : NotifyLib) (w : Listening) : Prop :=
  ∀ task ∈ w.watches, ∃ s, w.listeners[task.listener]? = some s ∧ task.Heard lib s.value.sent

theorem Step.hearing (h : Step lib w a w') (hw : Hearing lib w) : Hearing lib w' := by
  intro task hmem
  obtain ⟨i, hi⟩ := List.mem_iff_getElem?.mp hmem
  cases hold : w.watches[i]? with
  | none =>
    obtain ⟨call, s, -, -, hs, -, hnext, hsubscribed, hended⟩ := h.new_watch hold hi
    obtain ⟨s', hs', hsent, -⟩ := h.listener hs
    have hnew : task.Heard lib s.value.sent :=
      ⟨hnext.le, fun h => absurd h (by rw [hended]; decide), fun k hk hlt => absurd hlt (by omega)⟩
    exact ⟨s', hs', hnew.mono hsent⟩
  | some task₀ =>
    obtain ⟨s, hs, hheard⟩ := hw task₀ (List.mem_of_getElem? hold)
    obtain ⟨s', hs', hsent, -⟩ := h.listener hs
    obtain ⟨task', hi', hcases⟩ := h.watch hold
    obtain rfl := Option.some.inj (hi'.symm.trans hi)
    obtain ⟨-, t, ht, hturn⟩ | ⟨-, rfl⟩ | ⟨-, rfl⟩ := hcases
    · obtain rfl := Option.some.inj (hs.symm.trans ht)
      obtain ⟨⟨-, -, hlistener, -⟩, -⟩ := turn_keeps hturn
      rw [hlistener]
      exact ⟨s', hs', (hheard.turn hturn).mono hsent⟩
    · exact ⟨s', hs', (hheard.mono hsent).within, fun _ => rfl, (hheard.mono hsent).heard⟩
    · exact ⟨s', hs', hheard.mono hsent⟩

theorem hearing_of_reach {ok : Listening → ListenAction → Prop} (h : (listening lib).Reach ok w) :
    Hearing lib w := by
  refine h.invariant ?_ fun _ hstep hw => (Step.of_next hstep).hearing hw
  rintro w ⟨-, -, hwatches, -⟩
  rw [Hearing, hwatches]
  exact fun _ ht => by cases ht

theorem Step.answered (h : Step lib w a w') {i k : Nat} (hw : w.Answered i k) : w'.Answered i k := by
  obtain ⟨task, hi, e, he, hk⟩ := hw
  obtain ⟨task', hi', ⟨-, s, -, hturn⟩ | ⟨-, rfl⟩ | ⟨-, rfl⟩⟩ := h.watch hi
  · exact ⟨task', hi', e, (turn_keeps hturn).2 he, hk⟩
  · exact ⟨_, hi', e, he, hk⟩
  · exact ⟨_, hi', e, he, hk⟩

theorem answered_run {actions : List ListenAction} {i k : Nat}
    (hrun : Machine.run (Listening.next lib) w actions = some w') (hw : w.Answered i k) :
    w'.Answered i k := by
  induction actions generalizing w with
  | nil =>
    cases hrun
    exact hw
  | cons a actions ih =>
    obtain ⟨w₁, h₁, hrun⟩ := Option.bind_eq_some_iff.mp hrun
    exact ih hrun ((Step.of_next h₁).answered hw)

/-- A notification that concerns a watch goes on to. -/
theorem Step.concerns (h : Step lib w a w') {i k : Nat} {task task' : WatchTask}
    (hi : w.watches[i]? = some task) (hi' : w'.watches[i]? = some task')
    (hw : w.Concerns lib task k) : w'.Concerns lib task' k := by
  obtain ⟨hk, s, channel, payload, hs, hmessage, hchanges⟩ := hw
  obtain ⟨s', hs', ⟨more, hmore⟩, -⟩ := h.listener hs
  have hmessage' : s'.value.sent[k]? = some (channel, payload) := by
    rw [← hmore, List.getElem?_append_left (List.getElem?_eq_some_iff.mp hmessage).1, hmessage]
  obtain ⟨task₁, hi₁, hcases⟩ := h.watch hi
  obtain rfl := Option.some.inj (hi₁.symm.trans hi')
  obtain ⟨-, _, -, hturn⟩ | ⟨-, rfl⟩ | ⟨-, rfl⟩ := hcases
  · obtain ⟨⟨huri, hspec, hlistener, hsubscribed, -, -⟩, -⟩ := turn_keeps hturn
    refine ⟨hsubscribed ▸ hk, s', channel, payload, hlistener ▸ hs', hmessage', ?_⟩
    rw [huri, hspec, hchanges]
  · exact ⟨hk, s', channel, payload, hs', hmessage', hchanges⟩
  · exact ⟨hk, s', channel, payload, hs', hmessage', hchanges⟩

/-- A watch that has taken a notification that concerns it, and has nothing to emit, has
answered it. -/
theorem WatchTask.Heard.answered {task : WatchTask} {s : Shared Listener} {i k : Nat}
    (hheard : task.Heard lib s.value.sent) (hi : w.watches[i]? = some task)
    (hs : w.listeners[task.listener]? = some s) (hk : w.Concerns lib task k)
    (hidle : task.emitting = none) (htaken : k < task.next) : w.Answered i k := by
  obtain ⟨hsubscribed, _, channel, payload, hs', hmessage, hchanges⟩ := hk
  obtain rfl := Option.some.inj (hs.symm.trans hs')
  obtain hemitting | ⟨e, he, hke⟩ :=
    hheard.heard k hsubscribed htaken channel payload hmessage hchanges
  · rw [hidle] at hemitting
    cases hemitting
  · exact ⟨task, hi, e, he, hke⟩

/-- A watch that is not cancelled answers a notification that concerns it, once its task has
taken the steps that were left to it. -/
theorem emits_after {actions : List ListenAction} {i k : Nat} {task : WatchTask}
    (hw : Hearing lib w) (hi : w.watches[i]? = some task) (hlive : task.cancelled = false)
    (hk : w.Concerns lib task k) (hrun : Machine.run (Listening.next lib) w actions = some w')
    (hcancel : .cancel i ∉ actions) (hturns : task.stepsTo k ≤ actions.count (.turn i)) :
    w'.Answered i k := by
  -- the steps left fall with every step of the watch and with no other
  induction actions generalizing w task with
  | nil =>
    cases hrun
    obtain ⟨s, hs, hheard⟩ := hw task (List.mem_of_getElem? hi)
    rw [List.count_nil, WatchTask.stepsTo] at hturns
    refine hheard.answered hi hs hk ?_ (by omega)
    cases hemitting : task.emitting with
    | none => rfl
    | some event =>
      rw [hemitting] at hturns
      exact absurd hturns (by simp)
  | cons a actions ih =>
    obtain ⟨w₁, h₁, hrest⟩ := Option.bind_eq_some_iff.mp hrun
    have hstep := Step.of_next h₁
    obtain ⟨hne, hothers⟩ := List.ne_and_not_mem_of_not_mem_cons hcancel
    obtain ⟨task₁, hi₁, hcases⟩ := hstep.watch hi
    have hk₁ := hstep.concerns hi hi₁ hk
    obtain ⟨rfl, s, hs, hturn⟩ | ⟨rfl, -⟩ | ⟨ha, rfl⟩ := hcases
    · rw [List.count_cons_self, WatchTask.stepsTo] at hturns
      obtain ⟨t, ht, hheard⟩ := hw task (List.mem_of_getElem? hi)
      obtain rfl := Option.some.inj (hs.symm.trans ht)
      obtain ⟨event, hemitting, rfl⟩ | ⟨-, hcancelled, -⟩ |
        ⟨next, emitting, rfl, hidle, -, hlt, -, -⟩ := turn_cases hturn
      · rcases Nat.lt_or_ge k task.next with htaken | hleft
        · refine answered_run hrest ⟨_, hi₁, ⟨event, task.next⟩, ?_, htaken⟩
          exact List.mem_append_right _ List.mem_cons_self
        · refine ih (hstep.hearing hw) hi₁ hlive hk₁ hrest hothers ?_
          simp only [hemitting, Option.isSome_some, Option.isSome_none, WatchTask.stepsTo,
            Bool.false_eq_true, ↓reduceIte] at hturns ⊢
          omega
      · rw [hlive] at hcancelled
        cases hcancelled
      · rcases Nat.lt_or_ge k task.next with htaken | hleft
        · exact answered_run hrun (hheard.answered hi hs hk hidle htaken)
        · refine ih (hstep.hearing hw) hi₁ hlive hk₁ hrest hothers ?_
          have hone : (if emitting.isSome then 1 else 0) ≤ 1 := by split <;> omega
          simp only [WatchTask.stepsTo]
          omega
    · exact absurd rfl hne
    · rw [List.count_cons_of_ne ha] at hturns
      exact ih (hstep.hearing hw) hi₁ hlive hk₁ hrest hothers hturns

/-- Until a watch has answered a notification its task has a step to take. -/
theorem answered_or_turn {i k : Nat} {task : WatchTask} (hw : Hearing lib w)
    (hi : w.watches[i]? = some task) (hlive : task.cancelled = false)
    (hk : w.Concerns lib task k) :
    w.Answered i k ∨ (w.next lib (.turn i)).isSome = true := by
  obtain ⟨s, hs, hheard⟩ := hw task (List.mem_of_getElem? hi)
  have hended : task.ended = false := by
    cases hended : task.ended with
    | false => rfl
    | true =>
      rw [hheard.ended hended] at hlive
      cases hlive
  have hnext : (task.turn lib s.value.sent).isSome = true → (w.next lib (.turn i)).isSome = true := by
    intro hturn
    simp only [Listening.next, hi, hs, hended, Option.bind_some, Bool.false_eq_true, ↓reduceIte,
      Option.isSome_map, hturn]
  cases hemitting : task.emitting with
  | some event => exact .inr (hnext (by rw [WatchTask.turn, hemitting]; rfl))
  | none =>
    rcases Nat.lt_or_ge k task.next with htaken | hleft
    · exact .inl (hheard.answered hi hs hk hemitting htaken)
    · obtain ⟨-, _, channel, payload, hs', hmessage, -⟩ := hk
      obtain rfl := Option.some.inj (hs.symm.trans hs')
      have hsent := (List.getElem?_eq_some_iff.mp hmessage).1
      refine .inr (hnext ?_)
      simp only [WatchTask.turn, hemitting, hlive, Bool.false_eq_true, ↓reduceIte,
        Option.isSome_map]
      exact recv_isSome (by omega)

end

/-- In every run in which no call joins a listener whose connection failed, and no
connection fails under a call that has joined it, every `watch` that returned had a
listener whose task received; and every watch answers the notifications that concern it. -/
theorem listen_watch_live (lib : NotifyLib) (w : Listening) (h : (listening lib).Reach Joins w) :
    w.Live ∧ w.Answers lib := by
  have hearing := hearing_of_reach h
  refine ⟨live_of_reach h, fun i task k hi hlive hk => ⟨answered_or_turn hearing hi hlive hk, ?_⟩⟩
  exact fun actions w' hrun hcancel hturns => emits_after hearing hi hlive hk hrun hcancel hturns

/-- The payload of the samples. -/
def samplePayload : String := "\x7b\"i\": \"abc\"\x7d"

/-- A library that reads the sample payload; anything else is not JSON. -/
def sampleNotifyLib : NotifyLib where
  parseJson payload := if payload = samplePayload then some (.obj [("i", .str "abc")]) else none
  numberText
    | .pos n => toString n
    | .neg n => "-" ++ toString (n + 1)
    | .float _ => "0.5"
  eventBody payload := (.str payload, "text")

def sampleSpec : PostgresListenNotifyWatchSpec where
  url := "postgres://app@localhost/db"
  channel := "orders"
  uriMatch := some { payloadField := "i", uris := ["imd://instructions/\x7bvalue\x7d"] }

/-- A watch opens a listener and subscribes to it. -/
def sampleOpened : List ListenAction :=
  [.call "imd://instructions/abc" sampleSpec false, .lookup 0, .connected 0, .subscribe 0]

/-- A watch that is notified of its URI emits with its second step. -/
theorem sample_watch_answers :
    ∃ w w', Machine.run (Listening.next sampleNotifyLib) {}
        (sampleOpened ++ [.notify 0 samplePayload]) = some w ∧ w.Live ∧
      Machine.run (Listening.next sampleNotifyLib) w [.turn 0, .turn 0] = some w' ∧
      w'.Answered 0 0 := by
  have hrun : Machine.run (Listening.next sampleNotifyLib) {}
      (sampleOpened ++ [.notify 0 samplePayload]) = some _ := rfl
  have hinit : (listening sampleNotifyLib).Reach Joins {} :=
    .init ⟨rfl, rfl, rfl, fun _ => rfl⟩
  obtain ⟨hlive, hanswers⟩ := listen_watch_live sampleNotifyLib _
    (hinit.along (fun _ hnext => hnext) (by decide) hrun)
  refine ⟨_, _, hrun, hlive, rfl, (hanswers 0 _ 0 rfl rfl ?_).2 [.turn 0, .turn 0] _ rfl ?_ ?_⟩
  · exact ⟨Nat.le_refl 0, _, _, _, rfl, rfl, by decide⟩
  · decide
  · decide

/-- The connection of a listener fails, and a second watch joins it: it starts on a task
that only waits. -/
theorem failed_listener_joined :
    ¬ ∀ w : Listening, (listening sampleNotifyLib).Reach (fun _ _ => True) w → w.Live := by
  intro hclaim
  have hrun : Machine.run (Listening.next sampleNotifyLib) {}
      (sampleOpened ++ [.recvError 0, .call "imd://instructions/abc" sampleSpec false, .lookup 0,
        .subscribe 0]) = some _ := rfl
  have hinit : (listening sampleNotifyLib).Reach (fun _ _ => True) {} :=
    .init ⟨rfl, rfl, rfl, fun _ => rfl⟩
  have hlive := hclaim _ (hinit.run (fun _ hnext => hnext) (fun _ _ _ => trivial) hrun)
  exact absurd (hlive _ (List.mem_cons_of_mem _ List.mem_cons_self)) (by decide)

end McpgSql.Watch
