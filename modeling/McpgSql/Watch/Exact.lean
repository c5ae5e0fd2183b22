import McpgSql.Watch.Liveness

/-!
# What a LISTEN watch emits

A watch emits its events for the notifications of its own URL and channel, each in its
place: one for each that changes its URI, and one without a payload for each lag
(`emissions_exact`). Once it is cancelled it emits what it was emitting and ends
(`cancelled_watch_ends`).

* `Keyed`: what a watch, a call and the map hold is a listener of their key, and what a
  listener sent came over its channel;
* `WatchTask.Accounted`: the events are the answers to what the watch got;
* `WatchTask.Ending`: a cancelled watch has a bounded number of steps.
-/

namespace McpgSql.Watch

open Library

section

variable {lib : NotifyLib} {w w' : Listening} {a : ListenAction}

/-! ## Keys -/

/-- The listener `l` has this key. -/
def Listening.HasKey (w : Listening) (l : Nat) (key : String × String) : Prop :=
  ∃ s, w.listeners[l]? = some s ∧ s.value.key = key

/-- The connections are those of the URLs and channels asked for. -/
structure Keyed (w : Listening) : Prop where
  map : ∀ {key : String × String} {l : Nat}, w.map key = some l → w.HasKey l key
  calls : ∀ call ∈ w.calls, ∀ l, call.holds = some l → w.HasKey l call.key
  watches : ∀ task ∈ w.watches, w.HasKey task.listener (task.spec.url, task.spec.channel)
  sent : ∀ {l : Nat} {s : Shared Listener}, w.listeners[l]? = some s →
    ∀ m ∈ s.value.sent, m.1 = s.value.key.2

theorem upgrade_map {key : String × String} {id : Nat} (h : w.upgrade key = some id) :
    w.map key = some id := (Option.filter_eq_some_iff.mp h).1

/-- A listener keeps its key. -/
theorem Step.hasKey (h : Step lib w a w') {l : Nat} {key : String × String}
    (hl : w.HasKey l key) : w'.HasKey l key := by
  obtain ⟨s, hs, rfl⟩ := hl
  cases h with
  | call | misses | connectFail | subscribe | turn | cancel => exact ⟨s, hs, rfl⟩
  | joins =>
    refine ⟨_, getElem?_modify_some hs _ _, ?_⟩
    split <;> rfl
  | registers => exact ⟨s, getElem?_concat_of_some hs, rfl⟩
  | notify | recvError | taskEnds =>
    refine ⟨_, getElem?_modify_some hs _ _, ?_⟩
    split <;> rfl
  | ends =>
    refine ⟨_, getElem?_modify_some hs _ _, ?_⟩
    split
    · simp only [Shared.release]
      split <;> rfl
    · rfl

/-- The notifications came over the listener's channel. -/
def Listener.OwnChannel (l : Listener) : Prop := ∀ m ∈ l.sent, m.1 = l.key.2

theorem own_modify {heap : List (Shared Listener)} {f : Shared Listener → Shared Listener} {j : Nat}
    (hheap : ∀ {l : Nat} {s : Shared Listener}, heap[l]? = some s → s.value.OwnChannel)
    (hf : ∀ s, s.value.OwnChannel → (f s).value.OwnChannel) {l : Nat} {s : Shared Listener}
    (hs : (heap.modify j f)[l]? = some s) : s.value.OwnChannel := by
  obtain ⟨t, ht, rfl⟩ := getElem?_modify_cases hs
  split
  · exact hf t (hheap ht)
  · exact hheap ht

theorem Step.ownChannel (h : Step lib w a w')
    (hw : ∀ {l : Nat} {s : Shared Listener}, w.listeners[l]? = some s → s.value.OwnChannel)
    {l : Nat} {s : Shared Listener} (hs : w'.listeners[l]? = some s) : s.value.OwnChannel := by
  cases h with
  | call | misses | connectFail | subscribe | turn | cancel => exact hw hs
  | @joins _ c call id =>
    exact own_modify hw (f := Shared.clone) (j := id) (fun _ hown => hown) hs
  | registers =>
    obtain hold | ⟨-, rfl⟩ := getElem?_concat_cases hs
    · exact hw hold
    · intro m hm
      cases hm
  | @notify j _ payload =>
    refine own_modify hw (f := Shared.update _) (j := j) (fun t hown m hm => ?_) hs
    rcases List.mem_append.mp hm with hm | hm
    · exact hown m hm
    · rw [List.mem_singleton.mp hm]
      rfl
  | @recvError j | @taskEnds j =>
    refine own_modify hw (f := Shared.update _) (j := j) ?_ hs
    exact fun _ hown => hown
  | @ends i task =>
    refine own_modify hw (f := Shared.release _) (j := task.listener) (fun t hown => ?_) hs
    simp only [Shared.release]
    split
    · exact hown
    · exact hown

/-- A new watch is one that subscribed. -/
theorem Step.length_watches (h : Step lib w a w') :
    (∃ c, a = .subscribe c) ∨ w'.watches.length = w.watches.length := by
  cases h with
  | @subscribe c => exact .inl ⟨c, rfl⟩
  | turn | ends | cancel => exact .inr (List.length_set ..)
  | call | joins | misses | connectFail | registers | notify | recvError | taskEnds =>
    exact .inr rfl

/-- A watch that was not there has the spec and the listener of its call. -/
theorem subscribed_call (h : w.next lib a = some w') {i : Nat} {task : WatchTask}
    (hi : w.watches[i]? = none) (hi' : w'.watches[i]? = some task) :
    ∃ call ∈ w.calls, call.holds = some task.listener ∧ task.spec = call.spec ∧
      task.emitting = none ∧ task.emitted = [] := by
  obtain ⟨c, rfl⟩ | hlength := (Step.of_next h).length_watches
  · obtain ⟨call, hcall, h⟩ := Option.bind_eq_some_iff.mp h
    obtain ⟨id, hid, h⟩ := Option.bind_eq_some_iff.mp h
    obtain ⟨s, hs, rfl⟩ := Option.map_eq_some_iff.mp h
    obtain hold | ⟨-, rfl⟩ := getElem?_concat_cases hi'
    · rw [hi] at hold
      cases hold
    · exact ⟨call, List.mem_of_getElem? hcall, hid, rfl, rfl, rfl⟩
  · rw [List.getElem?_eq_none_iff, ← hlength, ← List.getElem?_eq_none_iff, hi'] at hi
    cases hi

/-- A call holds what it held, or a listener that was registered for its key. -/
theorem Step.call_hasKey (h : Step lib w a w') (hw : Keyed w) {call : WatchCall} {l : Nat}
    (hc : call ∈ w'.calls) (hl : call.holds = some l) : w'.HasKey l call.key := by
  have hold (hc : call ∈ w.calls) : w'.HasKey l call.key := h.hasKey (hw.calls call hc l hl)
  cases h with
  | call =>
    rcases List.mem_append.mp hc with hc | hc
    · exact hold hc
    · rw [List.mem_singleton.mp hc] at hl
      cases hl
  | @joins _ c call₀ id ha hcall hholds hup =>
    obtain hc | rfl := List.mem_or_eq_of_mem_set hc
    · exact hold hc
    · cases hl
      exact (Step.joins ha hcall hholds hup : Step lib w a _).hasKey (hw.map (upgrade_map hup))
  | misses =>
    obtain hc | rfl := List.mem_or_eq_of_mem_set hc
    · exact hold hc
    · cases hl
  | registers =>
    obtain hc | rfl := List.mem_or_eq_of_mem_set hc
    · exact hold hc
    · cases hl
      exact ⟨_, List.getElem?_concat_length, rfl⟩
  | connectFail | subscribe => exact hold (List.mem_of_mem_eraseIdx hc)
  | notify | recvError | taskEnds | turn | ends | cancel => exact hold hc

/-- The map names what it named, or a new listener of the key. -/
theorem Step.map_hasKey (h : Step lib w a w') (hw : Keyed w) {key : String × String} {l : Nat}
    (hl : w'.map key = some l) : w'.HasKey l key := by
  have hold (hl : w.map key = some l) : w'.HasKey l key := h.hasKey (hw.map hl)
  cases h with
  | @registers c call =>
    have hl : Function.update (fun key => w.upgrade key) call.key (some w.listeners.length) key =
      some l := hl
    by_cases hkey : key = call.key
    · subst hkey
      rw [Function.update_self] at hl
      cases hl
      exact ⟨_, List.getElem?_concat_length, rfl⟩
    · rw [Function.update_of_ne hkey] at hl
      exact hold (upgrade_map hl)
  | call | joins | misses | connectFail | subscribe | notify | recvError | taskEnds | turn | ends
  | cancel => exact hold hl

theorem Keyed.next (hw : Keyed w) (hnext : w.next lib a = some w') : Keyed w' := by
  have h := Step.of_next hnext
  refine ⟨h.map_hasKey hw, fun call hc l hl => h.call_hasKey hw hc hl, fun task hmem => ?_,
    h.ownChannel hw.sent⟩
  obtain ⟨i, hi⟩ := List.mem_iff_getElem?.mp hmem
  cases hold : w.watches[i]? with
  | none =>
    obtain ⟨call, hc, hholds, hspec, -⟩ := subscribed_call hnext hold hi
    rw [hspec]
    exact h.hasKey (hw.calls call hc _ hholds)
  | some task₀ =>
    have hkey := h.hasKey (hw.watches task₀ (List.mem_of_getElem? hold))
    obtain ⟨task', hi', hcases⟩ := h.watch hold
    obtain rfl := Option.some.inj (hi'.symm.trans hi)
    obtain ⟨-, s, -, hturn⟩ | ⟨-, rfl⟩ | ⟨-, rfl⟩ := hcases
    · obtain ⟨⟨-, hspec, hlistener, -⟩, -⟩ := turn_keeps hturn
      rw [hspec, hlistener]
      exact hkey
    · exact hkey
    · exact hkey

theorem keyed_of_reach {ok : Listening → ListenAction → Prop} (h : (listening lib).Reach ok w) :
    Keyed w := by
  refine h.invariant ?_ fun _ hstep hw => hw.next hstep
  rintro w ⟨hlisteners, hcalls, hwatches, hmap⟩
  refine ⟨fun hl => ?_, fun call hc => ?_, fun task hmem => ?_, fun hs => ?_⟩
  · rw [hmap] at hl
    cases hl
  · rw [hcalls] at hc
    cases hc
  · rw [hwatches] at hmem
    cases hmem
  · rw [hlisteners] at hs
    cases hs

/-! ## Events -/

/-- What a watch emits for what it got. -/
def WatchTask.reaction (lib : NotifyLib) (task : WatchTask) :
    Received (String × String) → Option WatchEvent
  | .value (channel, payload) =>
    if task.spec.changes lib payload task.uri then
      some (eventFromPayload lib channel payload task.eventSource)
    else none
  | .lagged _ => some (eventFromPayload lib task.spec.channel "" task.eventSource)

/-- The events of a watch, with the one that it is emitting. -/
def WatchTask.events (task : WatchTask) : List WatchEvent :=
  task.emitted.map Emission.event ++ task.emitting.toList

/-- A watch that takes a notification reacts to what it got. -/
theorem turn_takes {task task' : WatchTask} {sent : List (String × String)}
    (h : task.turn lib sent = some task') (hidle : task.emitting = none)
    (hlive : task.cancelled = false) :
    ∃ r next, recv notificationBuffer sent task.next = some (r, next) ∧
      task' = { task with next, emitting := task.reaction lib r } := by
  unfold WatchTask.turn at h
  rw [hidle] at h
  have h := (if_neg (by rw [hlive]; exact Bool.false_ne_true)).symm.trans h
  obtain ⟨⟨r, next⟩, hrecv, htask⟩ := Option.map_eq_some_iff.mp h
  refine ⟨r, next, hrecv, htask.symm.trans ?_⟩
  cases r with
  | value message =>
    cases hchanges : task.spec.changes lib message.2 task.uri with
    | true => simp only [WatchTask.reaction, hchanges, ↓reduceIte]
    | false => simp only [WatchTask.reaction, hchanges, Bool.false_eq_true, ↓reduceIte]
  | lagged missed => rfl

/-- The events are the answers to what the watch got from `sent`. -/
def WatchTask.Accounted (lib : NotifyLib) (task : WatchTask) (sent : List (String × String)) :
    Prop :=
  ∃ got, Reads notificationBuffer sent task.subscribed got task.next ∧
    task.events = got.filterMap (task.reaction lib)

theorem WatchTask.Accounted.turn {task task' : WatchTask} {sent : List (String × String)}
    (h : task.Accounted lib sent) (hturn : task.turn lib sent = some task') :
    task'.Accounted lib sent := by
  obtain ⟨got, hreads, hevents⟩ := h
  obtain ⟨event, hemitting, rfl⟩ | ⟨hidle, -, rfl⟩ | ⟨_, _, -, hidle, hlive, -⟩ := turn_cases hturn
  · refine ⟨got, hreads, Eq.trans ?_ hevents⟩
    rw [WatchTask.events, WatchTask.events, hemitting, List.map_append, Option.toList_none,
      List.append_nil]
    rfl
  · exact ⟨got, hreads, hevents⟩
  · obtain ⟨r, next, hrecv, rfl⟩ := turn_takes hturn hidle hlive
    refine ⟨got ++ [r], hreads.recv hrecv, ?_⟩
    rw [WatchTask.events, hidle, Option.toList_none, List.append_nil] at hevents
    rw [WatchTask.events, List.filterMap_append, hevents]
    show got.filterMap (task.reaction lib) ++ (task.reaction lib r).toList =
      got.filterMap (task.reaction lib) ++ [r].filterMap (task.reaction lib)
    cases hr : task.reaction lib r with
    | none => rw [List.filterMap_cons_none hr]; rfl
    | some event => rw [List.filterMap_cons_some hr]; rfl

/-- Each watch's events are accounted for. -/
def Accounting (lib : NotifyLib) (w : Listening) : Prop :=
  ∀ task ∈ w.watches, ∃ s, w.listeners[task.listener]? = some s ∧
    task.Accounted lib s.value.sent

theorem Accounting.next (hw : Accounting lib w) (hnext : w.next lib a = some w') :
    Accounting lib w' := by
  have h := Step.of_next hnext
  intro task hmem
  obtain ⟨i, hi⟩ := List.mem_iff_getElem?.mp hmem
  cases hold : w.watches[i]? with
  | none =>
    obtain ⟨-, s, -, -, hs, -, hlength, hsubscribed, -⟩ := h.new_watch hold hi
    obtain ⟨-, -, -, -, hidle, hquiet⟩ := subscribed_call hnext hold hi
    obtain ⟨s', hs', hsent, -⟩ := h.listener hs
    refine ⟨s', hs', [], ?_, ?_⟩
    · rw [hsubscribed]
      exact .nil
    · rw [WatchTask.events, hidle, hquiet]
      rfl
  | some task₀ =>
    obtain ⟨s, hs, got, hreads, hevents⟩ := hw task₀ (List.mem_of_getElem? hold)
    obtain ⟨s', hs', hsent, -⟩ := h.listener hs
    obtain ⟨task', hi', hcases⟩ := h.watch hold
    obtain rfl := Option.some.inj (hi'.symm.trans hi)
    have hlater : task₀.Accounted lib s'.value.sent := ⟨got, hreads.mono hsent, hevents⟩
    obtain ⟨-, t, ht, hturn⟩ | ⟨-, rfl⟩ | ⟨-, rfl⟩ := hcases
    · obtain rfl := Option.some.inj (hs.symm.trans ht)
      obtain ⟨⟨-, -, hlistener, -⟩, -⟩ := turn_keeps hturn
      obtain ⟨got', hreads', hevents'⟩ := WatchTask.Accounted.turn ⟨got, hreads, hevents⟩ hturn
      rw [hlistener]
      exact ⟨s', hs', got', hreads'.mono hsent, hevents'⟩
    · exact ⟨s', hs', hlater⟩
    · exact ⟨s', hs', hlater⟩

theorem accounting_of_reach {ok : Listening → ListenAction → Prop}
    (h : (listening lib).Reach ok w) : Accounting lib w := by
  refine h.invariant ?_ fun _ hstep hw => hw.next hstep
  rintro w ⟨-, -, hwatches, -⟩
  rw [Accounting, hwatches]
  exact fun _ ht => by cases ht

/-! ## Cancelled watches -/

/-- The steps that the task of a cancelled watch has left. -/
def WatchTask.turnsLeft (task : WatchTask) : Nat :=
  if task.ended then 0 else if task.emitting.isSome then 2 else 1

theorem WatchTask.turnsLeft_le (task : WatchTask) : task.turnsLeft ≤ 2 := by
  unfold turnsLeft
  split
  · omega
  · split <;> omega

theorem WatchTask.ended_of_turnsLeft (task : WatchTask) (h : task.turnsLeft = 0) :
    task.ended = true := by
  unfold turnsLeft at h
  split at h
  · assumption
  · split at h <;> omega

/-- Only a watch that has not ended takes a step. -/
theorem not_ended_of_turn {i : Nat} {task : WatchTask} (hi : w.watches[i]? = some task)
    (h : w.next lib (.turn i) = some w') : task.ended = false := by
  obtain ⟨task₀, htask, h⟩ := Option.bind_eq_some_iff.mp h
  obtain rfl := Option.some.inj (htask.symm.trans hi)
  split at h
  · cases h
  · rename_i hended
    rwa [Bool.not_eq_true] at hended

theorem turnsLeft_turn {task task' : WatchTask} {sent : List (String × String)}
    (hended : task.ended = false) (hcancelled : task.cancelled = true)
    (hturn : task.turn lib sent = some task') :
    task'.cancelled = true ∧ task'.events = task.events ∧ task'.turnsLeft + 1 = task.turnsLeft := by
  obtain ⟨event, hemitting, rfl⟩ | ⟨hidle, -, rfl⟩ | ⟨_, _, -, -, hlive, -⟩ := turn_cases hturn
  · refine ⟨hcancelled, ?_, ?_⟩
    · simp [WatchTask.events, hemitting]
    · simp [WatchTask.turnsLeft, hemitting, hended]
  · refine ⟨hcancelled, rfl, ?_⟩
    simp [WatchTask.turnsLeft, hidle, hended]
  · rw [hcancelled] at hlive
    cases hlive

/-- A cancelled watch takes the steps it has left, and its events stay what they were. -/
theorem cancelled_run {actions : List ListenAction} {i : Nat} {task : WatchTask}
    (hi : w.watches[i]? = some task) (hcancelled : task.cancelled = true)
    (hrun : Machine.run (Listening.next lib) w actions = some w') :
    ∃ task', w'.watches[i]? = some task' ∧ task'.events = task.events ∧
      task'.turnsLeft + actions.count (.turn i) = task.turnsLeft := by
  induction actions generalizing w task with
  | nil =>
    cases hrun
    exact ⟨task, hi, rfl, rfl⟩
  | cons a actions ih =>
    obtain ⟨w₁, h₁, hrest⟩ := Option.bind_eq_some_iff.mp hrun
    obtain ⟨task₁, hi₁, hcases⟩ := (Step.of_next h₁).watch hi
    obtain ⟨rfl, s, hs, hturn⟩ | ⟨rfl, rfl⟩ | ⟨ha, rfl⟩ := hcases
    · obtain ⟨hcancelled₁, hevents₁, hleft₁⟩ :=
        turnsLeft_turn (not_ended_of_turn hi h₁) hcancelled hturn
      obtain ⟨task', hi', hevents, hleft⟩ := ih hi₁ hcancelled₁ hrest
      rw [List.count_cons_self]
      exact ⟨task', hi', hevents.trans hevents₁, by omega⟩
    · obtain ⟨task', hi', hevents, hleft⟩ := ih hi₁ rfl hrest
      rw [List.count_cons_of_ne (by simp)]
      exact ⟨task', hi', hevents, hleft⟩
    · rw [List.count_cons_of_ne ha]
      exact ih hi₁ hcancelled hrest

/-- Until it has ended a cancelled watch has a step to take. -/
theorem cancelled_turn (hw : Accounting lib w) {i : Nat} {task : WatchTask}
    (hi : w.watches[i]? = some task) (hcancelled : task.cancelled = true)
    (hended : task.ended = false) : (w.next lib (.turn i)).isSome = true := by
  obtain ⟨s, hs, -⟩ := hw task (List.mem_of_getElem? hi)
  have hturn : (task.turn lib s.value.sent).isSome = true := by
    unfold WatchTask.turn
    cases hemitting : task.emitting with
    | some event => rfl
    | none => rw [hcancelled]; rfl
  simp only [Listening.next, hi, hs, hended, Option.bind_some, Bool.false_eq_true, ↓reduceIte,
    Option.isSome_map, hturn]

end

/-- The events of a watch on the listener `l`, of which it got `got`. -/
structure WatchTask.Exact (lib : NotifyLib) (task : WatchTask) (l : Listener)
    (got : List (Received (String × String))) : Prop where
  key : l.key = (task.spec.url, task.spec.channel)
  channel : ∀ m ∈ l.sent, m.1 = task.spec.channel
  reads : Reads notificationBuffer l.sent task.subscribed got task.next
  events : task.events = got.filterMap (task.reaction lib)
  /-- No more were sent since than its channel keeps. -/
  kept : l.sent.length ≤ task.subscribed + notificationBuffer →
    task.events = (((l.sent.drop task.subscribed).take (task.next - task.subscribed)).filter
      fun m => task.spec.changes lib m.2 task.uri).map
        fun m => eventFromPayload lib m.1 m.2 task.eventSource

/-- In every run the events of a watch are, in order, the answers to what it got: of each
notification of its URL and channel since it subscribed, or of the lag in its place. While
no more were sent than its channel keeps, they are those of the notifications that change
its URI. -/
theorem emissions_exact (lib : NotifyLib) (ok : Listening → ListenAction → Prop) (w : Listening)
    (h : (listening lib).Reach ok w) :
    ∀ task ∈ w.watches, ∃ s got, w.listeners[task.listener]? = some s ∧
      task.Exact lib s.value got := by
  intro task hmem
  obtain ⟨s, hs, got, hreads, hevents⟩ := accounting_of_reach h task hmem
  have hkeyed := keyed_of_reach h
  obtain ⟨t, ht, hkey⟩ := hkeyed.watches task hmem
  obtain rfl := Option.some.inj (hs.symm.trans ht)
  refine ⟨s, got, hs, hkey, fun m hm => ?_, hreads, hevents, fun hkept => ?_⟩
  · rw [hkeyed.sent hs m hm, hkey]
  · rw [hevents, hreads.eq_values hkept, List.filterMap_map, ← List.filterMap_eq_map,
      List.filterMap_filter]
    rfl

/-- Two notifications after the watch of the samples, and both of them taken. -/
def sampleNotified : List ListenAction :=
  sampleOpened ++ [.notify 0 samplePayload, .notify 0 "", .turn 0, .turn 0, .turn 0]

theorem sampleNotified_emits : ∃ w task, Machine.run (Listening.next sampleNotifyLib) {}
      sampleNotified = some w ∧ w.watches = [task] ∧ task.next = 2 ∧
    task.events = [eventFromPayload sampleNotifyLib "orders" samplePayload false] ∧
    ∃ s got, w.listeners[task.listener]? = some s ∧ task.Exact sampleNotifyLib s.value got := by
  have hrun : Machine.run (Listening.next sampleNotifyLib) {} sampleNotified = some _ := rfl
  have hinit : (listening sampleNotifyLib).Reach (fun _ _ => True) {} :=
    .init ⟨rfl, rfl, rfl, fun _ => rfl⟩
  have hreach := hinit.run (fun _ hnext => hnext) (fun _ _ _ => trivial) hrun
  exact ⟨_, _, hrun, rfl, rfl, rfl, emissions_exact sampleNotifyLib _ _ hreach _ List.mem_cons_self⟩

/-- A cancelled watch emits what it was emitting and nothing else, and ends with its second
step at the latest. A connection is closed exactly where no call and no watch holds it. -/
theorem cancelled_watch_ends (lib : NotifyLib) (ok : Listening → ListenAction → Prop)
    (w : Listening) (h : (listening lib).Reach ok w) :
    (∀ (i : Nat) (task : WatchTask), w.watches[i]? = some task → task.cancelled = true →
      (task.ended = false → (w.next lib (.turn i)).isSome = true) ∧
      ∀ actions w', Machine.run (Listening.next lib) w actions = some w' →
        ∃ task', w'.watches[i]? = some task' ∧ task'.events = task.events ∧
          actions.count (.turn i) ≤ 2 ∧ (actions.count (.turn i) = 2 → task'.ended = true)) ∧
    ∀ (l : Nat) (s : Shared Listener), w.listeners[l]? = some s →
      (s.value.cancelled = true ↔ l ∉ w.holders) := by
  refine ⟨fun i task hi hcancelled => ⟨cancelled_turn (accounting_of_reach h) hi hcancelled, ?_⟩,
    fun l s hs => (held_of_reach h).counted.dropped hs⟩
  intro actions w' hrun
  obtain ⟨task', hi', hevents, hleft⟩ := cancelled_run hi hcancelled hrun
  have htwo := task.turnsLeft_le
  exact ⟨task', hi', hevents, by omega, fun hcount => task'.ended_of_turnsLeft (by omega)⟩

/-- The watch of the samples is cancelled while it emits. -/
theorem sample_cancelled_ends : ∃ w task, Machine.run (Listening.next sampleNotifyLib) {}
      (sampleOpened ++ [.notify 0 samplePayload, .turn 0, .cancel 0]) = some w ∧
    w.watches = [task] ∧ task.emitting.isSome = true ∧
    ∃ w' task', Machine.run (Listening.next sampleNotifyLib) w [.turn 0, .turn 0] = some w' ∧
      w'.watches[0]? = some task' ∧ task'.events = task.events ∧ task'.ended = true ∧
      ∃ s, w'.listeners[0]? = some s ∧ s.value.cancelled = true := by
  have hrun : Machine.run (Listening.next sampleNotifyLib) {}
      (sampleOpened ++ [.notify 0 samplePayload, .turn 0, .cancel 0]) = some _ := rfl
  have hinit : (listening sampleNotifyLib).Reach (fun _ _ => True) {} :=
    .init ⟨rfl, rfl, rfl, fun _ => rfl⟩
  have hreach := hinit.run (fun _ hnext => hnext) (fun _ _ _ => trivial) hrun
  obtain ⟨hends, -⟩ := cancelled_watch_ends sampleNotifyLib _ _ hreach
  obtain ⟨task', hi', hevents, -, hended⟩ := (hends 0 _ rfl rfl).2 [.turn 0, .turn 0] _ rfl
  exact ⟨_, _, hrun, rfl, rfl, _, task', rfl, hi', hevents, hended rfl, _, rfl, rfl⟩

end McpgSql.Watch
