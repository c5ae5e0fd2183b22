import Mathlib.Data.Finset.Card
import McpgSql.Library.Machine
import McpgSql.Library.Shared

/-!
# The watchers of the cache

`spawn_invalidator` gives its task a reference of its own to the invalidator, whose
drop guard is to end the task. A profile, a registration and the calls that cloned the
runtime hold the others (`Watchers.held`). So the last of these takes nothing down:
its task keeps the invalidator, and the invalidator keeps its task from being
cancelled (`Spawned`: every task ever spawned runs).

* `next_cases`: what a step does to the references;
* `tornDown_iff`: the watchers do not outlive their bindings iff each invalidator that
  was spawned is still held;
* `tornDown_iff_keeps`: along every run, a step that gives up the last reference of a
  profile or a call is what breaks it.
-/

namespace McpgSql.Cache

open Library

/-- The invalidators by their number, with their references and whether their token is
cancelled. A runtime is told by its `cache_invalidator`. -/
structure Watchers where
  invalidators : List (Shared Bool) := []
  profiles : List (String × Option Nat) := []
  /-- The registrations that have their invalidator and no profile yet. -/
  registering : List (String × Option Nat) := []
  /-- The runtimes that calls in flight have cloned. -/
  calls : List (Option Nat) := []
  /-- The loops that run, by the invalidator each was given. -/
  tasks : List Nat := []
deriving DecidableEq

inductive WatchersAction where
  /-- `register_profile` comes to its invalidator; without `invalidate_on` it has none. -/
  | spawn (name : String) (watched : Bool)
  /-- The cost does not compile: the runtime is never made. -/
  | registerFail (i : Nat)
  | insertProfile (i : Nat)
  | startCall (name : String)
  | endCall (i : Nat)
  /-- `shutdown` clears the profiles. -/
  | clear
  /-- The loop finds its token cancelled. -/
  | taskReturns (id : Nat)
deriving DecidableEq

namespace Watchers

variable (w : Watchers)

/-- The invalidators that a profile or a call holds, a registration too. -/
def held : List Nat :=
  w.profiles.filterMap Prod.snd ++ w.registering.filterMap Prod.snd ++ w.calls.filterMap id

/-- The references that an action drops, those of the tasks apart. -/
def givesUp : WatchersAction → List Nat
  | .registerFail i => (w.registering[i]?.bind Prod.snd).toList
  | .insertProfile i => match w.registering[i]? with
    | some (name, _) => (w.profiles.filter (·.1 = name)).filterMap Prod.snd
    | none => []
  | .endCall i => w.calls[i]?.join.toList
  | .clear => w.profiles.filterMap Prod.snd
  | .spawn .. | .startCall _ | .taskReturns _ => []

/-- The last reference cancels the token. -/
def release (ids : List Nat) : Watchers :=
  { w with invalidators := releaseAll (fun _ => true) w.invalidators ids }

def next (a : WatchersAction) : Option Watchers :=
  let dropped := w.release (w.givesUp a)
  match a with
  | .spawn name true =>
    -- one reference for the caller, one for the task
    some { w with
      invalidators := w.invalidators ++ [⟨2, false⟩]
      registering := w.registering ++ [(name, some w.invalidators.length)]
      tasks := w.tasks ++ [w.invalidators.length] }
  | .spawn name false => some { w with registering := w.registering ++ [(name, none)] }
  | .registerFail i => (w.registering[i]?).map fun _ =>
      { dropped with registering := w.registering.eraseIdx i }
  | .insertProfile i => (w.registering[i]?).map fun (name, invalidator) =>
      { dropped with
        registering := w.registering.eraseIdx i
        profiles := (name, invalidator) :: w.profiles.filter (·.1 ≠ name) }
  | .startCall name => (w.profiles.lookup name).map fun invalidator =>
      { w with
        calls := w.calls ++ [invalidator]
        invalidators := match invalidator with
          | some id => w.invalidators.modify id Shared.clone
          | none => w.invalidators }
  | .endCall i => (w.calls[i]?).map fun _ => { dropped with calls := w.calls.eraseIdx i }
  | .clear => some { dropped with profiles := [] }
  | .taskReturns id =>
    if id ∈ w.tasks ∧ (w.invalidators[id]?.map Shared.value) = some true then
      some { w.release [id] with tasks := w.tasks.erase id }
    else none

/-- No watcher outlives its binding. -/
structure TornDown : Prop where
  cancelled : ∀ id s, w.invalidators[id]? = some s → id ∉ w.held → s.value = true
  running : w.tasks.length ≤ w.held.toFinset.card

/-- What the action gives up is held elsewhere too. -/
def Keeps (a : WatchersAction) : Prop :=
  ∀ id ∈ w.givesUp a, (w.givesUp a).count id < w.held.count id

instance (a : WatchersAction) : Decidable (w.Keeps a) :=
  inferInstanceAs (Decidable (∀ id ∈ w.givesUp a, (w.givesUp a).count id < w.held.count id))

end Watchers

/-- The runs of a plugin from its creation on. -/
def watchers : Machine Watchers WatchersAction where
  init w := w = {}
  step w a w' := w.next a = some w'

/-! ## Steps -/

namespace Watchers

variable {w w' : Watchers} {a : WatchersAction}

/-- What a step that gives up `given` does to the references. -/
inductive Effect (w : Watchers) (given : List Nat) (w' : Watchers) : Prop
  | gives (held : w.held.Perm (given ++ w'.held))
      (invalidators : w'.invalidators = releaseAll (fun _ => true) w.invalidators given)
      (tasks : w'.tasks = w.tasks)
  | spawns (none : given = []) (held : w'.held.Perm (w.invalidators.length :: w.held))
      (invalidators : w'.invalidators = w.invalidators ++ [⟨2, false⟩])
      (tasks : w'.tasks = w.tasks ++ [w.invalidators.length])
  | clones (id : Nat) (none : given = []) (mem : id ∈ w.held) (held : w'.held.Perm (id :: w.held))
      (invalidators : w'.invalidators = w.invalidators.modify id Shared.clone)
      (tasks : w'.tasks = w.tasks)
  | returns (id : Nat) (mem : id ∈ w.tasks)
      (cancelled : w.invalidators[id]?.map Shared.value = some true)

theorem count_held (w : Watchers) (j : Nat) :
    w.held.count j = (w.profiles.filterMap Prod.snd).count j +
      (w.registering.filterMap Prod.snd).count j + (w.calls.filterMap id).count j := by
  rw [held, List.count_append, List.count_append]

/-- The runtimes under a name, and those under the others. -/
theorem count_filter (profiles : List (String × Option Nat)) (name : String) (j : Nat) :
    (profiles.filterMap Prod.snd).count j =
      ((profiles.filter (·.1 = name)).filterMap Prod.snd).count j +
        ((profiles.filter (·.1 ≠ name)).filterMap Prod.snd).count j := by
  have hperm := List.filter_append_perm (fun entry => decide (entry.1 = name)) profiles
  simp only [ne_eq, decide_not]
  rw [← List.count_append, ← List.filterMap_append, (hperm.filterMap Prod.snd).count_eq]

theorem next_effect (h : w.next a = some w') : Effect w (w.givesUp a) w' := by
  cases a with
  | spawn name watched =>
    cases watched with
    | true =>
      cases h
      refine .spawns rfl (List.perm_iff_count.mpr fun j => ?_) rfl rfl
      simp only [count_held, count_filterMap_concat, List.count_cons, Option.toList_some,
        List.count_nil]
      omega
    | false =>
      cases h
      refine .gives (List.perm_iff_count.mpr fun j => ?_) rfl rfl
      simp only [givesUp, List.count_append, count_held, count_filterMap_concat, Option.toList_none,
        List.count_nil]
      omega
  | registerFail i =>
    obtain ⟨r, hr, rfl⟩ := Option.map_eq_some_iff.mp h
    refine .gives (List.perm_iff_count.mpr fun j => ?_) rfl rfl
    rw [List.count_append, count_held, count_held, count_filterMap_eraseIdx Prod.snd j hr, givesUp,
      hr]
    simp only [release, Option.bind_some]
    omega
  | insertProfile i =>
    obtain ⟨⟨name, invalidator⟩, hr, rfl⟩ := Option.map_eq_some_iff.mp h
    refine .gives (List.perm_iff_count.mpr fun j => ?_) rfl rfl
    rw [List.count_append, count_held, count_held, count_filterMap_eraseIdx Prod.snd j hr,
      count_filter w.profiles name, givesUp, hr]
    simp only [release, count_filterMap_cons]
    omega
  | startCall name =>
    obtain ⟨invalidator, hp, rfl⟩ := Option.map_eq_some_iff.mp h
    cases invalidator with
    | none =>
      refine .gives (List.perm_iff_count.mpr fun j => ?_) rfl rfl
      simp only [givesUp, List.count_append, count_held, count_filterMap_concat, id_eq,
        Option.toList_none, List.count_nil]
      omega
    | some id =>
      have hmem : id ∈ w.held := by
        obtain ⟨front, back, hsplit, -⟩ := List.lookup_eq_some_iff.mp hp
        rw [held, hsplit]
        simp
      refine .clones id rfl hmem (List.perm_iff_count.mpr fun j => ?_) rfl rfl
      simp only [count_held, count_filterMap_concat, List.count_cons, id_eq, Option.toList_some,
        List.count_nil]
      omega
  | endCall i =>
    obtain ⟨r, hr, rfl⟩ := Option.map_eq_some_iff.mp h
    refine .gives (List.perm_iff_count.mpr fun j => ?_) rfl rfl
    rw [List.count_append, count_held, count_held, count_filterMap_eraseIdx id j hr, givesUp, hr]
    simp only [release, Option.join_some, id_eq]
    omega
  | clear =>
    cases h
    refine .gives (List.perm_iff_count.mpr fun j => ?_) rfl rfl
    rw [List.count_append, count_held, count_held]
    simp only [givesUp, release, List.filterMap_nil, List.count_nil]
    omega
  | taskReturns id =>
    simp only [next] at h
    split at h
    · rename_i hc
      exact .returns id hc.1 hc.2
    · cases h

/-! ## Runs -/

/-- Every reference is counted, the tasks' own too, and every task ever spawned runs. -/
structure Spawned (w : Watchers) : Prop where
  counted : Counted (· = true) w.invalidators (w.held ++ w.tasks)
  tasks : w.tasks = List.range w.invalidators.length

/-- A task holds its invalidator, so its token is not cancelled. -/
theorem Spawned.not_cancelled (h : w.Spawned) {id : Nat} {s : Shared Bool}
    (hs : w.invalidators[id]? = some s) : s.value = false := by
  have hlt := (List.getElem?_eq_some_iff.mp hs).1
  have hmem : id ∈ w.held ++ w.tasks :=
    List.mem_append_right _ (by rw [h.tasks]; exact List.mem_range.mpr hlt)
  simpa [hmem] using h.counted.dropped hs

theorem Spawned.next (h : w.Spawned) (heffect : Effect w (w.givesUp a) w') : w'.Spawned := by
  cases heffect with
  | gives hheld hinv htasks =>
    refine ⟨?_, ?_⟩
    · rw [hinv, htasks]
      refine Counted.releaseAll (h.counted.perm ?_) fun _ => rfl
      rw [← List.append_assoc]
      exact hheld.append_right _
    · rw [htasks, h.tasks, hinv, length_releaseAll]
  | spawns _ hheld hinv htasks =>
    refine ⟨?_, ?_⟩
    · rw [hinv, htasks]
      refine (h.counted.push (by omega) (by decide)).perm (List.perm_iff_count.mpr fun id => ?_)
      rw [List.count_append, List.count_append, List.count_append, List.count_append,
        hheld.count_eq, List.count_cons, List.count_replicate, List.count_singleton]
      split <;> omega
    · rw [htasks, h.tasks, hinv, List.length_append, List.length_singleton, List.range_succ]
  | clones id _ hmem hheld hinv htasks =>
    refine ⟨?_, ?_⟩
    · rw [hinv, htasks]
      exact (h.counted.clone (List.mem_append_left _ hmem)).perm
        (hheld.symm.append_right _)
    · rw [htasks, h.tasks, hinv, List.length_modify]
  | returns id hmem hcancelled =>
    obtain ⟨s, hs, hvalue⟩ := Option.map_eq_some_iff.mp hcancelled
    rw [h.not_cancelled hs] at hvalue
    cases hvalue

/-- No watcher outlives its binding iff every one that was spawned has it still. -/
theorem tornDown_iff (h : w.Spawned) :
    w.TornDown ↔ ∀ id < w.invalidators.length, id ∈ w.held := by
  constructor
  · intro htorn id hlt
    have hs := List.getElem?_eq_getElem hlt
    by_contra hnot
    have := htorn.cancelled id _ hs hnot
    rw [h.not_cancelled hs] at this
    cases this
  · intro hheld
    refine ⟨fun id s hs hnot => absurd (hheld id (List.getElem?_eq_some_iff.mp hs).1) hnot, ?_⟩
    have hsub : Finset.range w.invalidators.length ⊆ w.held.toFinset := fun id hid =>
      List.mem_toFinset.mpr (hheld id (Finset.mem_range.mp hid))
    calc w.tasks.length = (Finset.range w.invalidators.length).card := by
          rw [h.tasks, List.length_range, Finset.card_range]
      _ ≤ w.held.toFinset.card := Finset.card_le_card hsub

/-- Where every invalidator is held, a step keeps it so iff it gives up no last
reference. -/
theorem held_next_iff (h : w.Spawned) (heffect : Effect w (w.givesUp a) w')
    (hheld : ∀ id < w.invalidators.length, id ∈ w.held) :
    (∀ id < w'.invalidators.length, id ∈ w'.held) ↔ w.Keeps a := by
  unfold Keeps
  cases heffect with
  | gives hperm hinv htasks =>
    rw [hinv, length_releaseAll]
    have hcount (id : Nat) := (hperm.count_eq id).trans List.count_append
    constructor
    · intro hheld' id hid
      have hlt := h.counted.lt id
        (List.mem_append_left _ (hperm.mem_iff.mpr (List.mem_append_left _ hid)))
      have := List.count_pos_iff.mpr (hheld' id hlt)
      have := hcount id
      omega
    · intro hkeeps id hlt
      have := List.count_pos_iff.mpr (hheld id hlt)
      have := hcount id
      rw [← List.count_pos_iff]
      by_cases hid : id ∈ w.givesUp a
      · have := hkeeps id hid
        omega
      · have := List.count_eq_zero.mpr hid
        omega
  | spawns hnone hperm hinv =>
    rw [hnone, hinv, List.length_append, List.length_singleton]
    refine iff_of_true (fun id hlt => hperm.mem_iff.mpr ?_) (by simp)
    rcases Nat.lt_succ_iff_lt_or_eq.mp hlt with hlt | rfl
    · exact List.mem_cons_of_mem _ (hheld id hlt)
    · exact List.mem_cons_self
  | clones _ hnone _ hperm hinv =>
    rw [hnone, hinv, List.length_modify]
    exact iff_of_true (fun id hlt => hperm.mem_iff.mpr (List.mem_cons_of_mem _ (hheld id hlt)))
      (by simp)
  | returns id _ hcancelled =>
    obtain ⟨s, hs, hvalue⟩ := Option.map_eq_some_iff.mp hcancelled
    rw [h.not_cancelled hs] at hvalue
    cases hvalue

end Watchers

theorem spawned_of_reach {ok : Watchers → WatchersAction → Prop} {w : Watchers}
    (h : watchers.Reach ok w) : w.Spawned := by
  refine h.invariant ?_ fun _ hstep hI => hI.next (Watchers.next_effect hstep)
  rintro _ rfl
  exact ⟨Counted.nil, rfl⟩

/-- Along every run in which no step gives up the last reference of the profiles and
calls to an invalidator, no watcher outlives its binding; and the first step that does
leaves one that does. -/
theorem tornDown_iff_keeps (w : Watchers) (h : watchers.Reach Watchers.Keeps w) :
    w.TornDown ∧ ∀ a w', w.next a = some w' → (w'.TornDown ↔ w.Keeps a) := by
  have hspawned := spawned_of_reach h
  have hheld : ∀ id < w.invalidators.length, id ∈ w.held := by
    refine h.invariant_of (J := Watchers.Spawned) spawned_of_reach ?_ fun hok hstep hJ hI =>
      (Watchers.held_next_iff hJ (Watchers.next_effect hstep) hI).mpr hok
    rintro _ rfl
    exact nofun
  refine ⟨(Watchers.tornDown_iff hspawned).mpr hheld, fun a w' hnext => ?_⟩
  have heffect := Watchers.next_effect hnext
  rw [Watchers.tornDown_iff (hspawned.next heffect)]
  exact Watchers.held_next_iff hspawned heffect hheld

/-- The profiles are cleared under a call, which holds the invalidator on. -/
theorem cleared_under_call_tornDown :
    ∃ w ∈ Machine.run Watchers.next {}
        [.spawn "orders" true, .insertProfile 0, .startCall "orders", .clear],
      w.held = [0] ∧ w.TornDown := by
  have hrun : Machine.run Watchers.next {}
      [.spawn "orders" true, .insertProfile 0, .startCall "orders", .clear] = some _ := rfl
  have hreach := (Machine.Reach.init rfl : watchers.Reach Watchers.Keeps {}).along
    (fun _ hnext => hnext) (by decide) hrun
  exact ⟨_, hrun, rfl, (tornDown_iff_keeps _ hreach).1⟩

/-- A shutdown: nothing holds the invalidator but its task, which runs on. -/
theorem cleared_outlives :
    ¬ ∀ w : Watchers, watchers.Reach (fun _ _ => True) w → w.TornDown := by
  intro hclaim
  have hrun : Machine.run Watchers.next {} [.spawn "orders" true, .insertProfile 0, .clear] =
      some _ := rfl
  have hreach := (Machine.Reach.init rfl : watchers.Reach (fun _ _ => True) {}).run
    (fun _ hnext => hnext) (fun _ _ _ => trivial) hrun
  have hcancelled := (hclaim _ hreach).cancelled 0 ⟨1, false⟩ rfl (by decide)
  exact absurd hcancelled (by decide)

end McpgSql.Cache
