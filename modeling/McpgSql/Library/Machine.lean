import Mathlib.Logic.Relation

/-!
# Machines: what holds along every run

A machine has initial states and labelled steps. `Machine.Reach ok` are the
states of the runs whose every step, at the state it is taken from, satisfies
`ok`; a property of every such state is proven from its initial states and one
step (`Reach.invariant`, or `Reach.invariant_of` on top of another one).
-/

namespace McpgSql.Library

/-- Initial states, and the steps an action takes. -/
structure Machine (σ α : Type) where
  init : σ → Prop
  step : σ → α → σ → Prop

namespace Machine

variable {σ α : Type} {M : Machine σ α} {ok ok' : σ → α → Prop}

/-- The states of the runs of `M` whose steps all satisfy `ok`. -/
inductive Reach (M : Machine σ α) (ok : σ → α → Prop) : σ → Prop
  | init {s : σ} : M.init s → Reach M ok s
  | step {s s' : σ} {a : α} : Reach M ok s → ok s a → M.step s a s' → Reach M ok s'

/-- An invariant: it holds initially and every allowed step keeps it. -/
theorem Reach.invariant {I : σ → Prop} {s : σ} (h : Reach M ok s) (h₀ : ∀ {s}, M.init s → I s)
    (hs : ∀ {s a s'}, ok s a → M.step s a s' → I s → I s') : I s := by
  induction h with
  | init h => exact h₀ h
  | step _ hok hst ih => exact hs hok hst ih

/-- An invariant whose steps may use one already known. -/
theorem Reach.invariant_of {I J : σ → Prop} {s : σ} (h : Reach M ok s)
    (hJ : ∀ {s}, Reach M ok s → J s) (h₀ : ∀ {s}, M.init s → I s)
    (hs : ∀ {s a s'}, ok s a → M.step s a s' → J s → I s → I s') : I s := by
  induction h with
  | init h => exact h₀ h
  | step hr hok hst ih => exact hs hok hst (hJ hr) ih

/-- Where an invariant makes every step allowed by `ok` one allowed by `ok'`, the
runs under `ok` are runs under `ok'`. -/
theorem Reach.mono {I : σ → Prop} {s : σ} (h : Reach M ok s) (hI : ∀ {s}, Reach M ok s → I s)
    (hok : ∀ {s a s'}, I s → ok s a → M.step s a s' → ok' s a) : Reach M ok' s := by
  induction h with
  | init h => exact .init h
  | step hr ha hst ih => exact .step ih (hok (hI hr) ha hst) hst

/-- The state after a list of actions, each taken by `next`. -/
def run (next : σ → α → Option σ) : σ → List α → Option σ
  | s, [] => some s
  | s, a :: actions => (next s a).bind fun s' => run next s' actions

theorem run_append (next : σ → α → Option σ) (s : σ) (a b : List α) :
    run next s (a ++ b) = (run next s a).bind fun s' => run next s' b := by
  induction a generalizing s with
  | nil => rfl
  | cons x a ih =>
    rw [List.cons_append, run, run, Option.bind_assoc]
    exact congrArg _ (funext fun s' => ih s')

/-- Every action of the run satisfies `ok` at the state it is taken from. -/
def Along (next : σ → α → Option σ) (ok : σ → α → Prop) : σ → List α → Prop
  | _, [] => True
  | s, a :: actions => ok s a ∧ ∀ s' ∈ next s a, Along next ok s' actions

instance decidableAlong {next : σ → α → Option σ} [∀ s a, Decidable (ok s a)] :
    ∀ s actions, Decidable (Along next ok s actions)
  | _, [] => isTrue trivial
  | s, a :: actions =>
    have : ∀ s', Decidable (Along next ok s' actions) := fun s' => decidableAlong s' actions
    inferInstanceAs (Decidable (ok s a ∧ ∀ s' ∈ next s a, Along next ok s' actions))

/-- A relation that every step keeps relates the ends of two runs, where the second
leaves out the actions that `skip` holds of. -/
theorem run_filter {next : σ → α → Option σ} (skip : α → Bool) (R : σ → σ → Prop)
    (hskip : ∀ {s a s' t}, ok s a → next s a = some s' → R s t → skip a = true → R s' t)
    (hkeep : ∀ {s a s' t}, ok s a → next s a = some s' → R s t → skip a = false →
      ∃ t', next t a = some t' ∧ R s' t')
    {actions : List α} {s s' t : σ} (hok : Along next ok s actions)
    (hrun : run next s actions = some s') (hR : R s t) :
    ∃ t', run next t (actions.filter fun a => !skip a) = some t' ∧ R s' t' := by
  induction actions generalizing s t with
  | nil =>
    cases hrun
    exact ⟨t, rfl, hR⟩
  | cons a actions ih =>
    obtain ⟨s₁, h₁, hrun⟩ := Option.bind_eq_some_iff.mp hrun
    obtain ⟨ha, hok⟩ := hok
    cases hs : skip a with
    | true =>
      rw [List.filter_cons_of_neg (by simp [hs])]
      exact ih (hok s₁ h₁) hrun (hskip ha h₁ hR hs)
    | false =>
      obtain ⟨t₁, ht, hR⟩ := hkeep ha h₁ hR hs
      obtain ⟨t', hrun', hR⟩ := ih (hok s₁ h₁) hrun hR
      refine ⟨t', ?_, hR⟩
      rw [List.filter_cons_of_pos (by simp [hs]), run, ht]
      exact hrun'

/-- A run of allowed actions, from a reachable state. -/
theorem Reach.along {next : σ → α → Option σ} {actions : List α} {s s' : σ} (h : Reach M ok s)
    (hstep : ∀ {s a s'}, a ∈ actions → next s a = some s' → M.step s a s')
    (hok : Along next ok s actions) (hrun : run next s actions = some s') : Reach M ok s' := by
  induction actions generalizing s with
  | nil =>
    cases hrun
    exact h
  | cons a actions ih =>
    obtain ⟨s₁, h₁, hrun⟩ := Option.bind_eq_some_iff.mp hrun
    exact ih (h.step hok.1 (hstep List.mem_cons_self h₁))
      (fun hmem => hstep (List.mem_cons_of_mem _ hmem)) (hok.2 s₁ h₁) hrun

theorem along_of_forall {next : σ → α → Option σ} {actions : List α}
    (hok : ∀ a ∈ actions, ∀ s, ok s a) (s : σ) : Along next ok s actions := by
  induction actions generalizing s with
  | nil => trivial
  | cons a actions ih =>
    exact ⟨hok a List.mem_cons_self s,
      fun s' _ => ih (fun b hb => hok b (List.mem_cons_of_mem _ hb)) s'⟩

/-- A run of actions that are always allowed, from a reachable state. -/
theorem Reach.run {next : σ → α → Option σ} {actions : List α} {s s' : σ} (h : Reach M ok s)
    (hstep : ∀ {s a s'}, a ∈ actions → next s a = some s' → M.step s a s')
    (hok : ∀ a ∈ actions, ∀ s, ok s a) (hrun : run next s actions = some s') : Reach M ok s' :=
  h.along hstep (along_of_forall hok s) hrun

end Machine

end McpgSql.Library
