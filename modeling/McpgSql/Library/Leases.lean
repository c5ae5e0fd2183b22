import Mathlib.Logic.Function.Basic
import McpgSql.Library.Machine
import McpgSql.Library.Prog

/-!
# Programs that lease a resource

`Prog.Safe` is a rule for programs whose questions move a state: `P` holds of the state
at every question, and `post` at the end, whatever is answered.

Jobs run such programs side by side on a pool of resources. A job leases a resource by
an answer that hands it one, works on it alone, and gives it back where it ends or is
dropped, at any of its questions. `Reach.leased`: a program that is safe from an idle
resource on is safe in every run of the pool, whatever the other jobs do.
-/

namespace McpgSql.Library

namespace Prog

variable {Q : Type} {Ans : Q → Type} {ε α β σ : Type}

/-- `P` at every question, and `post` at the end, from the state `s` on. -/
def Safe (move : σ → (q : Q) → Ans q → σ → Prop) (P : σ → Q → Prop) :
    σ → Prog Q Ans ε α → (σ → Except ε α → Prop) → Prop
  | s, .pure a, post => post s (.ok a)
  | s, .fail e, post => post s (.error e)
  | s, .ask q k, post => P s q ∧ ∀ a s', move s q a s' → Safe move P s' (k a) post

/-- What a program gives, as a value. -/
def attempt : Prog Q Ans ε α → Prog Q Ans ε (Except ε α)
  | .pure a => .pure (.ok a)
  | .fail e => .pure (.error e)
  | .ask q k => .ask q fun a => (k a).attempt

namespace Safe

variable {move : σ → (q : Q) → Ans q → σ → Prop} {P : σ → Q → Prop} {s : σ} {p : Prog Q Ans ε α}
  {f : α → Prog Q Ans ε β} {post post' : σ → Except ε α → Prop} {post₂ : σ → Except ε β → Prop}

theorem bind (post : σ → Except ε α → Prop) (hp : Safe move P s p post)
    (hok : ∀ s a, post s (.ok a) → Safe move P s (f a) post₂)
    (herror : ∀ s e, post s (.error e) → post₂ s (.error e)) : Safe move P s (p >>= f) post₂ := by
  induction p generalizing s with
  | pure a => exact hok s a hp
  | fail e => exact herror s e hp
  | ask q k ih => exact ⟨hp.1, fun a s' hmove => ih a (hp.2 a s' hmove)⟩

theorem mono (hp : Safe move P s p post) (himp : ∀ s r, post s r → post' s r) :
    Safe move P s p post' := by
  induction p generalizing s with
  | pure a => exact himp s _ hp
  | fail e => exact himp s _ hp
  | ask q k ih => exact ⟨hp.1, fun a s' hmove => ih a (hp.2 a s' hmove)⟩

theorem attempt {post : σ → Except ε (Except ε α) → Prop}
    (hp : Safe move P s p fun s r => post s (.ok r)) : Safe move P s p.attempt post := by
  induction p generalizing s with
  | pure a => exact hp
  | fail e => exact hp
  | ask q k ih => exact ⟨hp.1, fun a s' hmove => ih a (hp.2 a s' hmove)⟩

theorem ofExcept {x : Except ε α} (h : post s x) : Safe move P s (Prog.ofExcept x) post := by
  cases x <;> exact h

/-- A question, and what goes on with its answer. -/
theorem query_bind {q : Q} {f : Ans q → Prog Q Ans ε β} (hP : P s q)
    (hf : ∀ a s', move s q a s' → Safe move P s' (f a) post₂) :
    Safe move P s (Prog.query q >>= f) post₂ :=
  ⟨hP, hf⟩

/-- A run ends in the state that its questions and answers lead to. -/
theorem run {step : σ → Sigma Ans → σ} (hp : Safe (fun s q a s' => s' = step s ⟨q, a⟩) P s p post)
    (env : Nat → (q : Q) → Ans q) (n : Nat) :
    post ((trace env n p).foldl step s) (result env n p) := by
  induction p generalizing s n with
  | pure a => exact hp
  | fail e => exact hp
  | ask q k ih => exact ih _ (hp.2 _ _ rfl) (n + 1)

end Safe

end Prog

/-! ## A pool -/

/-- How answers hand over resources, what questions do to them, and how they go back. -/
structure Leasing (Q : Type) (Ans : Q → Type) (σ : Type) where
  takes : (q : Q) → Ans q → Bool
  next : σ → (q : Q) → Ans q → σ → Prop
  back : σ → σ

namespace Leasing

variable {Q : Type} {Ans : Q → Type} {ε σ ι κ U : Type}

/-- A program that runs for a use, and the resource that it leases. -/
structure Job (Q : Type) (Ans : Q → Type) (ε ι U : Type) where
  use : U
  lease : Option ι
  rest : Prog Q Ans ε Unit

structure State (Q : Type) (Ans : Q → Type) (ε σ ι κ U : Type) where
  resource : ι → σ
  jobs : κ → Option (Job Q Ans ε ι U)

def State.lease (s : State Q Ans ε σ ι κ U) (j : κ) : Option ι := (s.jobs j).bind Job.lease

/-- The resource of a job, where it has one. -/
def State.held (s : State Q Ans ε σ ι κ U) (job : Job Q Ans ε ι U) : Option σ :=
  job.lease.map s.resource

inductive Action (κ U : Type) where
  | start (j : κ) (use : U)
  | answer (j : κ)
  /-- The job is over, or dropped. -/
  | leave (j : κ)

variable (L : Leasing Q Ans σ) (program : U → Prog Q Ans ε Unit)

/-- What an answer does to the resource of its program, which may have none yet. -/
def Moves (Idle : σ → Prop) : Option σ → (q : Q) → Ans q → Option σ → Prop
  | none, q, a, t => if L.takes q a then ∃ r, Idle r ∧ t = some r else t = none
  | some r, q, a, t => ∃ r', L.next r q a r' ∧ t = some r'

structure Leased (Idle : σ → Prop) (P : U → Option σ → Q → Prop) (s : State Q Ans ε σ ι κ U) :
    Prop where
  /-- A resource is leased by one job at most. -/
  alone : ∀ i j r, s.lease i = some r → s.lease j = some r → i = j
  idle : ∀ r, (∀ j, s.lease j ≠ some r) → Idle (s.resource r)
  safe : ∀ j job, s.jobs j = some job →
    Prog.Safe (L.Moves Idle) (P job.use) (s.held job) job.rest fun _ _ => True

theorem lease_of_job {s : State Q Ans ε σ ι κ U} {j : κ} {job : Job Q Ans ε ι U}
    (h : s.jobs j = some job) : s.lease j = job.lease := by
  unfold State.lease
  rw [h]
  rfl

variable [DecidableEq ι] [DecidableEq κ]

inductive Step : State Q Ans ε σ ι κ U → Action κ U → State Q Ans ε σ ι κ U → Prop
  | start {s : State Q Ans ε σ ι κ U} {j : κ} (use : U) (hfree : s.jobs j = none) :
    Step s (.start j use)
      { s with jobs := Function.update s.jobs j (some ⟨use, none, program use⟩) }
  /-- A resource that no job leases. -/
  | take {s : State Q Ans ε σ ι κ U} {j : κ} {use : U} {q : Q} {k : Ans q → Prog Q Ans ε Unit}
    {a : Ans q} {r : ι} (hjob : s.jobs j = some ⟨use, none, .ask q k⟩)
    (htakes : L.takes q a = true) (hidle : ∀ i, s.lease i ≠ some r) :
    Step s (.answer j) { s with jobs := Function.update s.jobs j (some ⟨use, some r, k a⟩) }
  | refuse {s : State Q Ans ε σ ι κ U} {j : κ} {use : U} {q : Q} {k : Ans q → Prog Q Ans ε Unit}
    {a : Ans q} (hjob : s.jobs j = some ⟨use, none, .ask q k⟩) (htakes : L.takes q a = false) :
    Step s (.answer j) { s with jobs := Function.update s.jobs j (some ⟨use, none, k a⟩) }
  | work {s : State Q Ans ε σ ι κ U} {j : κ} {use : U} {q : Q} {k : Ans q → Prog Q Ans ε Unit}
    {a : Ans q} {r : ι} {t : σ} (hjob : s.jobs j = some ⟨use, some r, .ask q k⟩)
    (hnext : L.next (s.resource r) q a t) :
    Step s (.answer j)
      ⟨Function.update s.resource r t, Function.update s.jobs j (some ⟨use, some r, k a⟩)⟩
  | leave {s : State Q Ans ε σ ι κ U} {j : κ} :
    Step s (.leave j)
      ⟨fun r => if s.lease j = some r then L.back (s.resource r) else s.resource r,
        Function.update s.jobs j none⟩

/-- Any number of jobs on these resources, each of which begins idle. -/
def pool (Idle : σ → Prop) : Machine (State Q Ans ε σ ι κ U) (Action κ U) where
  init s := (∀ r, Idle (s.resource r)) ∧ ∀ j, s.jobs j = none
  step := Step L program

variable {L program} {Idle : σ → Prop} {P : U → Option σ → Q → Prop} {ok}
  {s s' : State Q Ans ε σ ι κ U} {a : Action κ U}

section

omit [DecidableEq ι]

theorem lease_update {j i : κ} {job : Option (Job Q Ans ε ι U)} {resource : ι → σ} :
    State.lease ⟨resource, Function.update s.jobs j job⟩ i =
      if i = j then job.bind Job.lease else s.lease i := by
  show (Function.update s.jobs j job i).bind Job.lease = _
  by_cases hij : i = j
  · rw [hij, if_pos rfl, Function.update_self]
  · rw [if_neg hij, Function.update_of_ne hij]
    rfl

/-- Where a job keeps the lease it has, what nobody leases now nobody leased before. -/
theorem free_of_update {j : κ} {job : Option (Job Q Ans ε ι U)} {resource : ι → σ} {r : ι}
    (hjob : s.lease j = none ∨ s.lease j = job.bind Job.lease)
    (h : ∀ i, State.lease ⟨resource, Function.update s.jobs j job⟩ i ≠ some r) (i : κ) :
    s.lease i ≠ some r := by
  have hi := h i
  rw [lease_update] at hi
  by_cases hij : i = j
  · subst hij
    rw [if_pos rfl] at hi
    rcases hjob with hnone | hsame
    · simp [hnone]
    · rw [hsame]
      exact hi
  · rw [if_neg hij] at hi
    exact hi

/-- A job that keeps its lease, or takes a resource that nobody has. -/
theorem Leased.alone_update (h : Leased L Idle P s) {j : κ} {job : Option (Job Q Ans ε ι U)}
    {resource : ι → σ}
    (hjob : ∀ r, job.bind Job.lease = some r → s.lease j = some r ∨ ∀ i, s.lease i ≠ some r)
    (i i' : κ) (r : ι) (hi : State.lease ⟨resource, Function.update s.jobs j job⟩ i = some r)
    (hi' : State.lease ⟨resource, Function.update s.jobs j job⟩ i' = some r) : i = i' := by
  rw [lease_update] at hi hi'
  by_cases hij : i = j
  · by_cases hij' : i' = j
    · rw [hij, hij']
    · rw [if_pos hij] at hi
      rw [if_neg hij'] at hi'
      rcases hjob r hi with hsame | hnone
      · rw [hij, h.alone _ _ _ hsame hi']
      · exact absurd hi' (hnone i')
  · rw [if_neg hij] at hi
    by_cases hij' : i' = j
    · rw [if_pos hij'] at hi'
      rcases hjob r hi' with hsame | hnone
      · rw [hij', h.alone _ _ _ hi hsame]
      · exact absurd hi (hnone i)
    · rw [if_neg hij'] at hi'
      exact h.alone _ _ _ hi hi'

/-- The other jobs are as safe as before, where their resources are untouched. -/
theorem Leased.safe_update (h : Leased L Idle P s) {j : κ} {job : Option (Job Q Ans ε ι U)}
    {resource : ι → σ}
    (hjob : ∀ job' ∈ job, Prog.Safe (L.Moves Idle) (P job'.use) (job'.lease.map resource) job'.rest
      fun _ _ => True)
    (hother : ∀ i r, i ≠ j → s.lease i = some r → resource r = s.resource r) (i : κ)
    (job' : Job Q Ans ε ι U) (hi : Function.update s.jobs j job i = some job') :
    Prog.Safe (L.Moves Idle) (P job'.use) (job'.lease.map resource) job'.rest fun _ _ => True := by
  by_cases hij : i = j
  · subst hij
    rw [Function.update_self] at hi
    exact hjob job' hi
  · rw [Function.update_of_ne hij] at hi
    have hsafe := h.safe i job' hi
    have hlease := lease_of_job hi
    unfold State.held at hsafe
    cases hr : job'.lease with
    | none =>
      rw [hr] at hsafe
      exact hsafe
    | some r =>
      rw [hr] at hsafe hlease
      show Prog.Safe _ _ (some (resource r)) _ _
      rw [hother i r hij hlease]
      exact hsafe

end

theorem Leased.step
    (hprogram : ∀ u, Prog.Safe (L.Moves Idle) (P u) none (program u) fun _ _ => True)
    (hback : ∀ r, Idle (L.back r)) (hstep : Step L program s a s') (h : Leased L Idle P s) :
    Leased L Idle P s' := by
  cases hstep with
  | @start j use hfree =>
    have hlease : s.lease j = none := by
      unfold State.lease
      rw [hfree]
      rfl
    refine ⟨h.alone_update fun r hr => (by cases hr),
      fun r hr => h.idle r (free_of_update (.inl hlease) hr),
      h.safe_update ?_ fun _ _ _ _ => rfl⟩
    rintro _ ⟨⟩
    exact hprogram use
  | @take j use q k a r hjob htakes hidle =>
    refine ⟨h.alone_update fun r' hr => .inr ?_,
      fun r' hr => h.idle r' (free_of_update (.inl (lease_of_job hjob)) hr),
      h.safe_update ?_ fun _ _ _ _ => rfl⟩
    · cases hr
      exact hidle
    · rintro _ ⟨⟩
      refine (h.safe j _ hjob).2 a (some (s.resource r)) ?_
      show (if L.takes q a then _ else _)
      rw [if_pos htakes]
      exact ⟨_, h.idle r hidle, rfl⟩
  | @refuse j use q k a hjob htakes =>
    refine ⟨h.alone_update fun r hr => (by cases hr),
      fun r hr => h.idle r (free_of_update (.inl (lease_of_job hjob)) hr),
      h.safe_update ?_ fun _ _ _ _ => rfl⟩
    rintro _ ⟨⟩
    refine (h.safe j _ hjob).2 a none ?_
    show (if L.takes q a then _ else _)
    rw [if_neg (by simp [htakes])]
  | @work j use q k a r t hjob hnext =>
    have hlease : s.lease j = some r := lease_of_job hjob
    refine ⟨h.alone_update fun r' hr => .inl ?_, fun r' hr => ?_, h.safe_update ?_ ?_⟩
    · cases hr
      exact hlease
    · have hfree := free_of_update (.inr hlease) hr
      have hne : r' ≠ r := by
        rintro rfl
        exact hfree j hlease
      show Idle (Function.update s.resource r t r')
      rw [Function.update_of_ne hne]
      exact h.idle r' hfree
    · rintro _ ⟨⟩
      show Prog.Safe _ _ (some (Function.update s.resource r t r)) _ _
      rw [Function.update_self]
      exact (h.safe j _ hjob).2 a _ ⟨t, hnext, rfl⟩
    · intro i r' hij hi
      refine Function.update_of_ne ?_ _ _
      rintro rfl
      exact hij (h.alone _ _ _ hi hlease)
  | @leave j =>
    refine ⟨h.alone_update fun r hr => (by cases hr), fun r hr => ?_, h.safe_update ?_ ?_⟩
    · show Idle (if s.lease j = some r then L.back (s.resource r) else s.resource r)
      split
      · exact hback _
      · rename_i hj
        refine h.idle r fun i hi => hr i ?_
        rw [lease_update, if_neg]
        · exact hi
        · rintro rfl
          exact hj hi
    · rintro _ ⟨⟩
    · intro i r hij hi
      exact if_neg fun hj => hij (h.alone _ _ _ hi hj)

end Leasing

end McpgSql.Library
