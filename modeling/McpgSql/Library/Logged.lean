import McpgSql.Library.Prog

/-!
# What a program leaves in a log

A log keeps, of each question that a run asks and of its answer, what `obs` says of
them. `Leaves obs p post` is a rule for whole programs: the log and the end of every
run of `p` satisfy `post`. A sequence leaves one log behind the other (`Leaves.bind`),
and a part whose questions are all unobserved leaves nothing (`Leaves.of_unobserved`).
-/

namespace McpgSql.Library.Prog

variable {Q : Type} {Ans : Q → Type} {ε α β O : Type}

/-- The log of a run from question `n` on. -/
def logged (obs : Sigma Ans → Option O) (env : Nat → (q : Q) → Ans q) (n : Nat)
    (p : Prog Q Ans ε α) : List O :=
  (trace env n p).filterMap obs

/-- The log of every run, and how the run ends, satisfy `post`. -/
def Leaves (obs : Sigma Ans → Option O) (p : Prog Q Ans ε α) (post : List O → Except ε α → Prop) :
    Prop :=
  ∀ env n, post (logged obs env n p) (result env n p)

namespace Leaves

variable {obs : Sigma Ans → Option O} {p : Prog Q Ans ε α} {f : α → Prog Q Ans ε β}
  {post post' : List O → Except ε α → Prop} {post₂ : List O → Except ε β → Prop}

theorem mono (h : Leaves obs p post) (himp : ∀ l r, post l r → post' l r) : Leaves obs p post' :=
  fun env n => himp _ _ (h env n)

theorem pure {a : α} (h : post [] (.ok a)) : Leaves obs (Prog.pure a) post := fun _ _ => h

theorem fail {e : ε} (h : post [] (.error e)) : Leaves obs (Prog.fail e) post := fun _ _ => h

/-- A sequence leaves the log of its first part, and where that gives a result, the log
of its second part after it. -/
theorem bind (post : List O → Except ε α → Prop) (hp : Leaves obs p post)
    (hok : ∀ a l, post l (.ok a) → Leaves obs (f a) fun l' r => post₂ (l ++ l') r)
    (herror : ∀ e l, post l (.error e) → post₂ l (.error e)) : Leaves obs (p >>= f) post₂ := by
  intro env n
  have h := hp env n
  cases hres : result env n p with
  | ok a =>
    rw [hres] at h
    have h' := hok a _ h env (n + (trace env n p).length)
    rw [result_bind_of_ok hres, logged, trace_bind_of_ok hres, List.filterMap_append]
    exact h'
  | error e =>
    rw [hres] at h
    rw [result_bind_of_error hres, logged, trace_bind_of_error hres]
    exact herror e _ h

theorem ite {c : Prop} [Decidable c] {p' : Prog Q Ans ε α} (hp : c → Leaves obs p post)
    (hp' : ¬c → Leaves obs p' post) : Leaves obs (if c then p else p') post := by
  split
  · rename_i h
    exact hp h
  · rename_i h
    exact hp' h

/-- One question. -/
theorem query {q : Q} {post : List O → Except ε (Ans q) → Prop}
    (h : ∀ a, post (obs ⟨q, a⟩).toList (.ok a)) : Leaves obs (Prog.query q) post := by
  intro env n
  have h' := h (env n q)
  have hlog : logged obs env n (Prog.query q : Prog Q Ans ε (Ans q)) = (obs ⟨q, env n q⟩).toList := by
    show List.filterMap obs [⟨q, env n q⟩] = _
    rw [List.filterMap_cons]
    cases obs ⟨q, env n q⟩ <;> rfl
  rw [hlog]
  exact h'

/-- A part that asks nothing that is observed. -/
theorem of_unobserved (h : Always (fun q => ∀ a, obs ⟨q, a⟩ = none) p)
    (hpost : ∀ r, post [] r) : Leaves obs p post := by
  intro env n
  have hnil : logged obs env n p = [] :=
    List.filterMap_eq_nil_iff.mpr fun ev hev => h.mem_trace hev ev.2
  rw [hnil]
  exact hpost _

end Leaves

end McpgSql.Library.Prog
