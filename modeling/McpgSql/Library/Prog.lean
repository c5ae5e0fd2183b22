import Mathlib.Data.List.Basic

/-!
# Programs that ask

A program that asks its environment one question after the other, goes on with
each answer, and ends with a result or an error. `Ans q` are the answers to the
question `q`. An environment answers by the number of the question, so that it
may answer the same question differently the next time.

What a run asks is its trace. `run_bind` takes the run of a sequence apart; `Gives`
and `IfGiven` say what holds after a run that gives a result, and `Always` is the
rule for what every question satisfies, whatever the answers before it were. A program may also be dropped while it waits for an answer: `cut` is
what it asked by then, and `cut_bind` takes a sequence apart.
-/

namespace McpgSql.Library

inductive Prog (Q : Type) (Ans : Q → Type) (ε α : Type) where
  | pure (a : α)
  | fail (e : ε)
  | ask (q : Q) (k : Ans q → Prog Q Ans ε α)

namespace Prog

variable {Q : Type} {Ans : Q → Type} {ε α β : Type}

def bind : Prog Q Ans ε α → (α → Prog Q Ans ε β) → Prog Q Ans ε β
  | .pure a, f => f a
  | .fail e, _ => .fail e
  | .ask q k, f => .ask q fun a => (k a).bind f

instance : Monad (Prog Q Ans ε) where
  pure := .pure
  bind := .bind

theorem bind_assoc {γ : Type} (p : Prog Q Ans ε α) (f : α → Prog Q Ans ε β)
    (g : β → Prog Q Ans ε γ) : p >>= f >>= g = p >>= fun a => f a >>= g := by
  induction p with
  | pure a => rfl
  | fail e => rfl
  | ask q k ih => exact congrArg (Prog.ask q) (funext ih)

/-- The question alone. -/
def query (q : Q) : Prog Q Ans ε (Ans q) := .ask q .pure

/-- A computation that asks nothing. -/
def ofExcept : Except ε α → Prog Q Ans ε α
  | .ok a => .pure a
  | .error e => .fail e

/-! ## Runs -/

/-- What a run from question `n` on asks and is answered, and how it ends. -/
def run (env : Nat → (q : Q) → Ans q) : Nat → Prog Q Ans ε α → List (Sigma Ans) × Except ε α
  | _, .pure a => ([], .ok a)
  | _, .fail e => ([], .error e)
  | n, .ask q k =>
    let rest := run env (n + 1) (k (env n q))
    (⟨q, env n q⟩ :: rest.1, rest.2)

variable (env : Nat → (q : Q) → Ans q) (n : Nat)

def trace (p : Prog Q Ans ε α) : List (Sigma Ans) := (run env n p).1

def result (p : Prog Q Ans ε α) : Except ε α := (run env n p).2

/-- A sequence asks what its first part asks, and where that gives a result, what its
second part asks. -/
theorem run_bind (p : Prog Q Ans ε α) (f : α → Prog Q Ans ε β) :
    run env n (p >>= f) = match result env n p with
      | .ok a => (trace env n p ++ trace env (n + (trace env n p).length) (f a),
          result env (n + (trace env n p).length) (f a))
      | .error e => (trace env n p, .error e) := by
  induction p generalizing n with
  | pure a => rfl
  | fail e => rfl
  | ask q k ih =>
    show (_, _) = _
    rw [show (run env (n + 1) ((k (env n q)).bind f)) = run env (n + 1) (k (env n q) >>= f) from rfl,
      ih (env n q) (n + 1)]
    simp only [result, trace, run]
    cases (run env (n + 1) (k (env n q))).2 with
    | error e => rfl
    | ok a =>
      simp only [List.length_cons, List.cons_append]
      rw [show n + ((run env (n + 1) (k (env n q))).1.length + 1) =
        n + 1 + (run env (n + 1) (k (env n q))).1.length by omega]

variable {env n}

@[simp] theorem trace_pure (a : α) : trace env n (Prog.pure a : Prog Q Ans ε α) = [] := rfl

/-- A result that is put in another form. -/
theorem trace_bind_pure (p : Prog Q Ans ε α) (f : α → β) :
    trace env n (p >>= fun a => Prog.pure (f a)) = trace env n p := by
  rw [trace, run_bind]
  cases result env n p <;> simp

/-! ## What a run gives -/

variable (env n) in
/-- The run gives a result, and `post` holds of it and of the number of the next question. -/
def Gives (p : Prog Q Ans ε α) (post : α → Nat → Prop) : Prop :=
  ∃ a, result env n p = .ok a ∧ post a (n + (trace env n p).length)

variable (env n) in
/-- If the run gives a result, `post` holds of it and of the number of the next question. -/
def IfGiven (p : Prog Q Ans ε α) (post : α → Nat → Prop) : Prop :=
  ∀ a, result env n p = .ok a → post a (n + (trace env n p).length)

theorem gives_congr {p : Prog Q Ans ε α} {post post' : α → Nat → Prop}
    (h : ∀ a n, post a n ↔ post' a n) : Gives env n p post ↔ Gives env n p post' :=
  exists_congr fun a => and_congr_right fun _ => h a _

theorem ifGiven_congr {p : Prog Q Ans ε α} {post post' : α → Nat → Prop}
    (h : ∀ a n, post a n ↔ post' a n) : IfGiven env n p post ↔ IfGiven env n p post' :=
  forall_congr' fun a => imp_congr_right fun _ => h a _

theorem result_bind_of_ok {p : Prog Q Ans ε α} {f : α → Prog Q Ans ε β} {a : α}
    (h : result env n p = .ok a) :
    result env n (p >>= f) = result env (n + (trace env n p).length) (f a) := by
  rw [result, run_bind, h]

theorem trace_bind_of_ok {p : Prog Q Ans ε α} {f : α → Prog Q Ans ε β} {a : α}
    (h : result env n p = .ok a) :
    trace env n (p >>= f) = trace env n p ++ trace env (n + (trace env n p).length) (f a) := by
  rw [trace, run_bind, h]

theorem result_bind_of_error {p : Prog Q Ans ε α} {f : α → Prog Q Ans ε β} {e : ε}
    (h : result env n p = .error e) : result env n (p >>= f) = .error e := by
  rw [result, run_bind, h]

/-- A sequence that gives a result is one whose both parts do. -/
theorem result_bind_eq_ok {p : Prog Q Ans ε α} {f : α → Prog Q Ans ε β} {b : β}
    (h : result env n (p >>= f) = .ok b) :
    ∃ a m, result env n p = .ok a ∧ result env m (f a) = .ok b := by
  cases hres : result env n p with
  | ok a =>
    rw [result_bind_of_ok hres] at h
    exact ⟨a, _, rfl, h⟩
  | error e =>
    rw [result_bind_of_error hres] at h
    cases h

theorem trace_bind_of_error {p : Prog Q Ans ε α} {f : α → Prog Q Ans ε β} {e : ε}
    (h : result env n p = .error e) : trace env n (p >>= f) = trace env n p := by
  rw [trace, run_bind, h]

/-! ## What every question satisfies -/

/-- Every question of every run satisfies `P`. -/
def Always (P : Q → Prop) : Prog Q Ans ε α → Prop
  | .pure _ => True
  | .fail _ => True
  | .ask q k => P q ∧ ∀ a, Always P (k a)

variable {P : Q → Prop}

theorem Always.bind {p : Prog Q Ans ε α} {f : α → Prog Q Ans ε β} (hp : Always P p)
    (hf : ∀ a, Always P (f a)) : Always P (p >>= f) := by
  induction p with
  | pure a => exact hf a
  | fail e => trivial
  | ask q k ih => exact ⟨hp.1, fun a => ih a (hp.2 a)⟩

theorem always_ofExcept (x : Except ε α) : Always P (ofExcept x : Prog Q Ans ε α) := by
  cases x <;> trivial

theorem always_query {q : Q} (h : P q) : Always P (query q : Prog Q Ans ε (Ans q)) :=
  ⟨h, fun _ => trivial⟩

theorem Always.mono {P' : Q → Prop} {p : Prog Q Ans ε α} (h : Always P p) (himp : ∀ q, P q → P' q) :
    Always P' p := by
  induction p with
  | pure a => trivial
  | fail e => trivial
  | ask q k ih => exact ⟨himp q h.1, fun a => ih a (h.2 a)⟩

theorem Always.mem_trace {p : Prog Q Ans ε α} (h : Always P p) {ev : Sigma Ans}
    (hev : ev ∈ trace env n p) : P ev.1 := by
  induction p generalizing n with
  | pure a => cases hev
  | fail e => cases hev
  | ask q k ih =>
    rcases List.mem_cons.mp hev with rfl | hev
    · exact h.1
    · exact ih _ (h.2 _) hev

/-! ## Programs that are dropped -/

/-- What is asked and answered from question `n` on, and the question that is open when
the program is dropped, where that is one of its questions. -/
def cut (env : Nat → (q : Q) → Ans q) (drop : Option Nat) :
    Nat → Prog Q Ans ε α → List (Sigma Ans) × Option Q
  | _, .pure _ => ([], none)
  | _, .fail _ => ([], none)
  | n, .ask q k =>
    if drop = some n then ([], some q)
    else
      let rest := cut env drop (n + 1) (k (env n q))
      (⟨q, env n q⟩ :: rest.1, rest.2)

variable {drop : Option Nat}

theorem cut_ofExcept (x : Except ε α) :
    cut env drop n (ofExcept x : Prog Q Ans ε α) = ([], none) := by
  cases x <;> rfl

/-- A sequence is dropped in its first part, or goes on to its second. -/
theorem cut_bind (p : Prog Q Ans ε α) (f : α → Prog Q Ans ε β) :
    cut env drop n (p >>= f) = match (cut env drop n p).2, result env n p with
      | none, .ok a => ((cut env drop n p).1 ++ (cut env drop (n + (cut env drop n p).1.length) (f a)).1,
          (cut env drop (n + (cut env drop n p).1.length) (f a)).2)
      | _, _ => cut env drop n p := by
  induction p generalizing n with
  | pure a => rfl
  | fail e => rfl
  | ask q k ih =>
    have hbind : cut env drop n (.ask q k >>= f) = if drop = some n then ([], some q)
        else (⟨q, env n q⟩ :: (cut env drop (n + 1) (k (env n q) >>= f)).1,
          (cut env drop (n + 1) (k (env n q) >>= f)).2) := rfl
    have hresult : result env n (.ask q k) = result env (n + 1) (k (env n q)) := rfl
    rw [hbind, hresult, cut]
    by_cases hdrop : drop = some n
    · rw [if_pos hdrop, if_pos hdrop]
    · rw [if_neg hdrop, if_neg hdrop, ih (env n q)]
      have hnext : ∀ l : List (Sigma Ans), n + (⟨q, env n q⟩ :: l).length = n + 1 + l.length := by
        intro l
        rw [List.length_cons]
        omega
      simp only [hnext]
      generalize cut env drop (n + 1) (k (env n q)) = part
      obtain ⟨events, pending⟩ := part
      cases pending with
      | some q' => cases result env (n + 1) (k (env n q)) <;> rfl
      | none => cases result env (n + 1) (k (env n q)) <;> rfl

end Prog

end McpgSql.Library
