import McpgSql.Library.Prog

/-!
# Programs that run alike

Two programs run alike where related answers keep them asking the same questions and
lead them to related results (`Alike`). A program that runs alike with itself does not
show by which of two related answers it went on: `Alike.run` gives two environments with
related answers the same questions and the same end. `Alike.bind` and `Alike.query` take
a program apart, with relations of their own for what its parts give.
-/

namespace McpgSql.Library.Prog

variable {Q : Type} {Ans : Q → Type} {ε α β : Type}

/-- The programs ask the same questions while the answers are related by `R`, and end with
results that are related by the last argument, or with the same error. -/
inductive Alike (R : (q : Q) → Ans q → Ans q → Prop) :
    Prog Q Ans ε α → Prog Q Ans ε α → (α → α → Prop) → Prop
  | pure {a b : α} {S : α → α → Prop} : S a b → Alike R (.pure a) (.pure b) S
  | fail {e : ε} {S : α → α → Prop} : Alike R (.fail e) (.fail e) S
  | ask {q : Q} {k k' : Ans q → Prog Q Ans ε α} {S : α → α → Prop} :
    (∀ a b, R q a b → Alike R (k a) (k' b) S) → Alike R (.ask q k) (.ask q k') S

namespace Alike

variable {R : (q : Q) → Ans q → Ans q → Prop} {S : α → α → Prop} {T : β → β → Prop}
  {p p' : Prog Q Ans ε α} {f f' : α → Prog Q Ans ε β}

theorem bind (hp : Alike R p p' S) (hf : ∀ a b, S a b → Alike R (f a) (f' b) T) :
    Alike R (p >>= f) (p' >>= f') T := by
  induction hp with
  | pure h => exact hf _ _ h
  | fail => exact .fail
  | ask _ ih => exact .ask fun a b hab => ih a b hab hf

/-- A part whose results are the same. -/
theorem seq (hp : Alike R p p' Eq) (hf : ∀ a, Alike R (f a) (f' a) T) :
    Alike R (p >>= f) (p' >>= f') T :=
  hp.bind fun a _ hab => hab ▸ hf a

theorem query (q : Q) : Alike R (Prog.query q : Prog Q Ans ε (Ans q)) (.query q) (R q) :=
  .ask fun _ _ => .pure

/-- A question whose related answers are the same. -/
theorem query_eq {q : Q} (h : ∀ a b, R q a b → a = b) :
    Alike R (Prog.query q : Prog Q Ans ε (Ans q)) (.query q) Eq :=
  .ask fun a b hab => .pure (h a b hab)

theorem ofExcept (x : Except ε α) : Alike R (ofExcept x : Prog Q Ans ε α) (.ofExcept x) Eq := by
  cases x with
  | ok a => exact .pure rfl
  | error e => exact .fail

/-- Environments with related answers are asked the same questions, to the same end. -/
theorem run (h : Alike R p p' Eq) {env env' : Nat → (q : Q) → Ans q}
    (henv : ∀ n q, R q (env n q) (env' n q)) (n : Nat) :
    (trace env n p).map Sigma.fst = (trace env' n p').map Sigma.fst ∧
      result env n p = result env' n p' := by
  generalize hS : (Eq : α → α → Prop) = S at h
  induction h generalizing n with
  | pure h =>
    subst hS
    subst h
    exact ⟨rfl, rfl⟩
  | fail => exact ⟨rfl, rfl⟩
  | @ask q k k' _ _ ih =>
    obtain ⟨htrace, hresult⟩ := ih _ _ (henv n q) (n + 1) hS
    exact ⟨congrArg (q :: ·) htrace, hresult⟩

end Alike

end McpgSql.Library.Prog
