import Mathlib.Data.List.Basic
import Mathlib.Data.List.Forall2

/-!
# Readers of binary formats

A reader stands at a place of a list of bytes; a parser moves it on and answers, or
stops. Two properties of parsers that sequences and repetitions keep:

* `Exact`: wherever an encoding stands, the parser reads it as its value and stops at
  its end, and where the input ends inside it, the parser fails;
* `Within`: from every place of every input the parser ends at a place of the input with
  a value as promised, or it stops as allowed.
-/

namespace McpgSql.Library

structure Reader (β : Type) where
  bytes : List β
  pos : Nat
deriving DecidableEq

abbrev Parser (β ε α : Type) := StateT (Reader β) (Except ε) α

variable {β ε α γ : Type}

/-- `n` values, one after the other. -/
def times (p : Parser β ε α) : Nat → Parser β ε (List α)
  | 0 => pure []
  | n + 1 => do
    let a ← p
    let as ← times p n
    pure (a :: as)

theorem run_pure (a : α) (r : Reader β) : (pure a : Parser β ε α).run r = .ok (a, r) := rfl

theorem run_get (r : Reader β) : (get : Parser β ε (Reader β)).run r = .ok (r, r) := rfl

/-- A step that does not move the reader. -/
theorem run_lift {x : Except ε α} {a : α} (h : x = .ok a) (r : Reader β) :
    (liftM x : Parser β ε α).run r = .ok (a, r) := by
  rw [h]
  rfl

theorem run_bind_ok {p : Parser β ε α} {f : α → Parser β ε γ} {r r' : Reader β} {a : α}
    (h : p.run r = .ok (a, r')) : (p >>= f).run r = (f a).run r' := by
  rw [StateT.run_bind, h]
  rfl

theorem run_bind_error {p : Parser β ε α} (f : α → Parser β ε γ) {r : Reader β} {e : ε}
    (h : p.run r = .error e) : (p >>= f).run r = .error e := by
  rw [StateT.run_bind, h]
  rfl

/-! ## Encodings -/

section

-- The errors that an input may end with.
variable (ended : ε → Prop)

/-- `p` reads `code` as `a`, to its end and not on less of it. -/
structure Exact (p : Parser β ε α) (code : List β) (a : α) : Prop where
  reads : ∀ front rest, p.run ⟨front ++ (code ++ rest), front.length⟩ =
    .ok (a, ⟨front ++ (code ++ rest), (front ++ code).length⟩)
  ends : ∀ front part, part <+: code → part ≠ code →
    ∃ e, p.run ⟨front ++ part, front.length⟩ = .error e ∧ ended e

variable {ended} {p : Parser β ε α} {code code' : List β} {a : α}

theorem Exact.pure (a : α) : Exact ended (pure a : Parser β ε α) ([] : List β) a where
  reads front rest := by rw [run_pure, List.append_nil]
  ends front part hpart hne := absurd (List.prefix_nil.mp hpart) hne

theorem Exact.lift {x : Except ε α} (h : x = .ok a) :
    Exact ended (liftM x : Parser β ε α) ([] : List β) a := by
  rw [h]
  exact .pure a

/-- A part of two codes ends in the first, or goes on into the second. -/
theorem prefix_append_cases {part : List β} (h : part <+: code ++ code') (hne : part ≠ code ++ code') :
    (part <+: code ∧ part ≠ code) ∨ ∃ part', part = code ++ part' ∧ part' <+: code' ∧ part' ≠ code' := by
  by_cases hlen : code.length ≤ part.length
  · obtain ⟨part', rfl⟩ := List.prefix_of_prefix_length_le (List.prefix_append code code') h hlen
    refine .inr ⟨part', rfl, (List.prefix_append_right_inj code).mp h, fun heq => hne ?_⟩
    rw [heq]
  · have hshort : part.length ≤ code.length := by omega
    refine .inl ⟨List.prefix_of_prefix_length_le h (List.prefix_append code code') hshort, ?_⟩
    rintro rfl
    exact hlen (Nat.le_refl _)

theorem Exact.bind (h : Exact ended p code a) {f : α → Parser β ε γ} {c : γ}
    (hf : Exact ended (f a) code' c) : Exact ended (p >>= f) (code ++ code') c where
  reads front rest := by
    have hp := h.reads front (code' ++ rest)
    have hrest := hf.reads (front ++ code) rest
    rw [List.append_assoc front, List.append_assoc front] at hrest
    rw [List.append_assoc code, run_bind_ok hp, hrest]
  ends front part hpart hne := by
    rcases prefix_append_cases hpart hne with ⟨hin, hshort⟩ | ⟨part', rfl, hin, hshort⟩
    · obtain ⟨e, he, hended⟩ := h.ends front part hin hshort
      exact ⟨e, run_bind_error f he, hended⟩
    · obtain ⟨e, he, hended⟩ := hf.ends (front ++ code) part' hin hshort
      refine ⟨e, ?_, hended⟩
      rw [run_bind_ok (h.reads front part'), ← he, List.append_assoc front]

/-- A parser that ends with a value of what it read. -/
theorem Exact.bind_pure (h : Exact ended p code a) (f : α → γ) :
    Exact ended (p >>= fun a => Pure.pure (f a)) code (f a) := by
  have hp := h.bind (f := fun a => Pure.pure (f a)) (Exact.pure (f a))
  rwa [List.append_nil] at hp

theorem Exact.times {codes : List (List β)} {as : List α} (h : List.Forall₂ (Exact ended p) codes as) :
    Exact ended (times p as.length) codes.flatten as := by
  induction h with
  | nil => exact .pure []
  | cons ha _ ih => exact ha.bind (ih.bind_pure _)

end

/-! ## Safety -/

section

variable (allowed : ε → Prop)

/-- What a run may end with: a place of the same input and a value as promised, or an
allowed stop. -/
def Ends (post : α → Prop) (r : Reader β) : Except ε (α × Reader β) → Prop
  | .ok (a, r') => (r'.bytes = r.bytes ∧ r'.pos ≤ r'.bytes.length) ∧ post a
  | .error e => allowed e

def Within (post : α → Prop) (p : Parser β ε α) : Prop :=
  ∀ r : Reader β, r.pos ≤ r.bytes.length → Ends allowed post r (p.run r)

variable {allowed} {p : Parser β ε α} {post post' : α → Prop}

theorem Within.pure {a : α} (h : post a) : Within allowed post (pure a : Parser β ε α) :=
  fun _ hr => ⟨⟨rfl, hr⟩, h⟩

theorem Within.lift {x : Except ε α} {a : α} (hx : x = .ok a) (h : post a) :
    Within allowed post (liftM x : Parser β ε α) := by
  rw [hx]
  exact .pure h

theorem Within.throw {e : ε} (h : allowed e) : Within allowed post (throw e : Parser β ε α) :=
  fun _ _ => h

theorem Within.bind (h : Within allowed post p) {f : α → Parser β ε γ} {goal : γ → Prop}
    (hf : ∀ a, post a → Within allowed goal (f a)) : Within allowed goal (p >>= f) := by
  intro r hr
  have hp := h r hr
  cases hrun : p.run r with
  | error e =>
    rw [hrun] at hp
    rw [run_bind_error f hrun]
    exact hp
  | ok result =>
    obtain ⟨a, r'⟩ := result
    rw [hrun] at hp
    obtain ⟨⟨hbytes, hpos⟩, hpost⟩ := hp
    have hnext := hf a hpost r' hpos
    rw [run_bind_ok hrun]
    cases hrest : (f a).run r' with
    | error e =>
      rw [hrest] at hnext
      exact hnext
    | ok result =>
      rw [hrest] at hnext
      exact ⟨⟨hnext.1.1.trans hbytes, hnext.1.2⟩, hnext.2⟩

theorem Within.times (h : Within allowed post p) (n : Nat) :
    Within allowed (fun _ => True) (times p n) := by
  induction n with
  | zero => exact .pure trivial
  | succ n ih => exact h.bind fun _ _ => ih.bind fun _ _ => .pure trivial

end

end McpgSql.Library
