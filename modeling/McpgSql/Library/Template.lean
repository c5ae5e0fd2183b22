import Mathlib.Data.String.Basic
import Mathlib.Logic.Function.Basic

/-!
# Texts with tokens

A template is a text in which tokens stand for values; `fill` puts the values in
their place. A longer value of a token that occurs makes a longer text
(`length_fill_lt`), while two tokens that occur once may share the text between
them: it is read as the value of one or of the other (`fill_swap`).
-/

namespace McpgSql.Library

/-- A part of a template. -/
inductive Piece where
  | text (s : String)
  | token (t : String)
deriving DecidableEq

namespace Template

/-- The tokens of a template, as often as they occur. -/
def tokens : List Piece → List String
  | [] => []
  | .text _ :: ps => tokens ps
  | .token t :: ps => t :: tokens ps

/-- The text with the values of its tokens. -/
def fill (f : String → String) : List Piece → String
  | [] => ""
  | .text s :: ps => s ++ fill f ps
  | .token t :: ps => f t ++ fill f ps

variable {f g : String → String} {ps qs : List Piece} {t : String}

@[simp] theorem tokens_append (ps qs : List Piece) : tokens (ps ++ qs) = tokens ps ++ tokens qs := by
  induction ps with
  | nil => rfl
  | cons p ps ih => cases p <;> simp [tokens, ih]

@[simp] theorem fill_append (f : String → String) (ps qs : List Piece) :
    fill f (ps ++ qs) = fill f ps ++ fill f qs := by
  induction ps with
  | nil => simp [fill]
  | cons p ps ih => cases p <;> simp [fill, ih, String.append_assoc]

/-- The text depends on the values of its tokens only. -/
theorem fill_congr (h : ∀ t ∈ tokens ps, f t = g t) : fill f ps = fill g ps := by
  induction ps with
  | nil => rfl
  | cons p ps ih =>
    cases p with
    | text s => rw [fill, fill, ih h]
    | token t =>
      rw [fill, fill, h t List.mem_cons_self, ih fun t ht => h t (List.mem_cons_of_mem _ ht)]

theorem fill_update_of_notMem {x : String} (h : t ∉ tokens ps) :
    fill (Function.update f t x) ps = fill f ps :=
  fill_congr fun _ hu => Function.update_of_ne (ne_of_mem_of_not_mem hu h) _ _

/-- A template with a token, cut where it first occurs. -/
theorem eq_append_of_mem (h : t ∈ tokens ps) :
    ∃ a b, ps = a ++ .token t :: b ∧ t ∉ tokens a := by
  induction ps with
  | nil => cases h
  | cons p ps ih =>
    cases p with
    | text s =>
      obtain ⟨a, b, rfl, ha⟩ := ih h
      exact ⟨.text s :: a, b, rfl, ha⟩
    | token u =>
      by_cases hu : u = t
      · exact ⟨[], ps, by rw [hu, List.nil_append], List.not_mem_nil⟩
      · obtain ⟨a, b, rfl, ha⟩ := ih ((List.mem_cons.mp h).resolve_left (Ne.symm hu))
        exact ⟨.token u :: a, b, rfl, by simp [tokens, Ne.symm hu, ha]⟩

/-- A template that has a token, cut at the last one. -/
theorem eq_append_of_last (h : tokens ps ≠ []) :
    ∃ a t b, ps = a ++ .token t :: b ∧ tokens b = [] := by
  induction ps with
  | nil => exact absurd rfl h
  | cons p ps ih =>
    by_cases hps : tokens ps = []
    · cases p with
      | text s => exact absurd hps h
      | token t => exact ⟨[], t, ps, rfl, hps⟩
    · obtain ⟨a, t, b, rfl, hb⟩ := ih hps
      exact ⟨p :: a, t, b, rfl, hb⟩

theorem length_fill_le (h : ∀ t, (f t).length ≤ (g t).length) (ps : List Piece) :
    (fill f ps).length ≤ (fill g ps).length := by
  induction ps with
  | nil => exact le_rfl
  | cons p ps ih =>
    cases p with
    | text s =>
      simp only [fill, String.length_append]
      omega
    | token t =>
      have := h t
      simp only [fill, String.length_append]
      omega

/-- A longer value of a token that occurs makes a longer text. -/
theorem length_fill_lt (h : ∀ t, (f t).length ≤ (g t).length) (ht : t ∈ tokens ps)
    (hlt : (f t).length < (g t).length) : (fill f ps).length < (fill g ps).length := by
  obtain ⟨a, b, rfl, -⟩ := eq_append_of_mem ht
  have ha := length_fill_le h a
  have hb := length_fill_le h b
  simp only [fill_append, fill, String.length_append]
  omega

/-- The text between two tokens that occur once is the value of the first one or of
the second one. -/
theorem fill_swap {t u : String} {a b c : List Piece} (ht : f t = "") (hu : f u = "")
    (hnodup : (tokens (a ++ .token t :: (b ++ .token u :: c))).Nodup) :
    fill (Function.update f t (fill f b)) (a ++ .token t :: (b ++ .token u :: c)) =
      fill (Function.update f u (fill f b)) (a ++ .token t :: (b ++ .token u :: c)) := by
  simp only [tokens_append, tokens, List.nodup_append, List.nodup_cons, List.mem_append,
    List.mem_cons, not_or] at hnodup
  obtain ⟨-, ⟨⟨htb, htu, htc⟩, -, ⟨huc, -⟩, hbu⟩, ha⟩ := hnodup
  have hta : t ∉ tokens a := fun h => ha t h t (.inl rfl) rfl
  have hua : u ∉ tokens a := fun h => ha u h u (.inr (.inr (.inl rfl))) rfl
  have hub : u ∉ tokens b := fun h => hbu u h u (.inl rfl) rfl
  simp only [fill_append, fill, fill_update_of_notMem hta, fill_update_of_notMem hua,
    fill_update_of_notMem htb, fill_update_of_notMem hub, fill_update_of_notMem htc,
    fill_update_of_notMem huc, Function.update_self, Function.update_of_ne htu,
    Function.update_of_ne (Ne.symm htu), ht, hu, String.empty_append]

end Template

end McpgSql.Library
