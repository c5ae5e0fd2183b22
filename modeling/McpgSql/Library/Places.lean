import Mathlib.Data.List.Basic

/-!
# Numbered places

A list whose places name the parties of a run: what stands at a place after one
party has taken a step (`getElem?_set_cases`, `getElem?_modify_cases`) or one has
joined (`getElem?_concat_cases`).
-/

namespace McpgSql.Library

variable {α : Type} {l : List α} {i j : Nat} {a b : α}

theorem getElem?_set_cases (h : (l.set i a)[j]? = some b) :
    (j = i ∧ b = a) ∨ (j ≠ i ∧ l[j]? = some b) := by
  rw [List.getElem?_set] at h
  split at h
  · rename_i hij
    split at h
    · cases h; exact .inl ⟨hij.symm, rfl⟩
    · cases h
  · rename_i hij
    exact .inr ⟨Ne.symm hij, h⟩

theorem getElem?_modify_cases {f : α → α} (h : (l.modify i f)[j]? = some b) :
    ∃ a, l[j]? = some a ∧ b = if j = i then f a else a := by
  rw [List.getElem?_modify] at h
  obtain ⟨a, ha, rfl⟩ := Option.map_eq_some_iff.mp h
  refine ⟨a, ha, ?_⟩
  by_cases hij : i = j
  · rw [if_pos hij, if_pos hij.symm]
  · rw [if_neg hij, if_neg (Ne.symm hij)]

theorem getElem?_concat_cases (h : (l ++ [a])[j]? = some b) :
    l[j]? = some b ∨ (j = l.length ∧ b = a) := by
  rw [List.getElem?_append] at h
  split at h
  · exact .inl h
  · rename_i hlt
    obtain ⟨hlt', hb⟩ := List.getElem?_eq_some_iff.mp h
    rw [List.length_singleton] at hlt'
    exact .inr ⟨by omega, by simpa using hb.symm⟩

/-- What stood at a place stays there. -/
theorem getElem?_concat_of_some (h : l[j]? = some b) : (l ++ [a])[j]? = some b := by
  rw [List.getElem?_append_left (List.getElem?_eq_some_iff.mp h).1]
  exact h

end McpgSql.Library
