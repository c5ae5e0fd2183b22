import Mathlib.Data.List.Count
import Mathlib.Data.List.Perm.Basic
import McpgSql.Library.Places

/-!
# Counted references

Objects that are shared through counted references (`Shared`), in a heap by their
number. `Counted dropped heap holders`: each count is the number of times the holders
name the object, and an object is dropped exactly where none does. Cloning, releasing
and making a reference keep it. `count_filterMap_concat` and its siblings count the
references of a list of parties when one joins, leaves or takes a step.
-/

namespace McpgSql.Library

/-- An object, and how many references to it there are. -/
structure Shared (α : Type) where
  strong : Nat
  value : α
deriving DecidableEq

variable {α : Type}

namespace Shared

/-- One more reference. -/
def clone (s : Shared α) : Shared α := { s with strong := s.strong + 1 }

/-- One reference less; with the last one the object is dropped. -/
def release (drop : α → α) (s : Shared α) : Shared α where
  strong := s.strong - 1
  value := if s.strong = 1 then drop s.value else s.value

/-- The object changes behind its references. -/
def update (f : α → α) (s : Shared α) : Shared α := { s with value := f s.value }

end Shared

/-- The references that `holders` name are released one after the other. -/
def releaseAll (drop : α → α) (heap : List (Shared α)) (holders : List Nat) : List (Shared α) :=
  holders.foldl (fun heap i => heap.modify i (Shared.release drop)) heap

theorem length_releaseAll (drop : α → α) (heap : List (Shared α)) (holders : List Nat) :
    (releaseAll drop heap holders).length = heap.length := by
  unfold releaseAll
  induction holders generalizing heap with
  | nil => rfl
  | cons i holders ih => rw [List.foldl_cons, ih, List.length_modify]

structure Counted (dropped : α → Prop) (heap : List (Shared α)) (holders : List Nat) : Prop where
  lt : ∀ i ∈ holders, i < heap.length
  strong : ∀ {i s}, heap[i]? = some s → s.strong = holders.count i
  dropped : ∀ {i s}, heap[i]? = some s → (dropped s.value ↔ i ∉ holders)

namespace Counted

variable {dropped : α → Prop} {heap : List (Shared α)} {holders : List Nat} {i n : Nat} {v : α}
  {f : α → α}

theorem nil : Counted dropped ([] : List (Shared α)) [] where
  lt := nofun
  strong h := by cases h
  dropped h := by cases h

/-- The order of the holders does not matter. -/
theorem perm {holders' : List Nat} (h : Counted dropped heap holders) (hp : holders.Perm holders') :
    Counted dropped heap holders' where
  lt j hj := h.lt j (hp.mem_iff.mpr hj)
  strong hs := (h.strong hs).trans (hp.count_eq _)
  dropped hs := (h.dropped hs).trans (not_congr hp.mem_iff)

/-- An object that a holder names is not dropped. -/
theorem alive (h : Counted dropped heap holders) (hi : i ∈ holders) :
    ∃ s, heap[i]? = some s ∧ 0 < s.strong ∧ ¬ dropped s.value := by
  have hs := List.getElem?_eq_getElem (h.lt i hi)
  refine ⟨_, hs, ?_, fun hd => (h.dropped hs).mp hd hi⟩
  rw [h.strong hs]
  exact List.count_pos_iff.mpr hi

/-- There is a reference left exactly where a holder names the object. -/
theorem strong_pos_iff (h : Counted dropped heap holders) {s : Shared α} (hs : heap[i]? = some s) :
    0 < s.strong ↔ i ∈ holders := by
  rw [h.strong hs, List.count_pos_iff]

/-- A new object, with `n` references to it. -/
theorem push (h : Counted dropped heap holders) (hn : 0 < n) (hv : ¬ dropped v) :
    Counted dropped (heap ++ [⟨n, v⟩]) (List.replicate n heap.length ++ holders) := by
  have hnew : heap.length ∉ holders := fun hmem => Nat.lt_irrefl _ (h.lt _ hmem)
  refine ⟨fun j hj => ?_, fun {j s} hs => ?_, fun {j s} hs => ?_⟩
  · rw [List.length_append, List.length_singleton]
    rcases List.mem_append.mp hj with hj | hj
    · rw [(List.mem_replicate.mp hj).2]
      omega
    · have := h.lt j hj
      omega
  · rw [List.count_append, List.count_replicate]
    obtain hold | ⟨rfl, rfl⟩ := getElem?_concat_cases hs
    · have hlt := (List.getElem?_eq_some_iff.mp hold).1
      have hne : heap.length ≠ j := by omega
      rw [h.strong hold, if_neg (by simpa using hne), Nat.zero_add]
    · rw [List.count_eq_zero.mpr hnew]
      simp
  · rw [List.mem_append, List.mem_replicate]
    obtain hold | ⟨rfl, rfl⟩ := getElem?_concat_cases hs
    · have hlt := (List.getElem?_eq_some_iff.mp hold).1
      have hne : j ≠ heap.length := by omega
      rw [h.dropped hold]
      simp [hne]
    · have hpos : n ≠ 0 := by omega
      simp [hv, hpos]

/-- One more reference to an object that has one. -/
theorem clone (h : Counted dropped heap holders) (hi : i ∈ holders) :
    Counted dropped (heap.modify i Shared.clone) (i :: holders) := by
  refine ⟨fun j hj => ?_, fun {j s} hs => ?_, fun {j s} hs => ?_⟩
  · rw [List.length_modify]
    rcases List.mem_cons.mp hj with rfl | hj
    · exact h.lt j hi
    · exact h.lt j hj
  · obtain ⟨t, ht, rfl⟩ := getElem?_modify_cases hs
    rw [List.count_cons]
    by_cases hji : j = i
    · subst hji
      simp [Shared.clone, h.strong ht]
    · simp [hji, Ne.symm hji, h.strong ht]
  · obtain ⟨t, ht, rfl⟩ := getElem?_modify_cases hs
    have hvalue : (if j = i then t.clone else t).value = t.value := by split <;> rfl
    rw [hvalue, h.dropped ht, List.mem_cons]
    by_cases hji : j = i
    · subst hji
      simp [hi]
    · simp [hji]

/-- One reference less; the last one drops the object. -/
theorem release (h : Counted dropped heap (i :: holders)) (hf : ∀ v, dropped (f v)) :
    Counted dropped (heap.modify i (Shared.release f)) holders := by
  refine ⟨fun j hj => ?_, fun {j s} hs => ?_, fun {j s} hs => ?_⟩
  · rw [List.length_modify]
    exact h.lt j (List.mem_cons_of_mem i hj)
  · obtain ⟨t, ht, rfl⟩ := getElem?_modify_cases hs
    have hstrong := h.strong ht
    rw [List.count_cons] at hstrong
    by_cases hji : j = i
    · subst hji
      simp [Shared.release, hstrong]
    · simpa [hji, Ne.symm hji] using hstrong
  · obtain ⟨t, ht, rfl⟩ := getElem?_modify_cases hs
    have hstrong := h.strong ht
    have hdropped := h.dropped ht
    by_cases hji : j = i
    · subst hji
      rw [List.count_cons_self] at hstrong
      by_cases hlast : j ∈ holders
      · have hmore : t.strong ≠ 1 := by
          have := List.count_pos_iff.mpr hlast
          omega
        simpa [Shared.release, hmore, hlast] using hdropped
      · have hone : t.strong = 1 := by rw [hstrong, List.count_eq_zero.mpr hlast]
        simp [Shared.release, hone, hlast, hf]
    · simpa [hji] using hdropped

theorem releaseAll {given : List Nat} (h : Counted dropped heap (given ++ holders))
    (hf : ∀ v, dropped (f v)) : Counted dropped (releaseAll f heap given) holders := by
  unfold Library.releaseAll
  induction given generalizing heap with
  | nil => exact h
  | cons i given ih => exact ih (h.release hf)

/-- A change that neither drops an object nor brings it back. -/
theorem update (h : Counted dropped heap holders) (hf : ∀ v, dropped (f v) ↔ dropped v) :
    Counted dropped (heap.modify i (Shared.update f)) holders := by
  refine ⟨fun j hj => ?_, fun {j s} hs => ?_, fun {j s} hs => ?_⟩
  · rw [List.length_modify]
    exact h.lt j hj
  · obtain ⟨t, ht, rfl⟩ := getElem?_modify_cases hs
    have hsame : (if j = i then t.update f else t).strong = t.strong := by split <;> rfl
    rw [hsame, h.strong ht]
  · obtain ⟨t, ht, rfl⟩ := getElem?_modify_cases hs
    rw [← h.dropped ht]
    split
    · exact hf t.value
    · rfl

end Counted

/-! ## The references of a list of parties -/

section

variable {β : Type} (f : β → Option Nat) (l : List β) (id : Nat)

theorem count_filterMap_cons (x : β) :
    ((x :: l).filterMap f).count id = (f x).toList.count id + (l.filterMap f).count id := by
  rw [List.filterMap_cons]
  cases f x with
  | none => simp
  | some j => rw [List.count_cons, Option.toList_some, List.count_singleton, Nat.add_comm]

theorem count_filterMap_concat (x : β) :
    ((l ++ [x]).filterMap f).count id = (l.filterMap f).count id + (f x).toList.count id := by
  rw [List.filterMap_append, List.count_append, count_filterMap_cons f [], List.filterMap_nil,
    List.count_nil, Nat.add_zero]

variable {l} {i : Nat} {x : β}

theorem count_filterMap_eraseIdx (h : l[i]? = some x) :
    (l.filterMap f).count id = (f x).toList.count id + ((l.eraseIdx i).filterMap f).count id := by
  obtain ⟨hi, rfl⟩ := List.getElem?_eq_some_iff.mp h
  rw [← ((List.getElem_cons_eraseIdx_perm hi).filterMap f).count_eq, count_filterMap_cons]

theorem count_filterMap_set (h : l[i]? = some x) (y : β) :
    ((l.set i y).filterMap f).count id + (f x).toList.count id =
      (l.filterMap f).count id + (f y).toList.count id := by
  have hi := (List.getElem?_eq_some_iff.mp h).1
  rw [((List.set_perm_cons_eraseIdx hi y).filterMap f).count_eq, count_filterMap_cons,
    count_filterMap_eraseIdx f id h]
  omega

end

end McpgSql.Library
