import Mathlib.Data.List.Induction
import Mathlib.Order.Defs.LinearOrder
import Mathlib.Order.Lattice

/-!
# Reading a list in key order

A list in strictly increasing order of a key `f`, read from a key on: `above f l
k` is what is left to read after `k`, `between f l s k` what was read from `s`
to `k`. Reading the first item left moves it from one to the other
(`between_read`).
-/

namespace McpgSql.Library

variable {α κ : Type} [LinearOrder κ] (f : α → κ)

/-- The items in strictly increasing key order. -/
def Increasing (l : List α) : Prop := l.Pairwise fun a b => f a < f b

instance (l : List α) : Decidable (Increasing f l) :=
  inferInstanceAs (Decidable (l.Pairwise fun a b => f a < f b))

/-- The items with a key above `k`. -/
def above (l : List α) (k : κ) : List α := l.filter fun a => k < f a

/-- The items with a key above `s`, up to `k`. -/
def between (l : List α) (s k : κ) : List α := l.filter fun a => s < f a ∧ f a ≤ k

variable {f} {l : List α} {s k : κ}

theorem mem_between {a : α} : a ∈ between f l s k ↔ a ∈ l ∧ s < f a ∧ f a ≤ k := by
  simp [between]

theorem between_self (l : List α) (s : κ) : between f l s s = [] := by
  rw [between, List.filter_eq_nil_iff]
  simp only [decide_eq_true_eq, not_and, not_le]
  exact fun _ _ h => h

/-- What is read, and what is left. -/
theorem Increasing.filter_le_append_above (h : Increasing f l) (k : κ) :
    l = (l.filter fun a => f a ≤ k) ++ above f l k := by
  induction l with
  | nil => rfl
  | cons a l ih =>
    obtain ⟨ha, hl⟩ := List.pairwise_cons.mp h
    by_cases hk : f a ≤ k
    · have hnot : ¬ k < f a := not_lt.mpr hk
      simp only [above, List.filter_cons, decide_eq_true_eq, hk, hnot, ↓reduceIte, List.cons_append]
      exact congrArg (a :: ·) (ih hl)
    · -- Everything after `a` is above `k` too.
      have hlt : k < f a := not_le.mp hk
      have hall : ∀ b ∈ l, k < f b := fun b hb => lt_trans hlt (ha b hb)
      have hnil : (l.filter fun b => f b ≤ k) = [] :=
        List.filter_eq_nil_iff.mpr fun b hb => by simpa using hall b hb
      have hself : above f l k = l :=
        List.filter_eq_self.mpr fun b hb => by simpa using hall b hb
      rw [above] at hself
      simp only [above, List.filter_cons, decide_eq_true_eq, hk, hlt, ↓reduceIte, hnil, hself,
        List.nil_append]

/-- Items of a split list in key order. -/
theorem Increasing.of_split {front back : List α} {a : α} (h : Increasing f (front ++ a :: back)) :
    (∀ b ∈ front, f b < f a) ∧ ∀ b ∈ back, f a < f b := by
  obtain ⟨-, hback, hcross⟩ := List.pairwise_append.mp h
  exact ⟨fun b hb => hcross b hb a List.mem_cons_self, (List.pairwise_cons.mp hback).1⟩

/-- What was read up to an item that was read. -/
theorem Increasing.between_of_split (h : Increasing f l) {front back : List α} {a : α}
    (hsplit : between f l s k = front ++ a :: back) : between f l s (f a) = front ++ [a] := by
  have hmem : a ∈ between f l s k := by rw [hsplit]; simp
  have hk : f a ≤ k := (mem_between.mp hmem).2.2
  have hsub : between f l s (f a) = (between f l s k).filter fun b => f b ≤ f a := by
    rw [between, between, List.filter_filter]
    refine List.filter_congr fun b _ => ?_
    simp only [Bool.decide_and]
    by_cases hb : f b ≤ f a
    · simp [hb, le_trans hb hk]
    · simp [hb]
  have hinc : Increasing f (front ++ a :: back) := hsplit ▸ h.filter _
  obtain ⟨hfront, hback⟩ := hinc.of_split
  rw [hsub, hsplit, List.filter_append, List.filter_cons]
  have h₁ : (front.filter fun b => f b ≤ f a) = front :=
    List.filter_eq_self.mpr fun b hb => by simpa using (hfront b hb).le
  have h₂ : (back.filter fun b => f b ≤ f a) = [] :=
    List.filter_eq_nil_iff.mpr fun b hb => by simpa using hback b hb
  simp [h₁, h₂]

/-- Reading the first item that is left. -/
theorem Increasing.between_read (h : Increasing f l) {a : α} {rest : List α}
    (hsk : s ≤ k) (hleft : above f l k = a :: rest) :
    between f l s (f a) = between f l s k ++ [a] ∧ above f l (f a) = rest := by
  obtain ⟨front, rfl, hfront⟩ : ∃ front, l = front ++ a :: rest ∧ ∀ b ∈ front, f b ≤ k :=
    ⟨l.filter fun b => f b ≤ k, hleft ▸ h.filter_le_append_above k, fun b hb => by
      simpa using (List.mem_filter.mp hb).2⟩
  have hka : k < f a := by
    have ha : a ∈ above f (front ++ a :: rest) k := by rw [hleft]; exact List.mem_cons_self
    simpa using (List.mem_filter.mp ha).2
  have hrest := h.of_split.2
  have hread : between f (front ++ a :: rest) s k = front.filter fun b => s < f b := by
    have h₁ : ((a :: rest).filter fun b => s < f b ∧ f b ≤ k) = [] := by
      refine List.filter_eq_nil_iff.mpr fun b hb => ?_
      rcases List.mem_cons.mp hb with rfl | hb
      · simpa using fun _ => hka
      · simpa using fun _ => lt_trans hka (hrest b hb)
    rw [between, List.filter_append, h₁, List.append_nil]
    exact List.filter_congr fun b hb => by simp [hfront b hb]
  refine ⟨?_, ?_⟩
  · have h₁ : (rest.filter fun b => s < f b ∧ f b ≤ f a) = [] :=
      List.filter_eq_nil_iff.mpr fun b hb => by simpa using fun _ => hrest b hb
    have h₂ : (front.filter fun b => s < f b ∧ f b ≤ f a) = front.filter fun b => s < f b :=
      List.filter_congr fun b hb => by simp [le_trans (hfront b hb) hka.le]
    rw [hread, between, List.filter_append, List.filter_cons, h₁, h₂]
    simp [lt_of_le_of_lt hsk hka]
  · have h₁ : (front.filter fun b => f a < f b) = [] :=
      List.filter_eq_nil_iff.mpr fun b hb => by simpa using le_trans (hfront b hb) hka.le
    have h₂ : (rest.filter fun b => f a < f b) = rest :=
      List.filter_eq_self.mpr fun b hb => by simpa using hrest b hb
    simp [above, List.filter_append, h₁, h₂]

/-- What is left after an item of the list. -/
theorem Increasing.above_item {front back : List α} {a : α} (h : Increasing f (front ++ a :: back)) :
    above f (front ++ a :: back) (f a) = back := by
  obtain ⟨hfront, hback⟩ := h.of_split
  have h₁ : (front.filter fun b => f a < f b) = [] :=
    List.filter_eq_nil_iff.mpr fun b hb => by simpa using (hfront b hb).le
  have h₂ : (back.filter fun b => f a < f b) = back :=
    List.filter_eq_self.mpr fun b hb => by simpa using hback b hb
  rw [above, List.filter_append, List.filter_cons, h₁, h₂]
  simp

/-- What is left after any item that was left. -/
theorem Increasing.above_of_split (h : Increasing f l) {front back : List α} {a : α}
    (hleft : above f l k = front ++ a :: back) : above f l (f a) = back := by
  have hmem : a ∈ above f l k := by rw [hleft]; simp
  have hk : k < f a := by simpa using (List.mem_filter.mp hmem).2
  have hsub : above f l (f a) = above f (above f l k) (f a) := by
    rw [above, above, above, List.filter_filter]
    refine List.filter_congr fun b _ => ?_
    by_cases hb : f a < f b
    · simp [hb, lt_trans hk hb]
    · simp [hb]
  have hinc : Increasing f (front ++ a :: back) := hleft ▸ h.filter _
  rw [hsub, hleft, hinc.above_item]

/-- Items added at the end, above one that was read, were not read. -/
theorem between_append {more : List α} (hmore : ∀ b ∈ more, k < f b) :
    between f (l ++ more) s k = between f l s k := by
  have hnil : (more.filter fun b => s < f b ∧ f b ≤ k) = [] :=
    List.filter_eq_nil_iff.mpr fun b hb => by simpa using fun _ => hmore b hb
  rw [between, List.filter_append, hnil, List.append_nil, between]

/-- Where the last result of a partial map comes from. -/
theorem exists_of_getLast?_filterMap {β : Type} {g : α → Option β} {b : β}
    (h : (l.filterMap g).getLast? = some b) :
    ∃ front a back, l = front ++ a :: back ∧ g a = some b ∧ back.filterMap g = [] := by
  induction l using List.reverseRecOn with
  | nil => cases h
  | append_singleton l a ih =>
    rw [List.filterMap_append] at h
    cases ha : g a with
    | none =>
      obtain ⟨front, a', back, rfl, ha', hback⟩ := ih (by simpa [ha] using h)
      exact ⟨front, a', back ++ [a], by simp, ha', by simp [hback, ha]⟩
    | some b' =>
      have hb : b' = b := by simpa [ha] using h
      exact ⟨l, a, [], rfl, by rw [ha, hb], rfl⟩

/-! ## Gaps -/

section

omit [LinearOrder κ]

variable {β : Type} {g : α → Option β} {p : Nat}

/-- No `p` items in a row are without a result where one with a result comes after
them. -/
def Gapless (g : α → Option β) (p : Nat) (l : List α) : Prop :=
  ∀ front gap back, l = front ++ (gap ++ back) → gap.length = p → gap.filterMap g = [] →
    back.filterMap g = []

theorem gapless_of_length_lt (h : l.length < p) : Gapless g p l := by
  intro front gap back hl hgap
  have := congrArg List.length hl
  simp only [List.length_append] at this
  omega

/-- A list that begins with a gap. -/
theorem gapless_iff_of_gap (h : (l.take p).filterMap g = []) (hp : p ≤ l.length) :
    Gapless g p l ↔ (l.drop p).filterMap g = [] := by
  constructor
  · intro hg
    exact hg [] (l.take p) (l.drop p) (by simp) (by simp [hp]) h
  · intro hdrop front gap back hl _ _
    have hall : l.filterMap g = [] := by
      rw [← List.take_append_drop p l, List.filterMap_append, h, hdrop, List.append_nil]
    rw [hl, List.filterMap_append, List.filterMap_append] at hall
    simp only [List.append_eq_nil_iff] at hall
    exact hall.2.2

/-- A gap does not begin within fewer than `p` items before one with a result. -/
theorem gapless_iff_of_split {front rest : List α} {a : α} (ha : (g a).isSome)
    (hfront : front.length < p) : Gapless g p (front ++ a :: rest) ↔ Gapless g p rest := by
  constructor
  · intro hg f gap back hrest
    exact hg (front ++ a :: f) gap back (by rw [hrest]; simp)
  · intro hg f gap back hl hlen hgap
    rcases Nat.lt_or_ge f.length (front.length + 1) with hf | hf
    · -- A gap of `p` items that begins before `rest` would have `a` in it.
      have hmem : a ∈ gap := by
        have hget : (front ++ a :: rest)[front.length]? = some a := by simp
        rw [hl, List.getElem?_append_right (by omega), List.getElem?_append_left (by omega)] at hget
        exact List.mem_of_getElem? hget
      obtain ⟨b, hb⟩ := Option.isSome_iff_exists.mp ha
      have : b ∈ gap.filterMap g := List.mem_filterMap.mpr ⟨a, hmem, hb⟩
      rw [hgap] at this
      cases this
    · have hrest : (front ++ [a] ++ rest).drop (front.length + 1) = rest :=
        List.drop_left' (by simp)
      have hdrop := congrArg (List.drop (front.length + 1)) hl
      rw [List.drop_append_of_le_length hf, List.append_cons] at hdrop
      exact hg (f.drop (front.length + 1)) gap back (hrest.symm.trans hdrop) hlen hgap

end

end McpgSql.Library
