import Mathlib.Data.List.DropRight

/-!
# Cutting texts

A text up to the first place where a pattern stands (`upTo`), a text without what
surrounds it (`trim`), and the pieces between separators (`List.splitOn`). Each
lemma says what one of them does to a text that is put together.
-/

namespace McpgSql.Library

variable {α : Type} {pat a b t : List α} {c : α} {p : α → Bool}

/-- What is left of a text where it is cut after the characters that `p` holds of. -/
theorem drop_length_takeWhile (p : α → Bool) (t : List α) :
    t.drop (t.takeWhile p).length = t.dropWhile p := by
  have h : (t.takeWhile p ++ t.dropWhile p).drop (t.takeWhile p).length = t.dropWhile p :=
    List.drop_left
  rwa [List.takeWhile_append_dropWhile] at h

/-! ## Trimming -/

/-- The text without what `p` holds of at its ends. -/
def trim (p : α → Bool) (t : List α) : List α := (t.dropWhile p).rdropWhile p

theorem trim_cons (hc : p c = true) (t : List α) : trim p (c :: t) = trim p t := by
  rw [trim, List.dropWhile_cons_of_pos hc, trim]

theorem trim_concat (hc : p c = true) (t : List α) : trim p (t ++ [c]) = trim p t := by
  rw [trim, List.dropWhile_append]
  split
  · rename_i hall
    simp [hc, List.isEmpty_iff.mp hall, trim]
  · rw [List.rdropWhile_concat_pos _ _ _ hc, trim]

/-- A text with other ends is kept. -/
theorem trim_of_ends (hfirst : ∀ c ∈ t.head?, p c = false) (hlast : ∀ c ∈ t.getLast?, p c = false) :
    trim p t = t := by
  have hdrop : t.dropWhile p = t := by
    cases t with
    | nil => rfl
    | cons c t =>
      rw [List.dropWhile_cons_of_neg]
      simpa using hfirst c rfl
  rw [trim, hdrop, List.rdropWhile_eq_self_iff]
  intro hne
  simpa using hlast _ (List.getLast?_eq_some_getLast hne)

theorem mem_trim (hc : p c = false) (h : c ∈ t) : c ∈ trim p t := by
  have hdrop {t : List α} (h : c ∈ t) : c ∈ t.dropWhile p := by
    rw [← List.takeWhile_append_dropWhile (p := p) (l := t), List.mem_append] at h
    refine h.resolve_left fun htake => ?_
    rw [List.mem_takeWhile_imp htake] at hc
    cases hc
  rw [trim, List.rdropWhile, List.mem_reverse]
  exact hdrop (List.mem_reverse.mpr (hdrop h))

/-- The last character of a text without its end is not one that is dropped. -/
theorem rdropWhile_last (t : List α) : ∀ c ∈ (t.rdropWhile p).getLast?, p c = false := by
  intro c hc
  have hne : t.rdropWhile p ≠ [] := by
    intro hnil
    rw [hnil] at hc
    cases hc
  rw [List.getLast?_eq_some_getLast hne] at hc
  obtain rfl := Option.some.inj hc
  simpa using List.rdropWhile_last_not p t hne

theorem rdropWhile_append (ha : ∀ c ∈ a.getLast?, p c = false) (hb : ∀ c ∈ b, p c = true) :
    (a ++ b).rdropWhile p = a := by
  have hback : (a ++ b).rdropWhile p = a.rdropWhile p := by
    rw [List.rdropWhile, List.reverse_append, List.dropWhile_append_of_pos, ← List.rdropWhile]
    intro c hc
    exact hb c (List.mem_reverse.mp hc)
  rw [hback, List.rdropWhile_eq_self_iff]
  intro hne
  simpa using ha _ (List.getLast?_eq_some_getLast hne)

theorem rtakeWhile_append (ha : ∀ c ∈ a.getLast?, p c = false) (hb : ∀ c ∈ b, p c = true) :
    (a ++ b).rtakeWhile p = b := by
  have h : (a ++ b).rdropWhile p ++ (a ++ b).rtakeWhile p = a ++ b :=
    List.rdropWhile_append_rtakeWhile
  rw [rdropWhile_append ha hb] at h
  exact List.append_cancel_left h

variable [DecidableEq α]

/-! ## Up to a pattern -/

/-- The text before the first `pat`, all of it when there is none. -/
def upTo (pat : List α) : List α → List α
  | [] => []
  | c :: cs => if pat.isPrefixOf (c :: cs) then [] else c :: upTo pat cs

theorem dropPrefix?_eq_none : t.dropPrefix? pat = none ↔ ¬pat <+: t := by
  rw [Option.eq_none_iff_forall_ne_some]
  constructor
  · rintro h ⟨s, rfl⟩
    exact h s (List.dropPrefix?_append_of_beq s BEq.rfl)
  · rintro h s hs
    obtain ⟨pat', rfl, heq⟩ := List.dropPrefix?_eq_some_iff.mp hs
    rw [eq_of_beq heq] at h
    exact h (List.prefix_append _ _)

/-- It is what stands before the pattern where the text is cut. -/
theorem upTo_eq_dropInfix? (pat t : List α) :
    upTo pat t = match t.dropInfix? pat with
      | some (before, _) => before
      | none => t := by
  have hloop : ∀ acc : List α, acc.reverse ++ upTo pat t =
      match List.dropInfix?.go pat t acc with
        | some (before, _) => before
        | none => acc.reverse ++ t := by
    induction t with
    | nil =>
      intro acc
      cases pat <;> simp [upTo, List.dropInfix?.go]
    | cons c t ih =>
      intro acc
      rw [List.dropInfix?.go]
      cases hdrop : (c :: t).dropPrefix? pat with
      | none =>
        rw [upTo, if_neg (mt List.isPrefixOf_iff_prefix.mp (dropPrefix?_eq_none.mp hdrop))]
        have hnext := ih (c :: acc)
        rw [List.reverse_cons, List.append_assoc, List.singleton_append, List.append_assoc,
          List.singleton_append] at hnext
        exact hnext
      | some s =>
        have hstart : pat <+: c :: t := by
          by_contra hnot
          rw [dropPrefix?_eq_none.mpr hnot] at hdrop
          cases hdrop
        rw [upTo, if_pos (List.isPrefixOf_iff_prefix.mpr hstart), List.append_nil]
  exact hloop []

theorem upTo_of_isPrefix (h : pat <+: t) : upTo pat t = [] := by
  cases t with
  | nil => rfl
  | cons c t => rw [upTo, if_pos (List.isPrefixOf_iff_prefix.mpr h)]

theorem upTo_cons (h : ¬pat <+: c :: t) : upTo pat (c :: t) = c :: upTo pat t := by
  rw [upTo, if_neg (mt List.isPrefixOf_iff_prefix.mp h)]

theorem upTo_isPrefix (pat t : List α) : upTo pat t <+: t := by
  induction t with
  | nil => exact List.nil_prefix
  | cons c t ih =>
    rw [upTo]
    split
    · exact List.nil_prefix
    · exact List.cons_prefix_cons.mpr ⟨rfl, ih⟩

/-- A text that the pattern does not begin in is kept. -/
theorem upTo_append (h : ∀ s, s ≠ [] → s <:+ a → ¬pat <+: s ++ b) :
    upTo pat (a ++ b) = a ++ upTo pat b := by
  induction a with
  | nil => rfl
  | cons x a ih =>
    have hfirst := h (x :: a) (by simp) (List.suffix_refl _)
    rw [List.cons_append] at hfirst ⊢
    rw [upTo_cons hfirst, ih fun s hs hsuffix => h s hs (hsuffix.trans (List.suffix_cons x a))]
    rfl

theorem upTo_of_not_isInfix (h : ¬pat <:+: t) : upTo pat t = t := by
  have hkeep : upTo pat (t ++ []) = t ++ upTo pat [] := by
    apply upTo_append
    intro s _ hsuffix hstart
    rw [List.append_nil] at hstart
    exact h (hstart.isInfix.trans hsuffix.isInfix)
  rwa [List.append_nil, upTo, List.append_nil] at hkeep

/-- What stands behind the first pattern does not matter. -/
theorem upTo_append_of_isInfix (h : pat <:+: a) (b : List α) : upTo pat (a ++ b) = upTo pat a := by
  induction a with
  | nil =>
    rw [List.infix_nil.mp h]
    exact (upTo_of_isPrefix (List.nil_prefix)).trans rfl
  | cons x a ih =>
    by_cases hp : pat <+: x :: a
    · rw [upTo_of_isPrefix hp, upTo_of_isPrefix (hp.trans (List.prefix_append _ _))]
    · have hrest : pat <:+: a := (List.infix_cons_iff.mp h).resolve_left hp
      have hp' : ¬pat <+: x :: (a ++ b) := by
        intro hstart
        apply hp
        apply List.prefix_of_prefix_length_le hstart (List.prefix_append (x :: a) b)
        exact hrest.length_le.trans (Nat.le_succ _)
      rw [List.cons_append, upTo_cons hp', upTo_cons hp, ih hrest]

/-- A pattern does not reach over a character that it does not have. -/
theorem upTo_append_cons (hc : c ∉ pat) (hne : pat ≠ []) (ha : ¬pat <:+: a) (b : List α) :
    upTo pat (a ++ c :: b) = a ++ c :: upTo pat b := by
  have hfirst : ¬pat <+: c :: b := by
    intro h
    obtain ⟨x, pat', rfl⟩ := List.exists_cons_of_ne_nil hne
    exact hc (List.mem_cons.mpr (.inl (List.cons_prefix_cons.mp h).1.symm))
  rw [← upTo_cons hfirst]
  apply upTo_append
  intro s _ hsuffix hstart
  apply ha
  rcases List.prefix_or_prefix_of_prefix hstart (List.prefix_append s (c :: b)) with h | h
  · exact h.isInfix.trans hsuffix.isInfix
  · obtain ⟨r, rfl⟩ := h
    rw [List.prefix_append_right_inj] at hstart
    cases r with
    | nil =>
      rw [List.append_nil]
      exact hsuffix.isInfix
    | cons x r =>
      obtain rfl := (List.cons_prefix_cons.mp hstart).1
      exact absurd (List.mem_append_right s List.mem_cons_self) hc

/-- A pattern ends a text that neither has it nor begins it. -/
theorem upTo_append_self (ha : ¬pat <:+: a ++ pat.dropLast) (b : List α) :
    upTo pat (a ++ (pat ++ b)) = a := by
  rw [upTo_append, upTo_of_isPrefix (List.prefix_append _ _), List.append_nil]
  intro s hs hsuffix hstart
  apply ha
  have hend : s ++ pat.dropLast <+: s ++ (pat ++ b) := by
    rw [List.prefix_append_right_inj]
    exact (List.dropLast_prefix pat).trans (List.prefix_append _ _)
  have hlen : pat.length ≤ (s ++ pat.dropLast).length := by
    have := List.length_pos_iff.mpr hs
    rw [List.length_append, List.length_dropLast]
    omega
  have hinside := List.prefix_of_prefix_length_le hstart hend hlen
  obtain ⟨front, rfl⟩ := hsuffix
  rw [List.append_assoc]
  exact List.infix_append_of_infix_right hinside.isInfix

/-! ## Leading patterns -/

/-- The text after all the `pat` it begins with. -/
def trimStartMatches (pat t : List α) : List α :=
  if pat ≠ [] ∧ pat <+: t then trimStartMatches pat (t.drop pat.length) else t
termination_by t.length
decreasing_by
  rename_i h
  have := h.2.length_le
  have := List.length_pos_iff.mpr h.1
  rw [List.length_drop]
  omega

theorem trimStartMatches_of_not_isPrefix (h : ¬pat <+: t) : trimStartMatches pat t = t := by
  rw [trimStartMatches.eq_def, if_neg fun hand => h hand.2]

theorem trimStartMatches_append (hne : pat ≠ []) (h : ¬pat <+: t) :
    trimStartMatches pat (pat ++ t) = t := by
  rw [trimStartMatches.eq_def, if_pos ⟨hne, List.prefix_append _ _⟩, List.drop_left,
    trimStartMatches_of_not_isPrefix h]

/-! ## Pieces -/

theorem splitOn_cons_of_ne {sep : α} (h : c ≠ sep) (t : List α) :
    (c :: t).splitOn sep = (t.splitOn sep).modifyHead (c :: ·) := by
  rw [List.splitOn_cons_eq_if_modifyHead, if_neg (by simpa using h)]

/-- A first piece that is put before a text. -/
theorem splitOn_append_of_notMem {sep : α} (h : sep ∉ a) (t : List α) :
    (a ++ t).splitOn sep = (t.splitOn sep).modifyHead (a ++ ·) := by
  induction a with
  | nil => cases ht : t.splitOn sep <;> simp [ht]
  | cons x a ih =>
    simp only [List.mem_cons, not_or] at h
    rw [List.cons_append, splitOn_cons_of_ne (Ne.symm h.1), ih h.2]
    cases t.splitOn sep <;> simp

/-- A character that is put behind a text is put behind its last piece. -/
theorem splitOn_concat_of_ne {sep : α} (h : c ≠ sep) (t : List α) :
    ∃ init last, t.splitOn sep = init ++ [last] ∧
      (t ++ [c]).splitOn sep = init ++ [last ++ [c]] := by
  induction t with
  | nil => exact ⟨[], [], rfl, by rw [List.nil_append, splitOn_cons_of_ne h]; rfl⟩
  | cons x t ih =>
    obtain ⟨init, last, ht, htc⟩ := ih
    rw [List.cons_append]
    by_cases hx : x = sep
    · subst hx
      refine ⟨[] :: init, last, ?_, ?_⟩
      · rw [List.splitOn_cons_eq_if_modifyHead, if_pos BEq.rfl, ht]
        rfl
      · rw [List.splitOn_cons_eq_if_modifyHead, if_pos BEq.rfl, htc]
        rfl
    · rw [splitOn_cons_of_ne hx, splitOn_cons_of_ne hx, ht, htc]
      cases init with
      | nil => exact ⟨[], x :: last, rfl, rfl⟩
      | cons i init => exact ⟨(x :: i) :: init, last, rfl, rfl⟩

/-- The trimmed pieces of a trimmed text are those of the text. -/
theorem trim_splitOn_trim {sep : α} (h : p sep = false) (t : List α) :
    ((trim p t).splitOn sep).map (trim p) = (t.splitOn sep).map (trim p) := by
  have hne : ∀ c, p c = true → c ≠ sep := by
    rintro c hc rfl
    rw [h] at hc
    cases hc
  have hback : ∀ t : List α, ((t.rdropWhile p).splitOn sep).map (trim p) =
      (t.splitOn sep).map (trim p) := by
    intro t
    induction t using List.reverseRecOn with
    | nil => rfl
    | append_singleton t c ih =>
      cases hc : p c with
      | false => rw [List.rdropWhile_concat_neg _ _ _ (by simp [hc])]
      | true =>
        obtain ⟨init, last, ht, htc⟩ := splitOn_concat_of_ne (hne c hc) t
        rw [List.rdropWhile_concat_pos _ _ _ hc, ih, ht, htc]
        simp [trim_concat hc]
  have hfront : ((t.dropWhile p).splitOn sep).map (trim p) = (t.splitOn sep).map (trim p) := by
    induction t with
    | nil => rfl
    | cons c t ih =>
      cases hc : p c with
      | false => rw [List.dropWhile_cons_of_neg (by simp [hc])]
      | true =>
        rw [List.dropWhile_cons_of_pos hc, ih, splitOn_cons_of_ne (hne c hc)]
        cases t.splitOn sep with
        | nil => rfl
        | cons piece pieces => simp [trim_cons hc]
  rw [trim, hback, hfront]

/-- A piece between two separators. -/
theorem mem_splitOn_of_isInfix {sep : α} {w : List α} (hw : sep ∉ w)
    (h : sep :: (w ++ [sep]) <:+: t) : w ∈ (t.splitOn sep).tail.dropLast := by
  obtain ⟨x, y, rfl⟩ := h
  have ht : x ++ sep :: (w ++ [sep]) ++ y = x ++ sep :: (w ++ sep :: y) := by simp
  rw [ht, List.splitOn_append_cons_self, List.splitOn_append_cons_self,
    List.splitOn_eq_singleton hw]
  obtain ⟨first, pieces, hx⟩ := List.exists_cons_of_ne_nil (List.splitOn_ne_nil sep x)
  rw [hx, List.cons_append, List.tail_cons]
  rw [List.dropLast_append_of_ne_nil (by simp)]
  apply List.mem_append_right
  obtain ⟨last, rest, hy⟩ := List.exists_cons_of_ne_nil (List.splitOn_ne_nil sep y)
  rw [hy]
  simp

/-! ## Across a character -/

section
omit [DecidableEq α]

variable {w : List α}

theorem suffix_append_cons (hw : c ∉ w) : w <:+ a ++ c :: b ↔ w <:+ b := by
  constructor
  · rintro ⟨x, h⟩
    obtain ⟨rest, -, rfl⟩ | ⟨rest, -, hb⟩ := List.append_eq_append_iff.mp h
    · exact absurd (List.mem_append_right rest List.mem_cons_self) hw
    · cases rest with
      | nil =>
        rw [List.nil_append] at hb
        exact absurd (hb ▸ List.mem_cons_self) hw
      | cons d rest => exact ⟨rest, (List.cons.inj hb).2.symm⟩
  · intro h
    exact (h.trans (List.suffix_cons c b)).trans (List.suffix_append a _)

/-- A text without the character stands on one side of it. -/
theorem infix_append_cons (hw : c ∉ w) : w <:+: a ++ c :: b ↔ w <:+: a ∨ w <:+: b := by
  constructor
  · rintro ⟨x, y, h⟩
    obtain ⟨rest, rfl, -⟩ | ⟨rest, hx, hb⟩ := List.append_eq_append_iff.mp h
    · exact .inl ⟨x, rest, rfl⟩
    · cases rest with
      | nil =>
        rw [List.append_nil] at hx
        exact .inl (hx ▸ (List.suffix_append x w).isInfix)
      | cons d rest =>
        obtain ⟨rfl, rfl⟩ := List.cons.inj hb
        have hsuffix : w <:+ rest := (suffix_append_cons hw).mp (hx ▸ List.suffix_append x w)
        exact .inr (List.infix_append_of_infix_left hsuffix.isInfix)
  · rintro (h | h)
    · exact List.infix_append_of_infix_left h
    · exact List.infix_append_of_infix_right (h.trans (List.suffix_cons c b).isInfix)

/-- A text that ends in the character ends there or stands behind it. -/
theorem concat_infix_append_cons (hw : c ∉ w) (ha : c ∉ a) :
    w ++ [c] <:+: a ++ c :: b ↔ w <:+ a ∨ w ++ [c] <:+: b := by
  constructor
  · rintro ⟨x, y, h⟩
    have h' : (x ++ w) ++ c :: y = a ++ c :: b := by rw [← h]; simp
    obtain ⟨rest, ha', hy⟩ | ⟨rest, hx, hb⟩ := List.append_eq_append_iff.mp h'
    · cases rest with
      | nil =>
        rw [List.append_nil] at ha'
        exact .inl (ha' ▸ List.suffix_append x w)
      | cons d rest =>
        obtain ⟨rfl, -⟩ := List.cons.inj hy
        exact absurd (ha' ▸ List.mem_append_right _ List.mem_cons_self) ha
    · cases rest with
      | nil =>
        rw [List.append_nil] at hx
        exact .inl (hx ▸ List.suffix_append x w)
      | cons d rest =>
        obtain ⟨rfl, rfl⟩ := List.cons.inj hb
        obtain ⟨z, rfl⟩ := (suffix_append_cons hw).mp (hx ▸ List.suffix_append x w)
        exact .inr ⟨z, y, by simp⟩
  · rintro (⟨z, rfl⟩ | h)
    · exact ⟨z, b, by simp⟩
    · exact List.infix_append_of_infix_right (h.trans (List.suffix_cons c b).isInfix)

/-- Texts that end alike from their last such character on. -/
theorem cons_suffix_append_cons {u v q r : List α} (hq : c ∉ q) (hr : c ∉ r) :
    u ++ c :: q <:+ v ++ c :: r ↔ u <:+ v ∧ q = r := by
  constructor
  · rintro ⟨x, h⟩
    rw [← List.append_assoc] at h
    obtain ⟨rest, hv, hcons⟩ | ⟨rest, hu, hcons⟩ := List.append_eq_append_iff.mp h
    · cases rest with
      | nil =>
        rw [List.append_nil] at hv
        exact ⟨hv ▸ List.suffix_append x u, (List.cons.inj hcons).2⟩
      | cons d rest =>
        rw [(List.cons.inj hcons).2] at hq
        exact absurd (List.mem_append_right rest List.mem_cons_self) hq
    · cases rest with
      | nil =>
        rw [List.append_nil] at hu
        exact ⟨hu ▸ List.suffix_append x u, (List.cons.inj hcons).2.symm⟩
      | cons d rest =>
        rw [(List.cons.inj hcons).2] at hr
        exact absurd (List.mem_append_right rest List.mem_cons_self) hr
  · rintro ⟨⟨z, rfl⟩, rfl⟩
    exact ⟨z, by simp⟩

end

/-! ## Words -/

omit [DecidableEq α] in
theorem mem_piece {w : List α} (h : w ∈ t.splitOnP p) : ∀ c ∈ w, p c = false := by
  induction t generalizing w with
  | nil =>
    rw [List.splitOnP_nil, List.mem_singleton] at h
    simp [h]
  | cons x t ih =>
    obtain ⟨piece, pieces, hpieces⟩ := List.exists_cons_of_ne_nil (List.splitOnP_ne_nil p t)
    rw [List.splitOnP_cons_eq_if_modifyHead, hpieces] at h
    rw [hpieces] at ih
    split at h
    · rcases List.mem_cons.mp h with rfl | h
      · simp
      · exact ih h
    · rename_i hx
      rcases List.mem_cons.mp h with rfl | h
      · simpa [hx] using ih List.mem_cons_self
      · exact ih (List.mem_cons_of_mem _ h)

/-- The longest pieces without a character that `p` holds of. -/
def words (p : α → Bool) (t : List α) : List (List α) := (t.splitOnP p).filter (!·.isEmpty)

/-- A text that is one of its own words. -/
structure IsWord (p : α → Bool) (w : List α) : Prop where
  ne : w ≠ []
  plain : ∀ c ∈ w, p c = false

omit [DecidableEq α] in
theorem isWord_of_mem_words {w : List α} (h : w ∈ words p t) : IsWord p w := by
  rw [words, List.mem_filter] at h
  exact ⟨by simpa using h.2, mem_piece h.1⟩

omit [DecidableEq α] in
/-- The words of words with a separator between them are these words. -/
theorem words_intercalate {sep : α} (hsep : p sep = true) {ws : List (List α)}
    (h : ∀ w ∈ ws, IsWord p w) : words p ([sep].intercalate ws) = ws := by
  induction ws with
  | nil => rfl
  | cons w ws ih =>
    obtain ⟨hw, hws⟩ := List.forall_mem_cons.mp h
    cases ws with
    | nil => simp [words, List.splitOnP_eq_singleton hw.plain, hw.ne]
    | cons v ws =>
      rw [List.intercalate_cons_cons, List.append_assoc, List.singleton_append, words,
        List.splitOnP_append_cons_of_forall_mem hw.plain _ hsep,
        List.filter_cons_of_pos (by simp [hw.ne])]
      exact congrArg _ (ih hws)

omit [DecidableEq α] in
theorem infix_intercalate {sep : α} {w : List α} (hw : w ≠ []) (hsep : sep ∉ w)
    (ws : List (List α)) : w <:+: [sep].intercalate ws ↔ ∃ v ∈ ws, w <:+: v := by
  induction ws with
  | nil => simp [hw]
  | cons v ws ih =>
    cases ws with
    | nil => simp
    | cons u ws =>
      rw [List.intercalate_cons_cons, List.append_assoc, List.singleton_append,
        infix_append_cons hsep, ih]
      simp

end McpgSql.Library
