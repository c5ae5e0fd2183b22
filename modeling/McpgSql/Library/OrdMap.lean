import Mathlib.Data.Finset.Basic
import Mathlib.Data.List.Sort
import Mathlib.Order.Defs.LinearOrder

/-!
# Maps in key order

A map kept as the list of its entries in strictly increasing key order, as an
ordered tree map iterates them. The raw operations on association lists
(`Assoc`) are total on every list; `OrdMap` carries the order, so that the
first entry is the one with the least key.
-/

namespace McpgSql.Library

variable {κ α : Type}

/-! ## Association lists -/

namespace Assoc

/-- The value of the first entry with key `k`. -/
def get? [DecidableEq κ] : List (κ × α) → κ → Option α
  | [], _ => none
  | (j, v) :: m, k => if j = k then some v else get? m k

/-- `m` with `k ↦ v`, in key order: an entry with key `k` is replaced. -/
def insert [LinearOrder κ] : List (κ × α) → κ → α → List (κ × α)
  | [], k, v => [(k, v)]
  | (j, w) :: m, k, v =>
    if k < j then (k, v) :: (j, w) :: m
    else if k = j then (k, v) :: m
    else (j, w) :: insert m k v

/-- `m` with the entries of `entries` inserted one by one. -/
def insertAll [LinearOrder κ] (m entries : List (κ × α)) : List (κ × α) :=
  entries.foldl (fun m e => insert m e.1 e.2) m

/-- The map of these entries, the last of one key. -/
def ofList [LinearOrder κ] (entries : List (κ × α)) : List (κ × α) :=
  entries.foldl (fun m e => insert m e.1 e.2) []

/-- `m` without its entries of keys that `p` holds of. -/
def eraseP (m : List (κ × α)) (p : κ → Bool) : List (κ × α) := m.filter fun e => !p e.1

/-- The keys are in strictly increasing order. -/
def Sorted [LT κ] (m : List (κ × α)) : Prop := m.Pairwise fun a b => a.1 < b.1

theorem get?_insert [LinearOrder κ] (m : List (κ × α)) (k j : κ) (v : α) :
    get? (insert m k v) j = if k = j then some v else get? m j := by
  induction m with
  | nil => simp [insert, get?]
  | cons e m ih =>
    obtain ⟨i, w⟩ := e
    simp only [insert]
    split
    · simp [get?]
    · split
      · rename_i _ h
        subst h
        by_cases hj : k = j <;> simp [get?, hj]
      · rename_i hlt hne
        simp only [get?, ih]
        by_cases hi : i = j
        · subst hi; simp [hne]
        · simp [hi]

/-- Where an entry is inserted depends on its key only. -/
theorem exists_insert_eq [LinearOrder κ] (m : List (κ × α)) (k : κ) :
    ∃ l₁ l₂, ∀ v, insert m k v = l₁ ++ (k, v) :: l₂ := by
  induction m with
  | nil => exact ⟨[], [], fun _ => rfl⟩
  | cons e m ih =>
    obtain ⟨j, w⟩ := e
    obtain ⟨l₁, l₂, h⟩ := ih
    rcases lt_trichotomy k j with hlt | rfl | hgt
    · exact ⟨[], (j, w) :: m, fun v => by simp [insert, hlt]⟩
    · exact ⟨[], m, fun v => by simp [insert]⟩
    · exact ⟨(j, w) :: l₁, l₂, fun v => by simp [insert, not_lt_of_gt hgt, hgt.ne', h]⟩

theorem length_insert_le [LinearOrder κ] (m : List (κ × α)) (k : κ) (v : α) :
    (insert m k v).length ≤ m.length + 1 := by
  induction m with
  | nil => exact le_rfl
  | cons e m ih =>
    rw [insert]
    split
    · exact le_rfl
    · split
      · exact Nat.le_succ _
      · exact Nat.succ_le_succ ih

/-- A new value of a key that is there. -/
theorem length_insert_of_mem [LinearOrder κ] {m : List (κ × α)} (hm : Sorted m) {k : κ} {v : α}
    (h : (k, v) ∈ m) (w : α) : (insert m k w).length = m.length := by
  induction m with
  | nil => cases h
  | cons e m ih =>
    obtain ⟨hlt, hm⟩ := List.pairwise_cons.mp hm
    rw [insert]
    rcases List.mem_cons.mp h with rfl | h
    · simp
    · have := hlt _ h
      rw [if_neg this.not_gt, if_neg this.ne', List.length_cons, ih hm h, List.length_cons]

theorem get?_eraseP [DecidableEq κ] (m : List (κ × α)) (p : κ → Bool) (j : κ) :
    get? (eraseP m p) j = if p j then none else get? m j := by
  induction m with
  | nil => simp [eraseP, get?]
  | cons e m ih =>
    obtain ⟨i, w⟩ := e
    simp only [eraseP, List.filter_cons] at ih ⊢
    by_cases hi : i = j
    · subst hi
      cases hp : p i <;> simp_all [get?]
    · cases hp : p i <;> simp_all [get?]

theorem mem_of_get? [DecidableEq κ] {m : List (κ × α)} {k : κ} {v : α} (h : get? m k = some v) :
    (k, v) ∈ m := by
  induction m with
  | nil => simp [get?] at h
  | cons e m ih =>
    obtain ⟨j, w⟩ := e
    simp only [get?] at h
    split at h
    · rename_i hj
      cases h; subst hj
      exact List.mem_cons_self
    · exact List.mem_cons_of_mem _ (ih h)

theorem get?_of_mem [LinearOrder κ] {m : List (κ × α)} (hm : Sorted m) {k : κ} {v : α}
    (h : (k, v) ∈ m) : get? m k = some v := by
  induction m with
  | nil => cases h
  | cons e m ih =>
    obtain ⟨j, w⟩ := e
    obtain ⟨hj, hm⟩ := List.pairwise_cons.mp hm
    rcases List.mem_cons.mp h with he | h
    · cases he; simp [get?]
    · have : j ≠ k := ne_of_lt (hj _ h)
      simp [get?, this, ih hm h]

theorem get?_append [DecidableEq κ] (m n : List (κ × α)) (k : κ) :
    get? (m ++ n) k = (get? m k).or (get? n k) := by
  induction m with
  | nil => rfl
  | cons e m ih =>
    obtain ⟨j, w⟩ := e
    simp only [List.cons_append, get?, ih]
    split <;> rfl

/-- The last of the inserted entries of a key counts. -/
theorem get?_insertAll [LinearOrder κ] (m entries : List (κ × α)) (k : κ) :
    get? (insertAll m entries) k = (get? entries.reverse k).or (get? m k) := by
  induction entries generalizing m with
  | nil => rfl
  | cons e entries ih =>
    obtain ⟨j, w⟩ := e
    show get? (insertAll (insert m j w) entries) k = _
    rw [ih, get?_insert, List.reverse_cons, get?_append]
    cases get? entries.reverse k with
    | some v => rfl
    | none =>
      simp only [get?, Option.none_or]
      split <;> rfl

theorem get?_ofList [LinearOrder κ] (entries : List (κ × α)) (k : κ) :
    get? (ofList entries) k = get? entries.reverse k := by
  show get? (insertAll [] entries) k = _
  rw [get?_insertAll, get?, Option.or_none]

theorem get?_map [DecidableEq κ] {β : Type} (f : α → β) (m : List (κ × α)) (k : κ) :
    get? (m.map fun e => (e.1, f e.2)) k = (get? m k).map f := by
  induction m with
  | nil => rfl
  | cons e m ih =>
    simp only [List.map_cons, get?, ih]
    split <;> rfl

theorem get?_eq_none [DecidableEq κ] {m : List (κ × α)} {k : κ} (h : ∀ e ∈ m, e.1 ≠ k) :
    get? m k = none := by
  induction m with
  | nil => rfl
  | cons e m ih =>
    rw [get?, if_neg (h e List.mem_cons_self)]
    exact ih fun e he => h e (List.mem_cons_of_mem _ he)

theorem get?_ne_none [DecidableEq κ] {m : List (κ × α)} {k : κ} (h : k ∈ m.map Prod.fst) :
    get? m k ≠ none := by
  induction m with
  | nil => cases h
  | cons e m ih =>
    rw [get?]
    split
    · nofun
    · rename_i hk
      exact ih (by simpa [Ne.symm hk] using h)

/-- The last entry of a key is the first one from the end. -/
theorem get?_reverse_of_last [DecidableEq κ] {m : List (κ × α)} {k : κ} {v : α} {i : Nat}
    (hi : m[i]? = some (k, v)) (hlast : ∀ j e, i < j → m[j]? = some e → e.1 ≠ k) :
    get? m.reverse k = some v := by
  obtain ⟨hlt, hget⟩ := List.getElem?_eq_some_iff.mp hi
  have hsplit : m = m.take i ++ (k, v) :: m.drop (i + 1) := by
    rw [← hget, List.cons_getElem_drop_succ, List.take_append_drop]
  have hnone : get? (m.drop (i + 1)).reverse k = none := by
    refine get?_eq_none fun e he => ?_
    obtain ⟨j, hj⟩ := List.mem_iff_getElem?.mp (List.mem_reverse.mp he)
    rw [List.getElem?_drop] at hj
    exact hlast _ e (by omega) hj
  rw [hsplit, List.reverse_append, List.reverse_cons, List.append_assoc, get?_append, hnone,
    Option.none_or, List.singleton_append, get?, if_pos rfl]

/-- A key all of whose entries have the value `v`. -/
theorem get?_of_forall [DecidableEq κ] {m : List (κ × α)} {k : κ} {v : α}
    (hall : ∀ e ∈ m, e.1 = k → e.2 = v) (hk : k ∈ m.map Prod.fst) : get? m k = some v := by
  induction m with
  | nil => cases hk
  | cons e m ih =>
    obtain ⟨j, w⟩ := e
    simp only [get?]
    split
    · rename_i hj
      exact congrArg some (hall _ List.mem_cons_self hj)
    · rename_i hj
      refine ih (fun e he => hall e (List.mem_cons_of_mem _ he)) ?_
      simpa [Ne.symm hj] using hk

theorem sorted_insert [LinearOrder κ] {m : List (κ × α)} (h : Sorted m) (k : κ) (v : α) :
    Sorted (insert m k v) := by
  induction m with
  | nil => simp [insert, Sorted]
  | cons e m ih =>
    obtain ⟨j, w⟩ := e
    obtain ⟨hj, hm⟩ := List.pairwise_cons.mp h
    simp only [insert]
    split
    · rename_i hlt
      refine List.pairwise_cons.mpr ⟨fun b hb => ?_, h⟩
      rcases List.mem_cons.mp hb with rfl | hb
      · exact hlt
      · exact lt_trans hlt (hj b hb)
    · split
      · rename_i _ he
        subst he
        exact List.pairwise_cons.mpr ⟨hj, hm⟩
      · rename_i hlt hne
        refine List.pairwise_cons.mpr ⟨fun b hb => ?_, ih hm⟩
        have hb := get?_of_mem (ih hm) (v := b.2) (show (b.1, b.2) ∈ insert m k v from hb)
        rw [get?_insert] at hb
        split at hb
        · rename_i he
          rw [← he]
          exact lt_of_le_of_ne (not_lt.mp hlt) (Ne.symm hne)
        · exact hj _ (mem_of_get? hb)

theorem get?_filter [DecidableEq κ] {m : List (κ × α)} (hm : (m.map Prod.fst).Nodup)
    (p : κ × α → Bool) (j : κ) :
    get? (m.filter p) j = (get? m j).filter fun v => p (j, v) := by
  induction m with
  | nil => simp [get?]
  | cons e m ih =>
    obtain ⟨i, w⟩ := e
    simp only [List.map_cons, List.nodup_cons] at hm
    by_cases hi : i = j
    · subst hi
      have hnone : get? (m.filter p) i = none := by
        refine Option.eq_none_iff_forall_not_mem.mpr fun v hv => hm.1 ?_
        exact List.mem_map_of_mem (f := Prod.fst) (List.mem_of_mem_filter (mem_of_get? hv))
      cases hp : p (i, w) <;> simp [get?, hp, hnone, Option.filter]
    · cases hp : p (i, w) <;> simp [get?, hp, hi, ih hm.2]

theorem nodup_keys [LinearOrder κ] {m : List (κ × α)} (h : Sorted m) : (m.map Prod.fst).Nodup :=
  (List.pairwise_map.mpr h).imp ne_of_lt

/-- Maps with the same values are the same list. -/
theorem ext_get? [LinearOrder κ] {m n : List (κ × α)} (hm : Sorted m) (hn : Sorted n)
    (h : ∀ k, get? m k = get? n k) : m = n := by
  have hmem : ∀ e : κ × α, e ∈ m ↔ e ∈ n := fun ⟨k, v⟩ =>
    ⟨fun he => mem_of_get? (h k ▸ get?_of_mem hm he),
      fun he => mem_of_get? (h k ▸ get?_of_mem hn he : get? m k = some v)⟩
  refine List.Perm.eq_of_pairwise (fun a b _ _ hab hba => absurd hba (lt_asymm hab)) hm hn ?_
  exact (List.perm_ext_iff_of_nodup (nodup_keys hm).of_map (nodup_keys hn).of_map).mpr hmem

theorem sorted_ofList [LinearOrder κ] (entries : List (κ × α)) : Sorted (ofList entries) := by
  have hfold : ∀ m : List (κ × α), Sorted m →
      Sorted (entries.foldl (fun m e => insert m e.1 e.2) m) := by
    induction entries with
    | nil => exact fun m hm => hm
    | cons e entries ih => exact fun m hm => ih _ (sorted_insert hm e.1 e.2)
  exact hfold [] List.Pairwise.nil

/-- Maps of the same keys are equal where the values that stay are. -/
theorem ofList_map_eq_iff [LinearOrder κ] {β : Type} (f g : α → β) (entries : List (κ × α)) :
    (ofList (entries.map fun e => (e.1, f e.2)) = ofList (entries.map fun e => (e.1, g e.2))) ↔
      ∀ k v, get? entries.reverse k = some v → f v = g v := by
  have hget (f : α → β) (k : κ) : get? (ofList (entries.map fun e => (e.1, f e.2))) k =
      (get? entries.reverse k).map f := by
    rw [get?_ofList, ← List.map_reverse, get?_map]
  constructor
  · intro h k v hv
    have hk := hget f k
    rw [h, hget g k, hv] at hk
    exact (Option.some.inj hk).symm
  · intro h
    refine ext_get? (sorted_ofList _) (sorted_ofList _) fun k => ?_
    rw [hget, hget]
    cases hv : get? entries.reverse k with
    | none => rfl
    | some v => exact congrArg some (h k v hv)

/-- Entries of distinct keys are the entries of their map. -/
theorem mem_ofList [LinearOrder κ] {entries : List (κ × α)} (h : (entries.map Prod.fst).Nodup)
    {e : κ × α} : e ∈ ofList entries ↔ e ∈ entries := by
  obtain ⟨k, v⟩ := e
  have hget : get? (ofList entries) k = some v ↔ (k, v) ∈ entries := by
    rw [get?_ofList]
    constructor
    · intro hk
      exact List.mem_reverse.mp (mem_of_get? hk)
    · intro hmem
      refine get?_of_forall (fun e he hk => ?_) ?_
      · have hsame := List.inj_on_of_nodup_map h (List.mem_reverse.mp he) hmem hk
        rw [hsame]
      · exact List.mem_map_of_mem (List.mem_reverse.mpr hmem)
  rw [← hget]
  exact ⟨get?_of_mem (sorted_ofList entries), mem_of_get?⟩

/-- Entries in another order than that of a map make up the map. -/
theorem ofList_of_perm [LinearOrder κ] {m entries : List (κ × α)} (hm : Sorted m)
    (h : entries.Perm m) : ofList entries = m := by
  have hnodup : (entries.map Prod.fst).Nodup := (h.map Prod.fst).nodup_iff.mpr (nodup_keys hm)
  have hsorted := sorted_ofList entries
  apply List.Perm.eq_of_pairwise (fun a b _ _ hab hba => absurd hba (lt_asymm hab)) hsorted hm
  rw [List.perm_ext_iff_of_nodup (nodup_keys hsorted).of_map (nodup_keys hm).of_map]
  intro e
  rw [mem_ofList hnodup, h.mem_iff]

/-- The map of entries of distinct keys begins with the one of the least key. -/
theorem head?_ofList [LinearOrder κ] {entries : List (κ × α)} (h : (entries.map Prod.fst).Nodup)
    (hne : entries ≠ []) : ∃ e ∈ entries, (∀ other ∈ entries, e.1 ≤ other.1) ∧
      (ofList entries).head? = some e := by
  have hsorted := sorted_ofList entries
  have hmem := fun e => mem_ofList h (e := e)
  cases hm : ofList entries with
  | nil =>
    obtain ⟨e, he⟩ := List.exists_mem_of_ne_nil entries hne
    rw [← hmem e, hm] at he
    cases he
  | cons first rest =>
    rw [hm] at hsorted hmem
    refine ⟨first, (hmem first).mp List.mem_cons_self, fun other hother => ?_, rfl⟩
    rcases List.mem_cons.mp ((hmem other).mpr hother) with rfl | hrest
    · exact le_refl _
    · exact le_of_lt ((List.pairwise_cons.mp hsorted).1 other hrest)

theorem sorted_eraseP [LT κ] {m : List (κ × α)} (h : Sorted m) (p : κ → Bool) :
    Sorted (eraseP m p) :=
  List.Pairwise.filter _ h

end Assoc

/-! ## Ordered maps -/

/-- A map from `κ` to `α`, its entries in strictly increasing key order. -/
structure OrdMap (κ α : Type) [LinearOrder κ] where
  entries : List (κ × α)
  sorted : Assoc.Sorted entries
deriving DecidableEq

namespace OrdMap

variable [LinearOrder κ]

/-- The map with no entry. -/
def empty : OrdMap κ α := ⟨[], List.Pairwise.nil⟩

instance : Inhabited (OrdMap κ α) := ⟨empty⟩

def get? (m : OrdMap κ α) (k : κ) : Option α := Assoc.get? m.entries k

def insert (m : OrdMap κ α) (k : κ) (v : α) : OrdMap κ α :=
  ⟨Assoc.insert m.entries k v, Assoc.sorted_insert m.sorted k v⟩

def erase (m : OrdMap κ α) (k : κ) : OrdMap κ α :=
  ⟨Assoc.eraseP m.entries (decide <| · = k), Assoc.sorted_eraseP m.sorted _⟩

/-- `m` without the keys in `s`. -/
def eraseAll (m : OrdMap κ α) (s : Finset κ) : OrdMap κ α :=
  ⟨Assoc.eraseP m.entries (decide <| · ∈ s), Assoc.sorted_eraseP m.sorted _⟩

/-- The entries that `p` holds of. -/
def filter (m : OrdMap κ α) (p : κ × α → Bool) : OrdMap κ α :=
  ⟨m.entries.filter p, List.Pairwise.filter _ m.sorted⟩

/-- The entry with the least key. -/
def first? (m : OrdMap κ α) : Option (κ × α) := m.entries.head?

def size (m : OrdMap κ α) : Nat := m.entries.length

@[simp] theorem get?_empty (k : κ) : (empty : OrdMap κ α).get? k = none := rfl

@[simp] theorem get?_insert (m : OrdMap κ α) (k j : κ) (v : α) :
    (m.insert k v).get? j = if k = j then some v else m.get? j :=
  Assoc.get?_insert m.entries k j v

@[simp] theorem get?_erase (m : OrdMap κ α) (k j : κ) :
    (m.erase k).get? j = if j = k then none else m.get? j := by
  simp [erase, get?, Assoc.get?_eraseP]

@[simp] theorem get?_eraseAll (m : OrdMap κ α) (s : Finset κ) (j : κ) :
    (m.eraseAll s).get? j = if j ∈ s then none else m.get? j := by
  simp [eraseAll, get?, Assoc.get?_eraseP]

@[simp] theorem get?_filter (m : OrdMap κ α) (p : κ × α → Bool) (j : κ) :
    (m.filter p).get? j = (m.get? j).filter fun v => p (j, v) :=
  Assoc.get?_filter (Assoc.nodup_keys m.sorted) p j

theorem get?_of_filter {m : OrdMap κ α} {p : κ × α → Bool} {j : κ} {v : α}
    (h : (m.filter p).get? j = some v) : m.get? j = some v ∧ p (j, v) := by
  rw [get?_filter, Option.filter_eq_some_iff] at h
  exact h

theorem ext_get? {m n : OrdMap κ α} (h : ∀ k, m.get? k = n.get? k) : m = n := by
  obtain ⟨l, hl⟩ := m
  obtain ⟨l', hl'⟩ := n
  obtain rfl : l = l' := Assoc.ext_get? hl hl' h
  rfl

theorem get?_of_first? {m : OrdMap κ α} {k : κ} {v : α} (h : m.first? = some (k, v)) :
    m.get? k = some v :=
  Assoc.get?_of_mem m.sorted (List.mem_of_head? h)

/-- No key is below the first entry's. -/
theorem first?_le {m : OrdMap κ α} {e : κ × α} (h : m.first? = some e) {j : κ} {w : α}
    (hj : m.get? j = some w) : e.1 ≤ j := by
  obtain ⟨l, hl⟩ : ∃ l, m.entries = e :: l := List.head?_eq_some_iff.mp h
  have hm := m.sorted
  rw [hl] at hm
  have hmem := Assoc.mem_of_get? hj
  rw [hl] at hmem
  rcases List.mem_cons.mp hmem with he | hmem
  · exact le_of_eq (congrArg Prod.fst he.symm)
  · exact le_of_lt ((List.pairwise_cons.mp hm).1 _ hmem)

/-- Erasing the first entry leaves one entry less. -/
theorem size_erase_first {m : OrdMap κ α} {e : κ × α} (h : m.first? = some e) :
    (m.erase e.1).size + 1 = m.size := by
  obtain ⟨l, hl⟩ : ∃ l, m.entries = e :: l := List.head?_eq_some_iff.mp h
  have hm := m.sorted
  rw [hl] at hm
  have hkeep : ∀ b ∈ l, (!decide (b.1 = e.1)) = true := fun b hb => by
    simpa using ne_of_gt ((List.pairwise_cons.mp hm).1 b hb)
  simp only [size, erase, Assoc.eraseP, hl, List.filter_cons, decide_true, Bool.not_true,
    Bool.false_eq_true, ↓reduceIte, List.filter_eq_self.mpr hkeep, List.length_cons]

theorem mem_entries {m : OrdMap κ α} {k : κ} {v : α} : (k, v) ∈ m.entries ↔ m.get? k = some v :=
  ⟨Assoc.get?_of_mem m.sorted, Assoc.mem_of_get?⟩

/-- Erasing an entry leaves fewer. -/
theorem size_erase_lt {m : OrdMap κ α} {k : κ} {v : α} (h : m.get? k = some v) :
    (m.erase k).size < m.size :=
  List.length_filter_lt_length_iff_exists.mpr ⟨(k, v), mem_entries.mpr h, by simp⟩

theorem size_filter_le (m : OrdMap κ α) (p : κ × α → Bool) : (m.filter p).size ≤ m.size :=
  List.length_filter_le p m.entries

theorem size_insert_le (m : OrdMap κ α) (k : κ) (v : α) : (m.insert k v).size ≤ m.size + 1 :=
  Assoc.length_insert_le m.entries k v

/-- A new value of a key that is there. -/
theorem size_insert_of_get? {m : OrdMap κ α} {k : κ} {v : α} (h : m.get? k = some v) (w : α) :
    (m.insert k w).size = m.size :=
  Assoc.length_insert_of_mem m.sorted (mem_entries.mpr h) w

/-- A new key. -/
theorem size_lt_insert {m : OrdMap κ α} {k : κ} (h : m.get? k = none) (v : α) :
    m.size < (m.insert k v).size := by
  have hself : (m.insert k v).erase k = m := by
    apply ext_get?
    intro j
    rw [get?_erase, get?_insert]
    by_cases hj : j = k
    · rw [if_pos hj, hj, h]
    · rw [if_neg hj, if_neg (Ne.symm hj)]
  have hlt := size_erase_lt (m := m.insert k v) (k := k) (v := v) (by simp)
  rwa [hself] at hlt

end OrdMap

end McpgSql.Library
