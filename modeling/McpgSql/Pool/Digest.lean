import Mathlib.Algebra.GroupWithZero.Nat
import Mathlib.Data.List.Perm.Basic
import Mathlib.Data.List.Sort
import McpgSql.Library.Records
import McpgSql.Params

/-!
# The digest of a credential bundle

`digest_credential_bundle` hashes the pairs of a bundle in the order of their
field names, each as a line `field=value`. Nothing in a value is escaped, so a
value with a line break may read as further lines.

* `digest_own_iff`: which bundles share their digest with no other bundle;
* `digest_own_among_iff`: which share it with no other bundle of the same fields.
-/

namespace McpgSql.Pool

open Library

variable {δ : Type}

/-- The pairs in the order of their field names; pairs of one name keep theirs. -/
def sortPairs (pairs : List (String × String)) : List (String × String) :=
  pairs.insertionSort fun a b => a.1 ≤ b.1

/-- The bytes given to the hasher. -/
def bundleBytes (pairs : List (String × String)) : List UInt8 :=
  (sortPairs pairs).flatMap fun p => utf8 p.1 ++ '='.toUInt8 :: (utf8 p.2 ++ ['\n'.toUInt8])

/-- The digest of the pairs `(field, value)`. -/
def digestCredentialBundle (blake3 : List UInt8 → δ) (pairs : List (String × String)) : δ :=
  blake3 (bundleBytes pairs)

/-! ## Lines -/

/-- A pair as the characters of its line. -/
def line (p : String × String) : List Char × List Char := (p.1.toList, p.2.toList)

/-- The lines of a bundle. -/
def lines (pairs : List (String × String)) : List (List Char × List Char) :=
  (sortPairs pairs).map line

theorem line_injective : Function.Injective line := fun a b h => by
  simp only [line, Prod.mk.injEq, String.toList_inj] at h
  exact Prod.ext h.1 h.2

/-- The pair of a line. -/
def ofLine (l : List Char × List Char) : String × String :=
  (String.ofList l.1, String.ofList l.2)

@[simp] theorem line_ofLine (l : List Char × List Char) : line (ofLine l) = l := by
  simp [line, ofLine]

theorem bundleBytes_eq_utf8 (pairs : List (String × String)) :
    bundleBytes pairs = utf8 (String.ofList (records '=' '\n' (lines pairs))) := by
  rw [bundleBytes, lines]
  induction sortPairs pairs with
  | nil => rfl
  | cons p pairs ih =>
    have hcons : ∀ (c : Char) (l : List Char), utf8 (String.ofList (c :: l)) =
        String.utf8EncodeChar c ++ utf8 (String.ofList l) := by
      intro c l
      simp [utf8_eq_flatMap]
    have happ : ∀ a b : List Char, utf8 (String.ofList (a ++ b)) =
        utf8 (String.ofList a) ++ utf8 (String.ofList b) := by
      intro a b
      rw [String.ofList_append, utf8_append]
    rw [List.flatMap_cons, ih, List.map_cons, line, records, happ, hcons, happ, hcons,
      String.ofList_toList, String.ofList_toList,
      show String.utf8EncodeChar '=' = ['='.toUInt8] by decide,
      show String.utf8EncodeChar '\n' = ['\n'.toUInt8] by decide]
    simp

/-- Bundles have one digest when their lines make one text. -/
theorem digest_eq_iff {blake3 : List UInt8 → δ} (hinj : Function.Injective blake3)
    {a b : List (String × String)} :
    digestCredentialBundle blake3 a = digestCredentialBundle blake3 b ↔
      records '=' '\n' (lines a) = records '=' '\n' (lines b) := by
  rw [digestCredentialBundle, digestCredentialBundle, hinj.eq_iff, bundleBytes_eq_utf8,
    bundleBytes_eq_utf8, utf8_inj, String.ofList_inj]

/-! ## Orders of the pairs -/

theorem sortPairs_perm (pairs : List (String × String)) : (sortPairs pairs).Perm pairs :=
  List.perm_insertionSort _ _

theorem sortPairs_pairwise (pairs : List (String × String)) :
    (sortPairs pairs).Pairwise fun a b => a.1 ≤ b.1 :=
  List.pairwise_insertionSort _ _

/-- Pairs of distinct names have one order by name. -/
theorem eq_of_sorted {a b : List (String × String)} (hn : (a.map Prod.fst).Nodup)
    (ha : a.Pairwise fun x y => x.1 ≤ y.1) (hb : b.Pairwise fun x y => x.1 ≤ y.1)
    (h : a.Perm b) : a = b := by
  refine List.Perm.eq_of_pairwise (fun x y hx hy hxy hyx => ?_) ha hb h
  exact List.inj_on_of_nodup_map hn hx (h.mem_iff.mpr hy) (le_antisymm hxy hyx)

theorem sortPairs_of_sorted {a : List (String × String)}
    (ha : a.Pairwise fun x y => x.1 ≤ y.1) : sortPairs a = a :=
  ha.insertionSort_eq

/-- A bundle of distinct names is its lines, up to the order of its pairs. -/
theorem perm_iff_lines {a b : List (String × String)} (hn : (a.map Prod.fst).Nodup) :
    a.Perm b ↔ lines a = lines b := by
  constructor
  · intro h
    have hsort : sortPairs a = sortPairs b := by
      refine eq_of_sorted ?_ (sortPairs_pairwise a) (sortPairs_pairwise b)
        (((sortPairs_perm a).trans h).trans (sortPairs_perm b).symm)
      exact ((sortPairs_perm a).map Prod.fst).nodup_iff.mpr hn
    rw [lines, lines, hsort]
  · intro h
    have hsort : sortPairs a = sortPairs b := List.map_injective_iff.mpr line_injective h
    have hb := sortPairs_perm b
    rw [← hsort] at hb
    exact (sortPairs_perm a).symm.trans hb

/-! ## Which bundles have a digest of their own -/

/-- The digest of `a` is one of `a` only, among the bundles `b` that `p` holds of. -/
def OwnDigest (blake3 : List UInt8 → δ) (p : List (String × String) → Prop)
    (a : List (String × String)) : Prop :=
  ∀ b, p b → (digestCredentialBundle blake3 a = digestCredentialBundle blake3 b ↔ a.Perm b)

/-- The pairs of a bundle have distinct field names. -/
def Distinct (pairs : List (String × String)) : Prop := (pairs.map Prod.fst).Nodup

instance (pairs : List (String × String)) : Decidable (Distinct pairs) :=
  inferInstanceAs (Decidable (List.Nodup _))

/-- Neither the name nor the value of a pair holds a `=`. -/
def NoMark (p : String × String) : Prop := '=' ∉ p.1.toList ∧ '=' ∉ p.2.toList

theorem lines_ofLines (rs : List (List Char × List Char))
    (h : (rs.map ofLine).Pairwise fun x y => x.1 ≤ y.1) : lines (rs.map ofLine) = rs := by
  rw [lines, sortPairs_of_sorted h, List.map_map]
  simp [Function.comp_def]

/-- The text of a line or more ends with a line break. -/
theorem records_eq_concat (r : List Char × List Char) (rs : List (List Char × List Char)) :
    ∃ x, records '=' '\n' (r :: rs) = x ++ ['\n'] := by
  induction rs generalizing r with
  | nil =>
    obtain ⟨k, v⟩ := r
    exact ⟨k ++ '=' :: v, by simp [records]⟩
  | cons s rs ih =>
    obtain ⟨k, v⟩ := r
    obtain ⟨x, hx⟩ := ih s
    exact ⟨k ++ '=' :: (v ++ '\n' :: x), by rw [records, hx]; simp⟩

/-- Two lines or more also make one line, and so does a line with a second `=`. -/
theorem exists_line_eq {rs : List (List Char × List Char)} {k v : List Char}
    (h : rs ≠ [] ∨ '=' ∈ k ∨ '=' ∈ v) :
    ∃ j w, records '=' '\n' [(j, w)] = records '=' '\n' ((k, v) :: rs) ∧
      [(j, w)] ≠ (k, v) :: rs := by
  by_cases hrs : rs = []
  · subst hrs
    rcases h.resolve_left (by simp) with hk | hv
    · obtain ⟨x, y, rfl⟩ := List.append_of_mem hk
      exact ⟨x, y ++ '=' :: v, by simp [records], by simp⟩
    · obtain ⟨x, y, rfl⟩ := List.append_of_mem hv
      exact ⟨k ++ '=' :: x, y, by simp [records], by simp⟩
  · obtain ⟨s, rs, rfl⟩ := List.exists_cons_of_ne_nil hrs
    obtain ⟨x, hx⟩ := records_eq_concat s rs
    exact ⟨k, v ++ '\n' :: x, by simp [records, ← hx, List.append_assoc], by simp⟩

theorem count_records (rs : List (List Char × List Char)) :
    (records '=' '\n' rs).count '=' =
      rs.length + (rs.map fun r => r.1.count '=' + r.2.count '=').sum := by
  induction rs with
  | nil => rfl
  | cons r rs ih =>
    obtain ⟨k, v⟩ := r
    simp only [records, List.count_append, List.count_cons, ih, List.length_cons, List.map_cons,
      List.sum_cons]
    simp only [beq_self_eq_true, if_true, show ('\n' == '=') = false by decide]
    simp only [Bool.false_eq_true, if_false]
    omega

/-- A line with one `=` is no other lines. -/
theorem records_line_inj {k v : List Char} (hk : '=' ∉ k) (hv : '=' ∉ v)
    {rs : List (List Char × List Char)} (h : records '=' '\n' [(k, v)] = records '=' '\n' rs) :
    [(k, v)] = rs := by
  have hcount := congrArg (List.count '=') h
  rw [count_records, count_records] at hcount
  simp only [List.length_singleton, List.map_cons, List.map_nil, List.sum_cons, List.sum_nil,
    List.count_eq_zero_of_not_mem hk, List.count_eq_zero_of_not_mem hv] at hcount
  cases rs with
  | nil => simp [records] at h
  | cons r rs =>
    obtain ⟨j, w⟩ := r
    cases rs with
    | nil =>
      simp only [List.length_singleton, List.map_cons, List.map_nil, List.sum_cons, List.sum_nil]
        at hcount
      have hj : '=' ∉ j := List.count_eq_zero.mp (by omega)
      obtain ⟨hkj, hvw⟩ := cut_inj hk hj h
      rw [hkj, List.append_cancel_right hvw]
    | cons r rs =>
      simp only [List.length_cons] at hcount
      omega

/-- Whether a digest is one bundle's own depends on the readings of its text. -/
theorem ownDigest_iff_lines {blake3 : List UInt8 → δ} (hinj : Function.Injective blake3)
    {p : List (String × String) → Prop} {a : List (String × String)} (hn : Distinct a) :
    OwnDigest blake3 p a ↔
      ∀ b, p b → records '=' '\n' (lines b) = records '=' '\n' (lines a) → lines b = lines a := by
  refine forall_congr' fun b => imp_congr_right fun hb => ?_
  rw [digest_eq_iff hinj, perm_iff_lines hn]
  constructor
  · intro h htext
    exact (h.mp htext.symm).symm
  · intro h
    exact ⟨fun htext => (h htext.symm).symm, fun hlines => by rw [hlines]⟩

/-- A bundle shares its digest with no other one exactly when it is one pair at
most, and has no `=` in it. -/
theorem digest_own_iff {blake3 : List UInt8 → δ} (hinj : Function.Injective blake3)
    {a : List (String × String)} (hn : Distinct a) :
    OwnDigest blake3 Distinct a ↔ a.length ≤ 1 ∧ ∀ p ∈ a, NoMark p := by
  have hlength : (lines a).length = a.length := by simp [lines, (sortPairs_perm a).length_eq]
  have hmem : ∀ p, p ∈ a ↔ line p ∈ lines a := fun p => by
    rw [lines, List.mem_map_of_injective line_injective, (sortPairs_perm a).mem_iff]
  rw [ownDigest_iff_lines hinj hn]
  constructor
  · intro h
    by_contra hcond
    obtain ⟨k, v, rs, hlines⟩ : ∃ k v rs, lines a = (k, v) :: rs := by
      match hl : lines a with
      | (k, v) :: rs => exact ⟨k, v, rs, rfl⟩
      | [] =>
        rw [hl] at hlength
        have ha : a = [] := List.length_eq_zero_iff.mp hlength.symm
        exact (hcond ⟨by simp [ha], by simp [ha]⟩).elim
    -- The bundle's text is also the text of one line.
    obtain ⟨j, w, htext, hne⟩ : ∃ j w, records '=' '\n' [(j, w)] =
        records '=' '\n' ((k, v) :: rs) ∧ [(j, w)] ≠ (k, v) :: rs := by
      refine exists_line_eq ?_
      by_contra hno
      push Not at hno
      obtain ⟨hrs, hk, hv⟩ := hno
      rw [hlines, hrs] at hlength hmem
      refine hcond ⟨hlength.symm.le, fun p hp => ?_⟩
      have hp : line p = (k, v) := by simpa using (hmem p).mp hp
      rw [NoMark, show p.1.toList = k from congrArg Prod.fst hp,
        show p.2.toList = v from congrArg Prod.snd hp]
      exact ⟨hk, hv⟩
    have hb := lines_ofLines [(j, w)] (List.pairwise_singleton _ _)
    refine hne ?_
    rw [← hlines, ← hb]
    exact h _ (by simp [Distinct]) (by rw [hb, hlines, htext])
  · rintro ⟨hle, hmark⟩ b - htext
    match hl : lines a with
    | [] =>
      rw [hl] at htext
      cases hb : lines b with
      | nil => rfl
      | cons r rs =>
        rw [hb] at htext
        simp [records] at htext
    | [(k, v)] =>
      have hp : NoMark (ofLine (k, v)) := hmark _ ((hmem _).mpr (by simp [hl]))
      rw [hl] at htext
      refine (records_line_inj ?_ ?_ htext.symm).symm
      · simpa [ofLine] using hp.1
      · simpa [ofLine] using hp.2
    | _ :: _ :: _ =>
      rw [hl] at hlength
      simp only [List.length_cons] at hlength
      omega

/-- The names of a bundle's lines. -/
theorem lines_names (a : List (String × String)) :
    (lines a).map Prod.fst = ((sortPairs a).map Prod.fst).map String.toList := by
  simp [lines, line, Function.comp_def]

theorem sortPairs_names {a b : List (String × String)}
    (h : (b.map Prod.fst).Perm (a.map Prod.fst)) :
    (sortPairs b).map Prod.fst = (sortPairs a).map Prod.fst := by
  refine List.Perm.eq_of_pairwise (fun x y _ _ hxy hyx => le_antisymm hxy hyx)
    (List.pairwise_map.mpr (sortPairs_pairwise b)) (List.pairwise_map.mpr (sortPairs_pairwise a)) ?_
  exact ((sortPairs_perm b).map _).trans (h.trans ((sortPairs_perm a).map _).symm)

/-- No value holds a line break followed by `field=` of its own field or of the one
after it; only the first field's own may stand in its value. -/
def SeparateLines (a : List (String × String)) : Prop := (lines a).IsChain (Separate '=' '\n')

instance (a : List (String × String)) : Decidable (SeparateLines a) :=
  inferInstanceAs (Decidable (List.IsChain _ _))

/-- A bundle of plain field names shares its digest with no other one of the same
fields exactly when its lines are separate. -/
theorem digest_own_among_iff {blake3 : List UInt8 → δ} (hinj : Function.Injective blake3)
    {a : List (String × String)} (hn : Distinct a)
    (hplain : ∀ p ∈ a, Plain '=' '\n' p.1.toList) :
    OwnDigest blake3 (fun b => (b.map Prod.fst).Perm (a.map Prod.fst)) a ↔ SeparateLines a := by
  have hlines : ∀ r ∈ lines a, Plain '=' '\n' r.1 := fun r hr => by
    obtain ⟨p, hp, rfl⟩ := List.mem_map.mp hr
    exact hplain p ((sortPairs_perm a).mem_iff.mp hp)
  rw [ownDigest_iff_lines hinj hn, SeparateLines, ← records_unique_iff (by decide) hlines]
  constructor
  · intro h ss hss htext
    -- Lines of the same names are the lines of a bundle.
    have hnames : (ss.map ofLine).map Prod.fst = (sortPairs a).map Prod.fst := by
      rw [lines_names] at hss
      have := congrArg (List.map String.ofList) hss
      simpa [ofLine, Function.comp_def] using this
    have hsorted : (ss.map ofLine).Pairwise fun x y => x.1 ≤ y.1 := by
      refine List.pairwise_map.mp ?_
      rw [hnames]
      exact List.pairwise_map.mpr (sortPairs_pairwise a)
    have hb := lines_ofLines ss hsorted
    rw [← hb] at htext ⊢
    exact h _ (hnames ▸ (sortPairs_perm a).map Prod.fst) htext
  · intro h b hb htext
    exact h _ (by rw [lines_names, lines_names, sortPairs_names hb]) htext

end McpgSql.Pool
