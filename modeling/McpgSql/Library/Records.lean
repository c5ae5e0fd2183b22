import Mathlib.Data.List.Chain
import Mathlib.Data.List.Infix

/-!
# Texts of records

The text of a list of records, each a name, a mark `e`, a value and an end `d`,
written one after the other with nothing escaped. Names hold neither `e` nor
`d`; values hold anything, so a text may have several readings:

* `records_inj`: there is one reading where no value holds the end of a record
  followed by the name and the mark of another;
* `records_unique_iff`: among the records of the same names, a text has one
  reading exactly where each record but the first has neither in its own value
  nor in the one before it an end followed by its own name and mark.
-/

namespace McpgSql.Library

variable {α : Type}

/-! ## Cuts -/

/-- Two readings of one text are the same when neither goes on where the other
one stops. -/
theorem append_inj_of_stop {a b s t : List α} (h : a ++ s = b ++ t)
    (hb : ∀ c z, b = a ++ c :: z → s = c :: z ++ t → False)
    (ha : ∀ c z, a = b ++ c :: z → t = c :: z ++ s → False) : a = b ∧ s = t := by
  rcases List.append_eq_append_iff.mp h with ⟨z, hz, hs⟩ | ⟨z, hz, ht⟩
  · cases z with
    | nil => exact ⟨by simpa using hz.symm, by simpa using hs⟩
    | cons c z => exact (hb c z hz hs).elim
  · cases z with
    | nil => exact ⟨by simpa using hz, by simpa using ht.symm⟩
    | cons c z => exact (ha c z hz ht).elim

/-- The same for readings that stop at a `d`. -/
theorem cut_inj_of_stop {d : α} {a b s t : List α} (h : a ++ d :: s = b ++ d :: t)
    (hb : ∀ z, b = a ++ d :: z → s = z ++ d :: t → False)
    (ha : ∀ z, a = b ++ d :: z → t = z ++ d :: s → False) : a = b ∧ s = t := by
  have hcut := append_inj_of_stop h
    (fun c z hz hs => by
      obtain ⟨rfl, hst⟩ := List.cons.inj hs
      exact hb z hz hst)
    (fun c z hz ht => by
      obtain ⟨rfl, hts⟩ := List.cons.inj ht
      exact ha z hz hts)
  exact ⟨hcut.1, (List.cons.inj hcut.2).2⟩

/-- What stands before the first `d` is determined. -/
theorem cut_inj {d : α} {a b s t : List α} (ha : d ∉ a) (hb : d ∉ b)
    (h : a ++ d :: s = b ++ d :: t) : a = b ∧ s = t :=
  cut_inj_of_stop h (fun z hz _ => hb (by simp [hz])) (fun z hz _ => ha (by simp [hz]))

/-- A `d` in a text is not in what is known to have none. -/
theorem eq_append_of_not_mem {d : α} {k a u s : List α} (hk : d ∉ k)
    (h : k ++ a = u ++ d :: s) : ∃ z, u = k ++ z ∧ a = z ++ d :: s := by
  rcases List.append_eq_append_iff.mp h with ⟨z, hz, ha⟩ | ⟨z, hz, hs⟩
  · exact ⟨z, hz, ha⟩
  · cases z with
    | nil => exact ⟨[], by simpa using hz.symm, by simpa using hs.symm⟩
    | cons c z => exact (hk (by rw [hz, (List.cons.inj hs).1]; simp)).elim

/-! ## Records -/

/-- The text of the records `rs`. -/
def records (e d : α) : List (List α × List α) → List α
  | [] => []
  | (k, v) :: rs => k ++ e :: (v ++ d :: records e d rs)

/-- A name that holds neither the mark nor the end. -/
def Plain (e d : α) (k : List α) : Prop := e ∉ k ∧ d ∉ k

instance [DecidableEq α] (e d : α) (k : List α) : Decidable (Plain e d k) :=
  inferInstanceAs (Decidable (_ ∧ _))

variable {e d : α}

theorem not_mem_label (hed : e ≠ d) {k : List α} (hk : Plain e d k) : d ∉ k ++ [e] := by
  simp [hk.2, hed.symm]

theorem records_cons (k v : List α) (rs : List (List α × List α)) :
    records e d ((k, v) :: rs) = (k ++ [e]) ++ (v ++ d :: records e d rs) := by
  simp [records]

/-- What stands before an end in the text of `rs` begins with the name and the
mark of the first record. -/
theorem head_of_records (hed : e ≠ d) {rs : List (List α × List α)} {z s : List α}
    (hrs : ∀ r ∈ rs, Plain e d r.1) (h : records e d rs = z ++ d :: s) :
    ∃ r ∈ rs.head?, r.1 ++ [e] <+: z := by
  cases rs with
  | nil => simp [records] at h
  | cons r rs =>
    obtain ⟨k, w⟩ := r
    rw [records_cons] at h
    obtain ⟨x, hx, -⟩ :=
      eq_append_of_not_mem (not_mem_label hed (hrs (k, w) List.mem_cons_self)) h
    exact ⟨(k, w), rfl, x, hx.symm⟩

theorem infix_of_start {k v z : List α} (h : k <+: z) : d :: k <:+: v ++ d :: z := by
  obtain ⟨x, rfl⟩ := h
  exact ⟨v, x, by simp⟩

/-- No value of the records `rs` holds the end of a record followed by the name
and the mark of one of `ss`. -/
def Apart (e d : α) (rs ss : List (List α × List α)) : Prop :=
  ∀ r ∈ rs, ∀ s ∈ ss, ¬d :: (s.1 ++ [e]) <:+: r.2

instance [DecidableEq α] (e d : α) (rs ss : List (List α × List α)) : Decidable (Apart e d rs ss) :=
  inferInstanceAs (Decidable (∀ r ∈ rs, ∀ s ∈ ss, ¬d :: (s.1 ++ [e]) <:+: r.2))

theorem Apart.tail {r s : List α × List α} {rs ss : List (List α × List α)}
    (h : Apart e d (r :: rs) (s :: ss)) : Apart e d rs ss :=
  fun r' hr s' hs => h r' (List.mem_cons_of_mem _ hr) s' (List.mem_cons_of_mem _ hs)

/-- One text has one reading as records whose values are apart from the names. -/
theorem records_inj (hed : e ≠ d) {rs ss : List (List α × List α)}
    (hrs : ∀ r ∈ rs, Plain e d r.1) (hss : ∀ s ∈ ss, Plain e d s.1)
    (hr : Apart e d rs ss) (hs : Apart e d ss rs) (h : records e d rs = records e d ss) :
    rs = ss := by
  induction rs generalizing ss with
  | nil =>
    cases ss with
    | nil => rfl
    | cons s ss => simp [records] at h
  | cons r rs ih =>
    cases ss with
    | nil => simp [records] at h
    | cons s ss =>
      obtain ⟨k, v⟩ := r
      obtain ⟨j, w⟩ := s
      obtain ⟨hk, h⟩ :=
        cut_inj (hrs (k, v) List.mem_cons_self).1 (hss (j, w) List.mem_cons_self).1 h
      have hrs' := fun r hr => hrs r (List.mem_cons_of_mem _ hr)
      have hss' := fun s hs => hss s (List.mem_cons_of_mem _ hs)
      -- A value that is longer in one reading holds the next record of the other.
      obtain ⟨hvw, htext⟩ := cut_inj_of_stop h
        (fun z hz htext => by
          obtain ⟨r, hr', hpre⟩ := head_of_records hed hrs' htext
          exact hs (j, w) List.mem_cons_self r
            (List.mem_cons_of_mem _ (List.mem_of_head? hr')) (hz ▸ infix_of_start hpre))
        (fun z hz htext => by
          obtain ⟨s, hs', hpre⟩ := head_of_records hed hss' htext
          exact hr (k, v) List.mem_cons_self s
            (List.mem_cons_of_mem _ (List.mem_of_head? hs')) (hz ▸ infix_of_start hpre))
      rw [show k = j from hk, hvw, ih hrs' hss' hr.tail hs.tail htext]

/-! ## Records of the same names -/

/-- Neither the value of `s` nor the one of the record `r` before it holds the
end of a record followed by the name and the mark of `s`. -/
def Separate (e d : α) (r s : List α × List α) : Prop :=
  ¬d :: (s.1 ++ [e]) <:+: r.2 ∧ ¬d :: (s.1 ++ [e]) <:+: s.2

instance [DecidableEq α] (e d : α) (r s : List α × List α) : Decidable (Separate e d r s) :=
  inferInstanceAs (Decidable (_ ∧ _))

theorem append_end {a b : List α} {z : List α} (h : a ++ [d] = b ++ d :: z) :
    (z = [] ∧ a = b) ∨ ∃ z', z = z' ++ [d] ∧ a = b ++ d :: z' := by
  rcases List.eq_nil_or_concat z with rfl | ⟨z', c, rfl⟩
  · exact .inl ⟨rfl, by simpa using h⟩
  · rw [List.concat_eq_append, show b ++ d :: (z' ++ [c]) = (b ++ d :: z') ++ [c] by simp] at h
    obtain ⟨ha, hc⟩ := List.append_inj' h rfl
    obtain rfl : d = c := (List.cons.inj hc).1
    exact .inr ⟨z', by simp, ha⟩

/-- Where no value holds its own name after an end, the records of another
reading do not start later. -/
theorem records_suffix (hed : e ≠ d) {rs ss : List (List α × List α)} {p q : List α}
    (hn : rs.map Prod.fst = ss.map Prod.fst) (hrs : ∀ r ∈ rs, Plain e d r.1)
    (hown : ∀ r ∈ rs, ¬d :: (r.1 ++ [e]) <:+: r.2)
    (h : p ++ d :: records e d rs = q ++ d :: records e d ss) :
    records e d rs <:+ records e d ss := by
  induction rs generalizing ss p q with
  | nil => exact List.nil_suffix
  | cons r rs ih =>
    cases ss with
    | nil => simp at hn
    | cons s ss =>
      obtain ⟨k, v⟩ := r
      obtain ⟨j, w⟩ := s
      obtain ⟨rfl, hn'⟩ : k = j ∧ rs.map Prod.fst = ss.map Prod.fst := by simpa using hn
      have hkd := not_mem_label hed (hrs (k, v) List.mem_cons_self)
      -- The records after these do not start later: `hz`.
      obtain ⟨z, hz⟩ := ih (p := p ++ d :: (k ++ e :: v)) (q := q ++ d :: (k ++ e :: w)) hn'
        (fun r hr => hrs r (List.mem_cons_of_mem _ hr))
        (fun r hr => hown r (List.mem_cons_of_mem _ hr)) (by simpa [records] using h)
      rcases List.suffix_or_suffix_of_suffix
        (show records e d ((k, v) :: rs) <:+ p ++ d :: records e d ((k, v) :: rs) from
          ⟨p ++ [d], by simp⟩)
        (h ▸ ⟨q ++ [d], by simp⟩ : records e d ((k, w) :: ss) <:+ _) with hsuf | ⟨x, hx⟩
      · exact hsuf
      -- Otherwise the other reading starts inside the value `v`, after an end.
      · have hpq : p ++ d :: x = q ++ [d] := by
          have : (p ++ d :: x) ++ records e d ((k, w) :: ss) =
              (q ++ [d]) ++ records e d ((k, w) :: ss) := by
            simpa [hx] using h
          exact List.append_cancel_right this
        rcases append_end hpq.symm with ⟨rfl, -⟩ | ⟨x, rfl, -⟩
        · exact ⟨[], by simpa using hx.symm⟩
        · rw [records_cons, records_cons, ← hz] at hx
          have hv : (k ++ [e] ++ v) ++ [d] = (x ++ d :: (k ++ [e] ++ w)) ++ d :: z := by
            have : ((k ++ [e] ++ v) ++ [d]) ++ records e d rs =
                ((x ++ d :: (k ++ [e] ++ w)) ++ d :: z) ++ records e d rs := by
              simpa using hx.symm
            exact List.append_cancel_right this
          obtain ⟨y, hy⟩ : ∃ y, (k ++ [e]) ++ v = x ++ d :: (k ++ [e] ++ y) := by
            rcases append_end hv with ⟨-, hv⟩ | ⟨z', -, hv⟩
            · exact ⟨w, hv⟩
            · exact ⟨w ++ d :: z', by simpa using hv⟩
          obtain ⟨u, -, hu⟩ := eq_append_of_not_mem hkd hy
          exact (hown (k, v) List.mem_cons_self ⟨u, y, by simpa using hu.symm⟩).elim

theorem own_of_separate {r : List α × List α} {rs : List (List α × List α)}
    (h : (r :: rs).IsChain (Separate e d)) : ∀ s ∈ rs, ¬d :: (s.1 ++ [e]) <:+: s.2 := by
  induction rs generalizing r with
  | nil => simp
  | cons s rs ih =>
    obtain ⟨hrs, h⟩ := List.isChain_cons_cons.mp h
    intro s' hs'
    rcases List.mem_cons.mp hs' with rfl | hs'
    · exact hrs.2
    · exact ih h s' hs'

/-- One text has one reading as records of the names of `rs`, when the records
of `rs` are separate. -/
theorem records_inj_of_separate (hed : e ≠ d) {rs ss : List (List α × List α)}
    (hn : rs.map Prod.fst = ss.map Prod.fst) (hrs : ∀ r ∈ rs, Plain e d r.1)
    (hsep : rs.IsChain (Separate e d)) (h : records e d rs = records e d ss) : rs = ss := by
  induction rs generalizing ss with
  | nil =>
    cases ss with
    | nil => rfl
    | cons s ss => simp at hn
  | cons r rs ih =>
    cases ss with
    | nil => simp at hn
    | cons s ss =>
      obtain ⟨k, v⟩ := r
      obtain ⟨j, w⟩ := s
      obtain ⟨rfl, hn'⟩ : k = j ∧ rs.map Prod.fst = ss.map Prod.fst := by simpa using hn
      have hrs' := fun r hr => hrs r (List.mem_cons_of_mem _ hr)
      have hss' : ∀ s ∈ ss, Plain e d s.1 := fun s hs => by
        obtain ⟨r, hr, he⟩ := List.mem_map.mp (hn' ▸ List.mem_map_of_mem (f := Prod.fst) hs)
        exact he ▸ hrs' r hr
      have hvw : v ++ d :: records e d rs = w ++ d :: records e d ss := by
        simpa [records] using h
      obtain ⟨z, hz⟩ := records_suffix hed hn' hrs' (own_of_separate hsep) hvw
      rw [← hz] at hvw
      have hcut : v ++ [d] = w ++ d :: z := by
        have : (v ++ [d]) ++ records e d rs = (w ++ d :: z) ++ records e d rs := by
          simpa using hvw
        exact List.append_cancel_right this
      rcases append_end hcut with ⟨rfl, rfl⟩ | ⟨z', rfl, rfl⟩
      · rw [ih hn' hrs' hsep.tail (by simpa using hz)]
      -- The value of `r` holds the name of the next record.
      · have hss := hz.symm.trans (List.append_assoc z' [d] _)
        obtain ⟨s, hs, hpre⟩ := head_of_records hed hss' hss
        obtain ⟨r, hr, he⟩ : ∃ r ∈ rs.head?, r.1 = s.1 := by
          have : rs.head?.map Prod.fst = ss.head?.map Prod.fst := by
            rw [← List.head?_map, ← List.head?_map, hn']
          rw [Option.mem_def.mp hs] at this
          simpa using this
        refine ((hsep.rel_head? hr).1 ?_).elim
        rw [he]
        exact infix_of_start hpre

/-- Records that are not separate have another reading of the same names. -/
theorem exists_records_eq {rs : List (List α × List α)} (h : ¬rs.IsChain (Separate e d)) :
    ∃ ss, ss.map Prod.fst = rs.map Prod.fst ∧ records e d ss = records e d rs ∧ ss ≠ rs := by
  induction rs with
  | nil => simp at h
  | cons r rs ih =>
    cases rs with
    | nil => simp at h
    | cons s rs =>
      obtain ⟨k, v⟩ := r
      obtain ⟨j, w⟩ := s
      simp only [List.isChain_cons_cons, Separate, not_and_or, not_not] at h
      rcases h with (⟨x, y, rfl⟩ | ⟨x, y, rfl⟩) | h
      · refine ⟨(k, x) :: (j, y ++ d :: (j ++ e :: w)) :: rs, by simp, ?_, ?_⟩
        · simp [records]
        · simp
      · refine ⟨(k, v ++ d :: (j ++ e :: x)) :: (j, y) :: rs, by simp, ?_, ?_⟩
        · simp [records]
        · simp
      · obtain ⟨ss, hn, hrec, hne⟩ := ih h
        exact ⟨(k, v) :: ss, by simp [hn], by simp [records, hrec], by simpa using hne⟩

/-- A text of separate records, and no other, has one reading of their names. -/
theorem records_unique_iff (hed : e ≠ d) {rs : List (List α × List α)}
    (hrs : ∀ r ∈ rs, Plain e d r.1) :
    (∀ ss, ss.map Prod.fst = rs.map Prod.fst → records e d ss = records e d rs → ss = rs) ↔
      rs.IsChain (Separate e d) := by
  constructor
  · intro h
    by_contra hsep
    obtain ⟨ss, hn, hrec, hne⟩ := exists_records_eq hsep
    exact hne (h ss hn hrec)
  · intro hsep ss hn hrec
    exact (records_inj_of_separate hed hn.symm hrs hsep hrec.symm).symm

end McpgSql.Library
