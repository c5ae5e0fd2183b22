import McpgSql.Cdc.Source
import Mathlib.Data.List.TakeWhile

/-!
# A failed receive

What an erroring `receive` leaves behind. The gap flag is taken before the
slot is read, and the message loop marks changes one at a time before it leaves
with an error, so both can be lost: `delivered` and `gap` are as before exactly
when no gap was pending and the first new change read is the one that fails
(or the slot was not read at all).
-/

namespace McpgSql.Cdc

open Library

/-- The relations that `messages` announce. -/
def announced (messages : Rows) : List Nat :=
  messages.filterMap fun row => match row.2 with
    | .relation oid _ => some oid
    | _ => none

/-- The first new change of `messages`, if there is one, names a relation that no
message before it announces. -/
def Progress.FirstNewUnannounced (p : Progress) (messages : Rows) : Prop :=
  ∀ lsn change back, messages.dropWhile (!p.isNew ·) = (lsn, change) :: back →
    ∃ oid ∈ change.oids, oid ∉ announced (messages.takeWhile (!p.isNew ·))

theorem isNew_congr {p p' : Progress} (hd : p'.delivered = p.delivered)
    (hc : p'.consumed = p.consumed) : p'.isNew = p.isNew := by
  funext row
  rw [Progress.isNew, Progress.isNew, hd, hc]

section

variable (lib : Codec) (slot : String) (max : Nat)

/-- A row that is not new keeps what `isNew` reads, and announces its relation. -/
theorem peekMessage_old {st : Peeking} {lsn : Lsn} {message : Message}
    (h : st.progress.isNew (lsn, message) = false) :
    ∃ st', peekMessage lib slot max st lsn message = .ok st' ∧
      st'.progress.delivered = st.progress.delivered ∧
      st'.progress.consumed = st.progress.consumed ∧ st'.deliveries = st.deliveries ∧
      ∀ oid, st'.relations.get? oid = none ↔
        st.relations.get? oid = none ∧ oid ∉ announced [(lsn, message)] := by
  by_cases hc : message.isChange = true
  · have hs : st.skips max lsn = true := by
      simp only [Progress.isNew, hc, Bool.true_and, Bool.and_eq_false_iff, decide_eq_false_iff_not,
        not_not, not_le] at h
      simp only [Peeking.skips, Bool.or_eq_true, decide_eq_true_eq]
      exact .inl h
    have hno : announced [(lsn, message)] = [] := by
      cases message <;> first | rfl | cases hc
    refine ⟨{ st with transaction := st.transaction ++ [lsn] }, ?_, rfl, rfl, rfl, ?_⟩
    · rw [peekMessage_change hc, peekChange, if_pos hs]
    · simp [hno]
  · cases message with
    | begin l t x => exact ⟨_, rfl, rfl, rfl, rfl, by simp [announced]⟩
    | commit e => exact ⟨_, rfl, by simp, by simp, rfl, by simp [announced]⟩
    | relation oid r =>
      refine ⟨_, rfl, rfl, rfl, rfl, fun j => ?_⟩
      by_cases hj : oid = j
      · simp [announced, hj]
      · simp [announced, hj, Ne.symm hj]
    | other => exact ⟨st, rfl, rfl, rfl, rfl, by simp [announced]⟩
    | insert | update | delete | truncate => exact absurd rfl hc

/-- Rows that are not new are passed over. -/
theorem peekLoop_old {front : Rows} {st : Peeking}
    (h : ∀ row ∈ front, st.progress.isNew row = false) :
    ∃ st', peekLoop lib slot max st front = (st', none) ∧
      st'.progress.delivered = st.progress.delivered ∧
      st'.progress.consumed = st.progress.consumed ∧ st'.deliveries = st.deliveries ∧
      ∀ oid, st'.relations.get? oid = none ↔
        st.relations.get? oid = none ∧ oid ∉ announced front := by
  induction front generalizing st with
  | nil => exact ⟨st, rfl, rfl, rfl, rfl, by simp [announced]⟩
  | cons row front ih =>
    obtain ⟨lsn, message⟩ := row
    obtain ⟨st₁, h₁, hd₁, hc₁, hv₁, hr₁⟩ := peekMessage_old lib slot max (h _ List.mem_cons_self)
    obtain ⟨st₂, h₂, hd₂, hc₂, hv₂, hr₂⟩ := ih fun row hrow =>
      (congrFun (isNew_congr hd₁ hc₁) row).trans (h row (List.mem_cons_of_mem _ hrow))
    refine ⟨st₂, by rw [peekLoop_cons, h₁]; exact h₂, hd₂.trans hd₁, hc₂.trans hc₁, hv₂.trans hv₁,
      fun oid => ?_⟩
    have happ : announced ((lsn, message) :: front) =
        announced [(lsn, message)] ++ announced front := by
      rw [announced, announced, announced, ← List.filterMap_append, List.singleton_append]
    rw [hr₂, hr₁, happ, List.mem_append, not_or, and_assoc]

/-- The loop only adds to `delivered`. -/
theorem peekLoop_delivered (st : Peeking) (messages : Rows) :
    st.progress.delivered ⊆ (peekLoop lib slot max st messages).1.progress.delivered := by
  refine peekLoop_induct (I := fun st' => st.progress.delivered ⊆ st'.progress.delivered)
    (fun _ h hm => ?_) (Finset.Subset.refl _)
  obtain ⟨_, -, -, rfl⟩ | ⟨_, -, -, rfl⟩ | ⟨e, -, rfl⟩ | ⟨-, hm⟩ := peekMessage_cases hm
  · exact h
  · exact h
  · simpa using h
  · obtain ⟨-, rfl⟩ | ⟨_, -, -, rfl⟩ := peekChange_cases hm
    · exact h
    · exact h.trans (Finset.subset_insert _ _)

/-- Without a budget no change is tried, so the loop does not fail. -/
theorem peekLoop_no_budget (st : Peeking) (messages : Rows) :
    (peekLoop lib slot 0 st messages).2 = none := by
  induction messages generalizing st with
  | nil => rfl
  | cons row messages ih =>
    obtain ⟨lsn, message⟩ := row
    rw [peekLoop_cons]
    by_cases hc : message.isChange = true
    · rw [peekMessage_change hc, peekChange, if_pos (by simp [Peeking.skips])]
      exact ih _
    · cases message with
      | begin | commit | relation | other => exact ih _
      | insert | update | delete | truncate => exact absurd rfl hc

/-- The first new change is tried when there is a budget. -/
theorem skips_of_isNew {st : Peeking} {p : Progress} {lsn : Lsn} {message : Message}
    (hn : p.isNew (lsn, message) = true) (hd : st.progress.delivered = p.delivered)
    (hc : st.progress.consumed = p.consumed) (hv : st.deliveries = []) (hmax : max ≠ 0) :
    st.skips max lsn = false := by
  simp only [Progress.isNew, Bool.and_eq_true, decide_eq_true_eq] at hn
  simp only [Peeking.skips, hd, hc, hv, List.length_nil, Bool.or_eq_false_iff,
    decide_eq_false_iff_not]
  exact ⟨⟨not_lt.mpr hn.1.2, hn.2⟩, by omega⟩

variable {lib slot max}

/-- A failing loop leaves `delivered` as it was exactly when it fails at the
first new change. -/
theorem peekLoop_failed_iff {p : Progress} {messages : Rows} {st : Peeking} {e : String}
    (h : peekLoop lib slot max { progress := p } messages = (st, some e)) :
    st.progress.delivered = p.delivered ↔ p.FirstNewUnannounced messages := by
  have hmax : max ≠ 0 := by
    rintro rfl
    have := peekLoop_no_budget lib slot { progress := p } messages
    rw [h] at this; cases this
  have hfront : ∀ row ∈ messages.takeWhile (!p.isNew ·), p.isNew row = false := fun row hrow => by
    simpa using (List.mem_takeWhile_imp hrow)
  obtain ⟨st₁, h₁, hd₁, hc₁, hv₁, hr₁⟩ := peekLoop_old lib slot max (show ∀ row ∈ _, ({ progress := p } : Peeking).progress.isNew row = false from hfront)
  have hsplit := List.takeWhile_append_dropWhile (p := (!p.isNew ·)) (l := messages)
  rw [← hsplit, peekLoop_append, h₁] at h
  simp only at h
  unfold Progress.FirstNewUnannounced
  cases hdrop : messages.dropWhile (!p.isNew ·) with
  | nil =>
    rw [hdrop] at h
    cases h
  | cons row back =>
    obtain ⟨lsn, change⟩ := row
    have hn : p.isNew (lsn, change) = true := by
      have := List.head?_dropWhile_not (!p.isNew ·) messages
      rw [hdrop] at this
      simpa using this
    have hn' := hn
    simp only [Progress.isNew, Bool.and_eq_true, decide_eq_true_eq] at hn'
    have hs := skips_of_isNew max hn hd₁ hc₁ hv₁ hmax
    rw [hdrop, peekLoop_cons, peekMessage_change hn'.1.1, peekChange,
      if_neg (by rw [hs]; exact Bool.false_ne_true)] at h
    have hok := changeEvents_isOk lib slot lsn st₁.begin st₁.relations change
    cases hev : changeEvents lib slot lsn st₁.begin st₁.relations change with
    | error err =>
      rw [hev] at h hok
      -- The failing change names a relation that is not known, and none was known at the start.
      obtain ⟨oid, hoid, hnone⟩ : ∃ oid ∈ change.oids, st₁.relations.get? oid = none := by
        have : ¬ ∀ oid ∈ change.oids, (st₁.relations.get? oid).isSome = true := by
          rw [← List.all_eq_true, ← hok]; exact Bool.false_ne_true
        push Not at this
        simpa using this
      cases h
      refine ⟨fun _ l c b hcons => ?_, fun _ => hd₁⟩
      cases hcons
      exact ⟨oid, hoid, ((hr₁ oid).mp hnone).2⟩
    | ok events =>
      rw [hev] at h hok
      simp only at h
      have hin := peekLoop_delivered lib slot max
        { st₁ with
          transaction := st₁.transaction ++ [lsn]
          progress := st₁.progress.deliver lsn
          deliveries := st₁.deliveries ++ deliveriesOf lsn events } back
        (Finset.mem_insert_self lsn st₁.progress.delivered)
      rw [h] at hin
      refine ⟨fun heq => absurd (heq ▸ hin) hn'.2, fun hall => ?_⟩
      obtain ⟨oid, hoid, hnot⟩ := hall _ _ _ rfl
      have hsome := List.all_eq_true.mp hok.symm oid hoid
      have hnone := (hr₁ oid).mpr ⟨rfl, hnot⟩
      rw [hnone] at hsome
      cases hsome

end

/-- The parts of a `receive` that ends in an error. -/
theorem receive_error_cases {lib : Codec} {cdc : PostgresCdc} {max : Nat}
    {read : PeekLimit → Except String Rows} {advanced : Except String Unit} {e : String}
    (h : (cdc.receive lib max read advanced).2 = .error e) :
    (cdc.pool = false ∧ (cdc.receive lib max read advanced).1 = cdc) ∨
    cdc.pool = true ∧ (cdc.receive lib max read advanced).1.gap = false ∧
      ((peekReads cdc.progress read max (cdc.progress.peekLimit max) = .error e ∧
        (cdc.receive lib max read advanced).1.progress = cdc.progress) ∨
      ∃ messages st, peekReads cdc.progress read max (cdc.progress.peekLimit max) = .ok messages ∧
        peekLoop lib cdc.slot max { progress := cdc.progress } messages = (st, some e) ∧
        (cdc.receive lib max read advanced).1.progress = st.progress) := by
  cases hp : cdc.pool with
  | false =>
    refine .inl ⟨rfl, ?_⟩
    simp [PostgresCdc.receive, PostgresCdc.startReceive, hp]
  | true =>
    simp only [PostgresCdc.receive, PostgresCdc.startReceive, hp, ↓reduceIte] at h ⊢
    refine .inr ⟨trivial, ?_⟩
    cases hr : peekReads cdc.progress read max (cdc.progress.peekLimit max) with
    | error err =>
      rw [hr] at h
      cases h
      exact ⟨rfl, .inl ⟨rfl, rfl⟩⟩
    | ok messages =>
      rw [hr] at h
      simp only [PostgresCdc.process] at h ⊢
      cases hl : peekLoop lib cdc.slot max { progress := cdc.progress } messages with
      | mk st err =>
        rw [hl] at h
        cases err with
        | none => cases h
        | some err =>
          cases h
          exact ⟨rfl, .inr ⟨messages, st, rfl, hl, rfl⟩⟩

/-- A failed `receive` leaves `delivered` and `gap` as they were exactly when it
was not connected, or no gap was pending and, if the slot was read, the first
new change read is the one whose relation is unknown. -/
theorem failed_receive_keeps_iff (lib : Codec) (cdc : PostgresCdc) (max : Nat)
    (read : PeekLimit → Except String Rows) (advanced : Except String Unit) (e : String)
    (h : (cdc.receive lib max read advanced).2 = .error e) :
    ((cdc.receive lib max read advanced).1.progress.delivered = cdc.progress.delivered ∧
      (cdc.receive lib max read advanced).1.gap = cdc.gap) ↔
    cdc.pool = false ∨ cdc.gap = false ∧
      ∀ messages, peekReads cdc.progress read max (cdc.progress.peekLimit max) = .ok messages →
        cdc.progress.FirstNewUnannounced messages := by
  obtain ⟨hp, hcdc⟩ | ⟨hp, hgap, ⟨hr, hprog⟩ | ⟨messages, st, hr, hl, hprog⟩⟩ :=
    receive_error_cases h
  · rw [hcdc]
    simp [hp]
  · rw [hgap, hprog, hr]
    refine ⟨fun hk => .inr ⟨hk.2.symm, nofun⟩, ?_⟩
    rintro (hf | ⟨hg, -⟩)
    · rw [hp] at hf; cases hf
    · exact ⟨rfl, hg.symm⟩
  · rw [hgap, hprog, hr, peekLoop_failed_iff hl]
    refine ⟨fun hk => .inr ⟨hk.2.symm, fun _ hm => ?_⟩, ?_⟩
    · cases hm; exact hk.1
    · rintro (hf | ⟨hg, hm⟩)
      · rw [hp] at hf; cases hf
      · exact ⟨hm messages rfl, hg.symm⟩

/-- A connected watch whose slot was created again. -/
def sampleCdc : PostgresCdc where
  publication := "mcpg"
  tables := []
  slot := "mcpg_orders"
  pool := true
  resumed := true
  gap := true

/-- A transaction whose second insert names a relation not announced. -/
def sampleUnannounced : Rows :=
  [(0x10, .begin 0x20 0 742), (0x10, .relation 16384 sampleRelation),
    (0x11, .insert 16384 [.text "a"]), (0x12, .insert 16385 [.text "b"]), (0x20, .commit 0x28)]

theorem peekReads_sample : peekReads sampleCdc.progress (fun _ => .ok sampleUnannounced) 10
    (sampleCdc.progress.peekLimit 10) = .ok sampleUnannounced := by
  rw [peekReads]; rfl

/-- The theorem at a read that fails with no gap pending: nothing is lost. -/
theorem failed_read_keeps :
    ((({ sampleCdc with gap := false } : PostgresCdc).receive sampleCodec 10
      (fun _ => .error "PostgreSQL slot peek failed: timeout") (.ok ())).1.progress.delivered = ∅ ∧
    (({ sampleCdc with gap := false } : PostgresCdc).receive sampleCodec 10
      (fun _ => .error "PostgreSQL slot peek failed: timeout") (.ok ())).1.gap = false) := by
  have hr : peekReads sampleCdc.progress
      (fun _ => .error "PostgreSQL slot peek failed: timeout") 10
      (sampleCdc.progress.peekLimit 10) =
        .error "PostgreSQL slot peek failed: timeout" := by
    rw [peekReads]
  refine (failed_receive_keeps_iff sampleCodec { sampleCdc with gap := false } 10
    (fun _ => .error "PostgreSQL slot peek failed: timeout") (.ok ())
    "PostgreSQL slot peek failed: timeout" ?_).mpr (.inr ⟨rfl, fun messages h => ?_⟩)
  · simp only [PostgresCdc.receive, PostgresCdc.startReceive, sampleCdc, ↓reduceIte]
    simp only [sampleCdc] at hr
    rw [hr]
  · rw [hr] at h
    cases h

/-- A failed read takes the pending gap, and a failure at a later change leaves
an earlier one marked delivered that no caller got. -/
theorem failed_receive_loses_gap_and_change :
    ((sampleCdc.receive sampleCodec 10 (fun _ => .error "PostgreSQL slot peek failed: timeout")
        (.ok ())).2 = .error "PostgreSQL slot peek failed: timeout" ∧
      (sampleCdc.receive sampleCodec 10 (fun _ => .error "PostgreSQL slot peek failed: timeout")
        (.ok ())).1.gap ≠ sampleCdc.gap) ∧
    ((sampleCdc.receive sampleCodec 10 (fun _ => .ok sampleUnannounced) (.ok ())).2 =
        .error "pgoutput change of relation 16385 before its Relation" ∧
      (sampleCdc.receive sampleCodec 10 (fun _ => .ok sampleUnannounced)
        (.ok ())).1.progress.delivered ≠ sampleCdc.progress.delivered) := by
  have hr : peekReads sampleCdc.progress (fun _ => .error "PostgreSQL slot peek failed: timeout") 10
      (sampleCdc.progress.peekLimit 10) = .error "PostgreSQL slot peek failed: timeout" := by
    rw [peekReads]
  have hr' := peekReads_sample
  simp only [PostgresCdc.receive, PostgresCdc.startReceive, show sampleCdc.pool = true from rfl,
    ↓reduceIte, hr, hr', true_and]
  decide

end McpgSql.Cdc
