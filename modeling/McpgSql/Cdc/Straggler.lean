import McpgSql.Cdc.Redelivery

/-!
# Changes below the consumed position

The message loop passes over a change whose LSN is below the consumed position,
which is the end LSN of a transaction. Where every change comes after the end of
every transaction committed before its own (`Sequential`), such a change is
consumed, and a peek delivers every change that is not
(`unconsumed_delivered`). A change of a transaction that overlaps an earlier one
may be below that one's end: it is passed over and never delivered
(`straggler_skipped`).
-/

namespace McpgSql.Cdc

open Library

/-- No change is below the end of a transaction committed before its own. -/
def Sequential (txns : List Txn) : Prop := txns.Pairwise fun a b => ∀ l ∈ b.lsns, a.endLsn ≤ l

/-- Every change names only relations announced before it, as pgoutput does in
each peek; `known` are the ones announced so far. -/
def Announced : List Nat → Rows → Prop
  | _, [] => True
  | known, (_, .relation oid _) :: rows => Announced (oid :: known) rows
  | known, (_, message) :: rows => (∀ oid ∈ message.oids, oid ∈ known) ∧ Announced known rows

/-- With a read at hand: a change in it that is not in flight, whose transaction
is not consumed, is delivered when the loop reaches it with a budget left; and a
change is below the consumed position only when its transaction is consumed. -/
def World.DeliversUnconsumed (lib : Codec) (w : World) : Prop :=
  ∀ s max messages out, w.slot = some s → w.phase = .read max messages out →
    Announced [] messages →
    (∀ front lsn change back, messages = front ++ (lsn, change) :: back → change.isChange = true →
      ∀ t ∈ s.txns, (lsn, change) ∈ t.changes → w.cdc.progress.consumed < t.endLsn →
      let st := (peekLoop lib w.cdc.slot max { progress := w.cdc.progress } front).1
      lsn ∉ st.progress.delivered → st.deliveries.length < max →
      ∃ new events, (w.cdc.process lib max messages).2 = .ok new ∧
        changeEvents lib w.cdc.slot lsn st.begin st.relations change = .ok events ∧
        deliveriesOf lsn events <:+: new) ∧
    ∀ t ∈ s.txns, ∀ l ∈ t.lsns, l < w.cdc.progress.consumed → t.endLsn ≤ w.cdc.progress.consumed

section

variable (lib : Codec) (slot : String) (max : Nat)

theorem peekLoop_consumed (st : Peeking) (messages : Rows) :
    (peekLoop lib slot max st messages).1.progress.consumed = st.progress.consumed := by
  refine peekLoop_induct (I := fun st' => st'.progress.consumed = st.progress.consumed)
    (fun _ h hm => ?_) rfl
  obtain ⟨_, -, -, rfl⟩ | ⟨_, -, -, rfl⟩ | ⟨e, -, rfl⟩ | ⟨-, hm⟩ := peekMessage_cases hm
  · exact h
  · exact h
  · simpa using h
  · obtain ⟨-, rfl⟩ | ⟨_, -, -, rfl⟩ := peekChange_cases hm
    · exact h
    · exact h

theorem peekLoop_deliveries_split (st : Peeking) (messages : Rows) :
    st.deliveries <+: (peekLoop lib slot max st messages).1.deliveries := by
  refine peekLoop_induct (I := fun st' => st.deliveries <+: st'.deliveries) (fun _ h hm => ?_)
    (List.prefix_refl _)
  obtain ⟨_, -, -, rfl⟩ | ⟨_, -, -, rfl⟩ | ⟨e, -, rfl⟩ | ⟨-, hm⟩ := peekMessage_cases hm
  · exact h
  · exact h
  · exact h
  · obtain ⟨-, rfl⟩ | ⟨_, -, -, rfl⟩ := peekChange_cases hm
    · exact h
    · exact h.trans (List.prefix_append _ _)

/-- The loop does not fail where every change names announced relations. -/
theorem peekLoop_announced {messages : Rows} {known : List Nat} {st : Peeking}
    (hknown : ∀ oid ∈ known, (st.relations.get? oid).isSome = true)
    (h : Announced known messages) : (peekLoop lib slot max st messages).2 = none := by
  induction messages generalizing known st with
  | nil => rfl
  | cons row messages ih =>
    obtain ⟨lsn, message⟩ := row
    rw [peekLoop_cons]
    by_cases hc : message.isChange = true
    · have h' : (∀ oid ∈ message.oids, oid ∈ known) ∧ Announced known messages := by
        cases message with
        | begin | commit | relation | other => cases hc
        | insert | update | delete | truncate => exact h
      rw [peekMessage_change hc]
      cases hm : peekChange lib slot max st lsn message with
      | ok st' =>
        obtain ⟨-, rfl⟩ | ⟨_, -, -, rfl⟩ := peekChange_cases hm <;> exact ih hknown h'.2
      | error e =>
        have hok := changeEvents_isOk lib slot lsn st.begin st.relations message
        rw [List.all_eq_true.mpr fun oid hoid => hknown oid (h'.1 oid hoid)] at hok
        unfold peekChange at hm
        split at hm
        · cases hm
        · split at hm
          · rename_i hev
            rw [hev] at hok
            cases hok
          · cases hm
    · cases message with
      | begin | commit | other => exact ih hknown h.2
      | relation oid r =>
        refine ih (fun oid' hoid' => ?_) h
        rw [OrdMap.get?_insert]
        split
        · rfl
        · rename_i hne
          rcases List.mem_cons.mp hoid' with heq | hmem
          · exact absurd heq.symm hne
          · exact hknown oid' hmem
      | insert | update | delete | truncate => exact absurd rfl hc

/-- A change the loop reaches and does not pass over is delivered. -/
theorem peekLoop_delivers {p : Progress} {front back : Rows} {lsn : Lsn} {change : Message}
    (hann : Announced [] (front ++ (lsn, change) :: back)) (hc : change.isChange = true)
    (hs : (peekLoop lib slot max { progress := p } front).1.skips max lsn = false) :
    let st := (peekLoop lib slot max { progress := p } front).1
    ∃ st' events,
      peekLoop lib slot max { progress := p } (front ++ (lsn, change) :: back) = (st', none) ∧
      changeEvents lib slot lsn st.begin st.relations change = .ok events ∧
      deliveriesOf lsn events <:+: st'.deliveries := by
  have hnone : (peekLoop lib slot max { progress := p } (front ++ (lsn, change) :: back)).2 = none :=
    peekLoop_announced lib slot max (by simp) hann
  rw [peekLoop_append] at hnone ⊢
  cases hf : peekLoop lib slot max { progress := p } front with
  | mk st err =>
    rw [hf] at hs hnone
    cases err with
    | some e => cases hnone
    | none =>
      simp only at hs hnone ⊢
      rw [peekLoop_cons, peekMessage_change hc] at hnone ⊢
      cases hm : peekChange lib slot max st lsn change with
      | error e => rw [hm] at hnone; cases hnone
      | ok st₁ =>
        rw [hm] at hnone
        obtain ⟨hskip, -⟩ | ⟨events, -, hev, rfl⟩ := peekChange_cases hm
        · rw [hs] at hskip
          cases hskip
        · refine ⟨_, events, Prod.ext rfl hnone, hev, ?_⟩
          have hpre := (peekLoop_deliveries_split lib slot max { st with
            transaction := st.transaction ++ [lsn]
            progress := st.progress.deliver lsn
            deliveries := st.deliveries ++ deliveriesOf lsn events } back)
          exact (List.suffix_append _ _).isInfix.trans hpre.isInfix

end

/-- Where transactions follow one another, a change below the end of another
transaction is in an earlier one. -/
theorem Sequential.endLsn_le {s : Slot} (h : Sequential s.txns) {t t' : Txn} (ht : t ∈ s.txns)
    (ht' : t' ∈ s.txns) {l : Lsn} (hl : l ∈ t.lsns) (hlt : l < t'.endLsn) : t.endLsn ≤ t'.endLsn := by
  by_contra hnot
  have hboth : s.txns.Pairwise fun a b => a.endLsn < b.endLsn ∧ ∀ l ∈ b.lsns, a.endLsn ≤ l :=
    List.pairwise_and_iff.mpr ⟨s.ordered, h⟩
  obtain ⟨i, hi, rfl⟩ := List.getElem_of_mem ht
  obtain ⟨j, hj, rfl⟩ := List.getElem_of_mem ht'
  have hpair := List.pairwise_iff_getElem.mp hboth
  rcases lt_trichotomy i j with hij | rfl | hji
  · exact hnot (hpair i j hi hj hij).1.le
  · exact hnot le_rfl
  · exact absurd hlt (not_lt.mpr ((hpair j i hj hi hji).2 l hl))

/-- A peek delivers every change that is not in flight and whose transaction is
not consumed, while it has a budget, in every run on slots whose transactions
follow one another. -/
theorem unconsumed_delivered (lib : Codec) (w : World)
    (h : (cdcMachine lib Sequential).Reach NeverDropped w) : w.DeliversUnconsumed lib := by
  intro s max messages out hs hp hann
  have hback := (reach_safe (reach_createsSafely h) s hs).progress
  have hseq := reach_good h s hs
  have hconsumed : ∀ t ∈ s.txns, ∀ l ∈ t.lsns, l < w.cdc.progress.consumed →
      t.endLsn ≤ w.cdc.progress.consumed := by
    intro t ht l hl hlt
    rcases hback.mark with hzero | ⟨t', ht', heq⟩
    · rw [hzero] at hlt
      cases hlt
    · rw [← heq] at hlt ⊢
      exact hseq.endLsn_le ht ht' hl hlt
  refine ⟨fun front lsn change back hm hc t ht hrow hcons hnew hmax => ?_, hconsumed⟩
  subst hm
  have hs' : (peekLoop lib w.cdc.slot max { progress := w.cdc.progress } front).1.skips max lsn =
      false := by
    simp only [Peeking.skips, Bool.or_eq_false_iff, decide_eq_false_iff_not, not_lt, not_le,
      peekLoop_consumed]
    refine ⟨⟨?_, hnew⟩, hmax⟩
    by_contra hlt
    exact absurd (hconsumed t ht lsn (List.mem_map_of_mem hrow) (not_le.mp hlt)) (not_le.mpr hcons)
  obtain ⟨st', events, hl, hev, hin⟩ := peekLoop_delivers lib w.cdc.slot max hann hc hs'
  refine ⟨st'.deliveries, events, ?_, hev, hin⟩
  simp only [PostgresCdc.process, hl]

/-- A slot with two transactions: an insert at 10, and one at `second`. -/
def sampleTwoTxns (second : Lsn) : Slot where
  txns := [sampleTxn 30 [10], sampleTxn 50 [second]]
  committed := 0
  confirmed := 0
  ordered := by simp [sampleTxn]
  positive := by simp [sampleTxn]

/-- The first transaction is delivered, acknowledged and consumed; then the
second commits and is read. -/
def sampleTwoReads (second : Lsn) : List Action :=
  [.connect, .commit, .start 10, .read (sampleOutput 30 [10]), .process, .settle (.ok ()) false,
    .ack (receiptOf 10), .start 10, .read (sampleOutput 30 [10]), .process, .settle (.ok ()) false,
    .commit, .start 10, .read (sampleOutput 50 [second])]

/-- The theorem where the second transaction starts at the first one's end: its
insert is delivered. -/
theorem sequential_delivered : ∃ w : World, w.DeliversUnconsumed sampleCodec ∧
    w.phase = .read 10 (sampleOutput 50 [30]) [] ∧ w.cdc.progress.consumed = 30 := by
  obtain ⟨w, hrun, hphase, hconsumed⟩ :
      ∃ w ∈ (sampleWorld (sampleTwoTxns 30)).run sampleCodec (sampleTwoReads 30),
        w.phase = .read 10 (sampleOutput 50 [30]) [] ∧ w.cdc.progress.consumed = 30 := by
    decide
  have h : (cdcMachine sampleCodec Sequential).Reach NeverDropped w :=
    reach_run (by simp [sampleTwoReads, NeverDropped]) (by simp [sampleTwoReads])
      (.init (sampleWorld_initial (by unfold Sequential; decide) (by decide))) hrun
  exact ⟨w, unconsumed_delivered sampleCodec w h, hphase, hconsumed⟩

/-- Two transactions overlap: the insert at 20 is below the end LSN 30 of the one
committed first, which is consumed, so the peek that reads it delivers nothing. -/
theorem straggler_skipped : ¬ ∀ w : World,
    (cdcMachine sampleCodec BelowEnd).Reach NeverDropped w → w.DeliversUnconsumed sampleCodec := by
  intro hclaim
  obtain ⟨w, hrun, hphase, ⟨s, hs, ht⟩, hslot, hprog, hnothing⟩ :
      ∃ w ∈ (sampleWorld (sampleTwoTxns 20)).run sampleCodec (sampleTwoReads 20),
        w.phase = .read 10 (sampleOutput 50 [20]) [] ∧
        (∃ s ∈ w.slot, sampleTxn 50 [20] ∈ s.txns) ∧ w.cdc.slot = "mcpg_orders" ∧
        w.cdc.progress = { consumed := 30 } ∧
        (w.cdc.process sampleCodec 10 (sampleOutput 50 [20])).2.toOption = some [] := by
    decide
  have h : (cdcMachine sampleCodec BelowEnd).Reach NeverDropped w :=
    reach_run (by simp [sampleTwoReads, NeverDropped]) (by simp [sampleTwoReads])
      (.init (sampleWorld_initial (by unfold BelowEnd; decide) (by decide))) hrun
  have hann : Announced [] (sampleOutput 50 [20]) := by simp [sampleOutput, Announced, Message.oids]
  obtain ⟨new, events, hnew, hev, hin⟩ := (hclaim w h s 10 _ [] hs hphase hann).1
    ((sampleOutput 50 [20]).take 2) 20 (.insert 16384 [.text "20"]) [(50, .commit 50)] (by decide)
    rfl _ ht (by decide) (by rw [hprog]; decide) (by rw [hprog, hslot]; decide)
    (by rw [hprog, hslot]; decide)
  obtain rfl : new = [] := by
    rw [hnew] at hnothing
    exact Option.some.inj hnothing
  have hnil : events = [] := by
    have := List.infix_nil.mp hin
    simpa [deliveriesOf] using this
  subst hnil
  simp only [changeEvents] at hev
  cases hrel : relationOf (peekLoop sampleCodec w.cdc.slot 10 { progress := w.cdc.progress }
      ((sampleOutput 50 [20]).take 2)).1.relations 16384 with
  | error e => rw [hrel] at hev; cases hev
  | ok relation => rw [hrel] at hev; cases hev

end McpgSql.Cdc
