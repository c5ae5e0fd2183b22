import McpgSql.Cdc.Window
import McpgSql.Library.Budget
import McpgSql.Library.Except

/-!
# How many deliveries a receive returns

The message loop tests its budget before a change and spends it by the events of the
change: a TRUNCATE of several tables may pass it. The delivery of a gap is added
beside it. So a `receive` returns at most `max` deliveries exactly where the events of
the new changes it reads stay below `max`, or without a gap some leading ones of them
are `max` (`receive_within_budget_iff`):

* `Progress.eventCounts`: the events of the new changes of a read;
* `peekLoop_length`: the loop spends them.
-/

namespace McpgSql.Cdc

open Library

/-! ## The events of a read -/

/-- A change has one event for each table it names. -/
theorem changeEvents_length {lib : Codec} {slot : String} {lsn : Lsn} {begin : Option (Nat × Int)}
    {relations : Relations} {change : Message} {events : List WatchEvent}
    (h : changeEvents lib slot lsn begin relations change = .ok events) :
    events.length = change.oids.length := by
  cases change with
  | insert | update | delete =>
    obtain ⟨relation, -, hevents⟩ := bind_eq_ok.mp h
    cases hevents
    rfl
  | truncate oids cascade restartIdentity =>
    exact (forall₂_of_mapM_eq_ok h).length_eq.symm
  | begin | commit | relation | other =>
    cases h
    rfl

/-- The events of the new changes of a read; a change is delivered once. -/
def Progress.eventCounts (p : Progress) : Rows → List Nat
  | [] => []
  | row :: rows =>
    if p.isNew row then row.2.oids.length :: (p.deliver row.1).eventCounts rows
    else p.eventCounts rows

theorem eventCounts_congr {p p' : Progress} (hd : p'.delivered = p.delivered)
    (hc : p'.consumed = p.consumed) (rows : Rows) : p'.eventCounts rows = p.eventCounts rows := by
  induction rows generalizing p p' with
  | nil => rfl
  | cons row rows ih =>
    have hd' : (p'.deliver row.1).delivered = (p.deliver row.1).delivered :=
      congrArg (insert row.1) hd
    rw [Progress.eventCounts, Progress.eventCounts, isNew_congr hd hc, ih hd hc, ih hd' hc]

section

variable {lib : Codec} {slot : String} {max : Nat}

/-- The loop spends the events of the new changes, one change after the other. -/
theorem peekLoop_length {messages : Rows} {st st' : Peeking}
    (h : peekLoop lib slot max st messages = (st', none)) :
    st'.deliveries.length = spend max st.deliveries.length (st.progress.eventCounts messages) := by
  induction messages generalizing st with
  | nil =>
    cases h
    rfl
  | cons row messages ih =>
    obtain ⟨lsn, message⟩ := row
    rw [peekLoop_cons] at h
    rw [Progress.eventCounts]
    cases hnew : st.progress.isNew (lsn, message) with
    | false =>
      obtain ⟨st₁, hst₁, hd, hc, hdel, -⟩ := peekMessage_old lib slot max hnew
      rw [hst₁] at h
      rw [ih h, hdel, eventCounts_congr hd hc]
      rfl
    | true =>
      have hchange : message.isChange = true ∧ st.progress.consumed ≤ lsn ∧
          lsn ∉ st.progress.delivered := by
        simpa only [Progress.isNew, Bool.and_eq_true, decide_eq_true_eq, and_assoc] using hnew
      rw [peekMessage_change hchange.1] at h
      cases hm : peekChange lib slot max st lsn message with
      | error e =>
        rw [hm] at h
        cases h
      | ok st₁ =>
        rw [hm] at h
        rw [ih h]
        obtain ⟨hskips, rfl⟩ | ⟨events, hskips, hevents, rfl⟩ := peekChange_cases hm
        · -- a new change is passed over only when the budget is spent
          have hspent : max ≤ st.deliveries.length := by
            simpa [Peeking.skips, hchange.2.1.not_gt, hchange.2.2] using hskips
          rw [spend_of_le hspent, spend_of_le hspent]
        · have hleft : ¬ max ≤ st.deliveries.length := by
            simp only [Peeking.skips, Bool.or_eq_false_iff, decide_eq_false_iff_not] at hskips
            exact hskips.2
          have hlength : (st.deliveries ++ deliveriesOf lsn events).length =
              st.deliveries.length + message.oids.length := by
            rw [List.length_append, deliveriesOf, List.length_mapIdx, changeEvents_length hevents]
          rw [if_pos rfl, spend, if_neg hleft, hlength]

end

/-! ## Receiving -/

/-- The parts of a `receive` that returns deliveries. -/
theorem receive_ok_cases {lib : Codec} {cdc : PostgresCdc} {max : Nat}
    {read : PeekLimit → Except String Rows} {advanced : Except String Unit}
    {deliveries : List Delivery} (h : (cdc.receive lib max read advanced).2 = .ok deliveries) :
    ∃ messages st, peekReads cdc.progress read max (cdc.progress.peekLimit max) = .ok messages ∧
      peekLoop lib cdc.slot max { progress := cdc.progress } messages = (st, none) ∧
      deliveries = (if cdc.gap then [gapDelivery] else []) ++ st.deliveries := by
  simp only [PostgresCdc.receive, PostgresCdc.startReceive] at h
  cases hp : cdc.pool with
  | false =>
    rw [hp] at h
    cases h
  | true =>
    simp only [hp, ↓reduceIte] at h
    cases hr : peekReads cdc.progress read max (cdc.progress.peekLimit max) with
    | error e =>
      rw [hr] at h
      cases h
    | ok messages =>
      rw [hr] at h
      simp only [PostgresCdc.process] at h
      cases hl : peekLoop lib cdc.slot max { progress := cdc.progress } messages with
      | mk st err =>
        rw [hl] at h
        cases err with
        | some e => cases h
        | none =>
          cases h
          exact ⟨messages, st, rfl, hl, rfl⟩

/-- A `receive` whose last read gave `messages` returns at most `max` deliveries iff
the events of the new changes are fewer than `max`, or no gap is pending and some
leading ones of them have `max` events. -/
theorem receive_within_budget_iff (lib : Codec) (cdc : PostgresCdc) (max : Nat)
    (read : PeekLimit → Except String Rows) (advanced : Except String Unit)
    (messages : Rows) (deliveries : List Delivery)
    (hread : peekReads cdc.progress read max (cdc.progress.peekLimit max) = .ok messages)
    (h : (cdc.receive lib max read advanced).2 = .ok deliveries) :
    deliveries.length ≤ max ↔
      (cdc.progress.eventCounts messages).sum < max ∨
        cdc.gap = false ∧ ∃ k, ((cdc.progress.eventCounts messages).take k).sum = max := by
  obtain ⟨_, st, hread', hloop, rfl⟩ := receive_ok_cases h
  rw [hread] at hread'
  cases hread'
  have hlength : st.deliveries.length = spend max 0 (cdc.progress.eventCounts messages) :=
    peekLoop_length hloop
  have hlt := spend_lt_iff max 0 (cdc.progress.eventCounts messages)
  have hle := spend_le_iff max 0 (cdc.progress.eventCounts messages)
  simp only [Nat.zero_add] at hlt hle
  rw [List.length_append, hlength]
  cases cdc.gap with
  | true =>
    have hgap : 1 + spend max 0 (cdc.progress.eventCounts messages) ≤ max ↔
        spend max 0 (cdc.progress.eventCounts messages) < max := by omega
    simpa [hlt] using hgap
  | false => simpa using hle

/-- An insert and a TRUNCATE of two tables. -/
def sampleTruncate : Rows :=
  [(10, .begin 20 0 742), (10, .relation 16384 sampleRelation), (10, .insert 16384 [.text "a"]),
    (11, .relation 16385 sampleRelation), (11, .truncate [16384, 16385] false false),
    (20, .commit 20)]

theorem peekReads_truncate (max : Nat) :
    peekReads {} (fun limit => .ok (peekRows sampleTruncate limit.1)) max
      (Progress.peekLimit {} max) = .ok sampleTruncate := by
  obtain ⟨last, -, hreads⟩ := peekReads_last {} sampleTruncate max (Progress.peekLimit {} max)
  rw [hreads]
  -- its only Commit is the last row
  simp [sampleTruncate, peekRows_cons, endsAtCommit]

/-- The deliveries of a `receive` that reads `sampleTruncate`. -/
def sampleReceived (gap : Bool) (max : Nat) : Except String (List Delivery) :=
  (({ sampleCdc with gap } : PostgresCdc).receive sampleCodec max
    (fun limit => .ok (peekRows sampleTruncate limit.1)) (.ok ())).2

theorem sampleReceived_eq (gap : Bool) (max : Nat) :
    sampleReceived gap max =
      match ({ sampleCdc with gap := false } : PostgresCdc).process sampleCodec max sampleTruncate with
      | (_, .error e) => .error e
      | (_, .ok new) => .ok ((if gap then [gapDelivery] else []) ++ new) := by
  have hreads := peekReads_truncate max
  simp only [sampleReceived, PostgresCdc.receive, PostgresCdc.startReceive, sampleCdc, ↓reduceIte]
  rw [hreads]
  dsimp only
  generalize PostgresCdc.process sampleCodec _ max sampleTruncate = received
  obtain ⟨cdc, e | new⟩ := received <;> rfl

/-- With a budget for the insert and both tables all three are returned. -/
theorem truncate_within_budget :
    ∃ deliveries, sampleReceived false 3 = .ok deliveries ∧ deliveries.length ≤ 3 := by
  have h : sampleReceived false 3 = .ok _ := (sampleReceived_eq false 3).trans rfl
  refine ⟨_, h, (receive_within_budget_iff sampleCodec { sampleCdc with gap := false } 3 _ _ _ _
    (peekReads_truncate 3) h).mpr (.inr ⟨rfl, 2, rfl⟩)⟩

/-- A gap and an insert are two deliveries for a budget of one; an insert and a TRUNCATE
of two tables are three for a budget of two. -/
theorem budget_exceeded :
    (∃ deliveries, sampleReceived true 1 = .ok deliveries ∧ ¬ deliveries.length ≤ 1) ∧
    ∃ deliveries, sampleReceived false 2 = .ok deliveries ∧ ¬ deliveries.length ≤ 2 := by
  rw [sampleReceived_eq, sampleReceived_eq]
  exact ⟨⟨_, rfl, by decide⟩, _, rfl, by decide⟩

end McpgSql.Cdc
