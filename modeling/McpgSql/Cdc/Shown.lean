import McpgSql.Cdc.Safety

/-!
# Delivered before the slot moves on

On a slot that is never dropped and whose change messages have distinct LSNs, a
receipt names the one change its delivery shows. So every change the slot is
advanced past was acknowledged, and delivered when the gateway acknowledges only
receipts it was handed (`advance_only_past_delivered`). Where two messages share
an LSN the second is never delivered (`shared_lsn_lost`): `delivered`, `changes`
and `acked` are sets of LSNs.
-/

namespace McpgSql.Cdc

open Library

/-- The delivery's event is one of those of the change. -/
def Shows (lib : Codec) (slot : String) (d : Delivery) (row : Lsn × Message) : Prop :=
  ∃ begin relations events,
    changeEvents lib slot row.1 begin relations row.2 = .ok events ∧ d.event ∈ events

/-- No two change messages have the same LSN. -/
def DistinctLsns (txns : List Txn) : Prop := (txns.flatMap Txn.lsns).Nodup

/-- Every change is below the end of its transaction. -/
def BelowEnd (txns : List Txn) : Prop := ∀ t ∈ txns, ∀ l ∈ t.lsns, l < t.endLsn

/-- The slot is not dropped. -/
def NeverDropped (_ : World) (a : Action) : Prop := a ≠ .drop

/-- The deliveries a `receive` under way has before it processes its read. -/
def Phase.held : Phase → List Delivery
  | .peeking _ _ out | .read _ _ out => out
  | .idle | .settling _ => []

@[simp] theorem PostgresCdc.ack_slot (cdc : PostgresCdc) (receipt : Value) :
    (cdc.ack receipt).slot = cdc.slot := by
  unfold PostgresCdc.ack; split <;> rfl

@[simp] theorem PostgresCdc.release_slot (cdc : PostgresCdc) (receipt : Value) :
    (cdc.release receipt).slot = cdc.slot := by
  unfold PostgresCdc.release; split <;> rfl

@[simp] theorem PostgresCdc.settle_slot (cdc : PostgresCdc) (advanced : Except String Unit) :
    (cdc.settle advanced).1.slot = cdc.slot := by
  simp only [PostgresCdc.settle]
  split
  · rfl
  · split <;> rfl

/-- Before its slot is created, a watch on a slot never dropped did nothing. -/
structure World.Unslotted (w : World) : Prop where
  pool : w.cdc.pool = false
  phase : w.phase = .idle
  unadvanced : w.cdc.unadvanced = none
  history : ∀ d, .delivered d ∉ w.history

theorem Step.unslotted {lib : Codec} {w w' : World} {a : Action} (h : Step lib w a w')
    (hok : NeverDropped w a) (hw : w.slot = none → w.Unslotted) : w'.slot = none → w'.Unslotted := by
  intro hs'
  cases h with
  | connect hp hs => exact absurd (hs.symm.trans hs') nofun
  | create => cases hs'
  | drop => exact absurd rfl hok
  | commit => cases hs'
  | start hp hpool => exact absurd ((hw hs').pool.symm.trans hpool) nofun
  | readFailed hp | readOn hp | read hp | process hp | processFailed hp =>
    exact absurd ((hw hs').phase.symm.trans hp) nofun
  | settle hp => exact absurd ((hw (Option.map_eq_none_iff.mp hs')).phase.symm.trans hp) nofun
  | ack =>
    have hun := hw hs'
    refine ⟨?_, hun.phase, ?_, fun d hd => hun.history d (by simpa using hd)⟩
    · simp only [PostgresCdc.ack]
      split <;> exact hun.pool
    · simp only [PostgresCdc.ack]
      split <;> exact hun.unadvanced
  | release =>
    have hun := hw hs'
    refine ⟨?_, hun.phase, ?_, fun d hd => hun.history d (by simpa using hd)⟩
    · simp only [PostgresCdc.release]
      split <;> exact hun.pool
    · simp only [PostgresCdc.release]
      split <;> exact hun.unadvanced

section

variable {lib : Codec} {good : List Txn → Prop} {w : World}

theorem reach_unslotted (h : (cdcMachine lib good).Reach NeverDropped w) :
    w.slot = none → w.Unslotted :=
  h.invariant (I := fun w => w.slot = none → w.Unslotted)
    (fun h₀ _ => ⟨h₀.pool, h₀.phase, h₀.unadvanced, by
      rw [h₀.history]
      exact fun _ hd => by cases hd⟩)
    fun hok hst hw => (Step.of_next hst.1).unslotted hok hw

/-- A slot never dropped is created only before anything is advanced. -/
theorem reach_createsSafely (h : (cdcMachine lib good).Reach NeverDropped w) :
    (cdcMachine lib good).Reach CreatesSafely w := by
  refine h.mono reach_unslotted fun {w a w'} hun _ hst => ?_
  cases Step.of_next hst.1 with
  | create hp hs hf =>
    intro u hu
    rw [(hun hs).unadvanced] at hu
    cases hu
  | _ => exact trivial

end

/-! ## What deliveries show -/

/-- On the slot `s`: a delivery that names a change shows it, what is read and
not processed yet are changes of the slot, and nothing else is held. -/
structure World.Showing (lib : Codec) (w : World) (s : Slot) : Prop where
  delivered : ∀ d, .delivered d ∈ w.history → ∀ l, receiptLsn d.receipt = some l →
    ∃ t ∈ s.txns, ∃ row ∈ t.changes, row.1 = l ∧ Shows lib w.cdc.slot d row
  reading : ∀ max messages out, w.phase = .read max messages out →
    ∀ row ∈ messages, row.2.isChange = true → ∃ t ∈ s.txns, row ∈ t.changes
  held : ∀ d ∈ w.phase.held, receiptLsn d.receipt = none

section

variable {lib : Codec} {w w' : World} {s s' : Slot}

theorem World.Showing.of_eq (h : w.Showing lib s) (htxns : s'.txns = s.txns)
    (hslot : w'.cdc.slot = w.cdc.slot)
    (hhist : ∀ d, .delivered d ∈ w'.history → .delivered d ∈ w.history)
    (hphase : w'.phase = w.phase ∨ w'.phase.held = [] ∧ ∀ max messages out,
      w'.phase ≠ .read max messages out) : w'.Showing lib s' := by
  refine ⟨fun d hd => ?_, fun max messages out hp => ?_, ?_⟩
  · rw [htxns, hslot]
    exact h.delivered d (hhist d hd)
  · rcases hphase with heq | ⟨-, hne⟩
    · rw [htxns]
      exact h.reading max messages out (heq ▸ hp)
    · exact absurd hp (hne max messages out)
  · rcases hphase with heq | ⟨hnil, -⟩
    · rw [heq]
      exact h.held
    · rw [hnil]
      exact fun _ hd => by cases hd

/-- What the processing of a read adds: every new delivery shows a change of the
slot. -/
theorem World.Showing.process (h : w.Showing lib s) {max : Nat} {messages : Rows}
    {out : List Delivery} {st : Peeking} (hp : w.phase = .read max messages out)
    (hl : peekLoop lib w.cdc.slot max { progress := w.cdc.progress } messages = (st, none)) :
    ({ w with
      cdc := { w.cdc with progress := st.progress }
      phase := .settling (out ++ st.deliveries)
      history := w.history ++ (out ++ st.deliveries).map .delivered } : World).Showing lib s := by
  refine ⟨fun d hd l hlsn => ?_, nofun, fun _ hd => by cases hd⟩
  rcases List.mem_append.mp hd with hd | hd
  · exact h.delivered d hd l hlsn
  · obtain ⟨d', hd', heq⟩ := List.mem_map.mp hd
    obtain rfl := Happening.delivered.inj heq
    rcases List.mem_append.mp hd' with hout | hnew
    · have := h.held d' (by rw [hp]; exact hout)
      rw [this] at hlsn
      cases hlsn
    · have hnew' : d' ∈ (peekLoop lib w.cdc.slot max { progress := w.cdc.progress }
          messages).1.deliveries := by rw [hl]; exact hnew
      obtain ⟨row, hrow, hc, hshows, hreceipt⟩ := peekLoop_deliveries hnew'
      obtain ⟨t, ht, hmem⟩ := h.reading max messages out hp row hrow hc
      refine ⟨t, ht, row, hmem, ?_, hshows⟩
      rcases hreceipt with heq | heq
      · rw [heq, receiptLsn_receiptOf] at hlsn
        exact Option.some.inj hlsn
      · rw [heq] at hlsn
        cases hlsn

theorem Step.showing {a : Action} (h : Step lib w a w') (hok : NeverDropped w a)
    (hun : w.slot = none → w.Unslotted) (hw : ∀ s, w.slot = some s → w.Showing lib s) :
    ∀ s, w'.slot = some s → w'.Showing lib s := by
  intro s' hs'
  cases h with
  | connect hp hs =>
    exact (hw s' hs').of_eq rfl rfl (fun d hd => by simpa using hd) (.inl rfl)
  | create hp hs hf =>
    cases hs'
    have hempty := (hun hs).history
    refine ⟨fun d hd => absurd (by simpa using hd) (hempty d), ?_, ?_⟩
    · exact fun _ _ _ hr => absurd (hp.symm.trans hr) nofun
    · rw [hp]
      exact fun _ hd => by cases hd
  | drop => exact absurd rfl hok
  | @commit s hs =>
    cases hs'
    exact (hw s hs).of_eq rfl rfl (fun _ hd => hd) (.inl rfl)
  | start hp hpool =>
    refine ⟨(hw s' hs').delivered, nofun, fun d hd => ?_⟩
    simp only [Phase.held] at hd
    split at hd
    · rw [List.mem_singleton.mp hd]
      rfl
    · cases hd
  | readFailed hp =>
    exact (hw s' hs').of_eq rfl rfl (fun _ hd => hd) (.inr ⟨rfl, nofun⟩)
  | readOn hp hs ho =>
    have hb := hw s' hs'
    exact ⟨hb.delivered, nofun, fun d hd => hb.held d (by rw [hp]; exact hd)⟩
  | read hp hs ho =>
    have hb := hw s' hs'
    refine ⟨hb.delivered, fun max messages out hr row hrow hc => ?_,
      fun d hd => hb.held d (by rw [hp]; exact hd)⟩
    cases hr
    obtain ⟨ts, hts, hpre⟩ := Slot.outputs_prefix ho
    obtain ⟨t, ht, hmem⟩ := mem_of_transactionsOf hts hrow hc
    obtain rfl := Option.some.inj (hs.symm.trans hs')
    exact ⟨t, List.mem_of_mem_filter (hpre.subset ht), hmem⟩
  | process hp hl => exact (hw s' hs').process hp hl
  | processFailed hp hl => exact (hw s' hs').of_eq rfl rfl (fun _ hd => hd) (.inr ⟨rfl, nofun⟩)
  | settle hp =>
    obtain ⟨s, hs, rfl⟩ := Option.map_eq_some_iff.mp hs'
    exact (hw s hs).of_eq (by simp) (by simp) (fun _ hd => hd) (.inr ⟨rfl, nofun⟩)
  | ack => exact (hw s' hs').of_eq rfl (by simp) (fun d hd => by simpa using hd) (.inl rfl)
  | release => exact (hw s' hs').of_eq rfl (by simp) (fun d hd => by simpa using hd) (.inl rfl)

theorem reach_showing {good : List Txn → Prop} (h : (cdcMachine lib good).Reach NeverDropped w) :
    ∀ s, w.slot = some s → w.Showing lib s := by
  refine h.invariant_of reach_unslotted (fun {w} h₀ s hs => ⟨?_, ?_, ?_⟩) fun hok hst hun hw =>
    (Step.of_next hst.1).showing hok hun hw
  · rw [h₀.history]
    exact fun _ hd => by cases hd
  · rw [h₀.phase]
    nofun
  · rw [h₀.phase]
    exact fun _ hd => by cases hd

/-! ## Advances -/

theorem exists_acked_of_mem {history : List Happening} {l : Lsn} (h : l ∈ ackedLsns history) :
    ∃ receipt, .acked receipt ∈ history ∧ receiptLsn receipt = some l := by
  induction history using List.reverseRecOn with
  | nil => cases h
  | append_singleton history happened ih =>
    have keep : l ∈ ackedLsns history →
        ∃ receipt, .acked receipt ∈ history ++ [happened] ∧ receiptLsn receipt = some l := by
      intro hl
      obtain ⟨receipt, hmem, hr⟩ := ih hl
      exact ⟨receipt, List.mem_append_left _ hmem, hr⟩
    cases happened with
    | connected => exact keep (by simpa using h)
    | created => simp at h
    | delivered d => exact keep (by simpa [ackedLsns] using h)
    | released receipt => exact keep (by simpa using h)
    | acked receipt =>
      rw [ackedLsns_acked] at h
      split at h
      · rename_i lsn hr
        rcases Finset.mem_insert.mp h with rfl | hl
        · exact ⟨receipt, by simp, hr⟩
        · exact keep hl
      · exact keep h

/-- Where LSNs are distinct, a change is known by its LSN. -/
theorem DistinctLsns.eq_of_lsn {txns : List Txn} (h : DistinctLsns txns) {t t' : Txn}
    {row row' : Lsn × Message} (ht : t ∈ txns) (hrow : row ∈ t.changes) (ht' : t' ∈ txns)
    (hrow' : row' ∈ t'.changes) (heq : row.1 = row'.1) : row = row' := by
  have hnodup : ((txns.flatMap Txn.changes).map Prod.fst).Nodup := by
    rw [List.map_flatMap]
    exact h
  exact List.inj_on_of_nodup_map hnodup (List.mem_flatMap.mpr ⟨t, ht, hrow⟩)
    (List.mem_flatMap.mpr ⟨t', ht', hrow'⟩) heq

/-- An acknowledged change was delivered. -/
theorem World.Showing.shown_of_acked (h : w.Showing lib s) (hdist : DistinctLsns s.txns)
    (hgen : Genuine w.history) {t : Txn} (ht : t ∈ s.txns) {row : Lsn × Message}
    (hrow : row ∈ t.changes) (hacked : row.1 ∈ ackedLsns w.history) :
    ∃ d, .delivered d ∈ w.history ∧ Shows lib w.cdc.slot d row := by
  obtain ⟨receipt, hmem, hr⟩ := exists_acked_of_mem hacked
  obtain ⟨d, hd, rfl⟩ := hgen.delivered hmem
  obtain ⟨t', ht', row', hrow', hlsn, hshows⟩ := h.delivered d hd row.1 hr
  obtain rfl := hdist.eq_of_lsn ht hrow ht' hrow' hlsn.symm
  exact ⟨d, hd, hshows⟩

/-- The slot is never advanced past an unacknowledged change: when `settle`
advances it to `target`, the LSN of every change of a transaction that ends at
or below `target` was acknowledged, and the change was delivered when only
receipts of deliveries were acknowledged. -/
theorem advance_acked_and_delivered (lib : Codec) (w : World)
    (h : (cdcMachine lib DistinctLsns).Reach NeverDropped w) (out : List Delivery)
    (_hphase : w.phase = .settling out) (s : Slot) (hs : w.slot = some s) (target : Lsn)
    (ht : w.cdc.settleTarget = some target) (t : Txn) (hmem : t ∈ s.txns)
    (hle : t.endLsn ≤ target) :
    (∀ l ∈ t.lsns, l ∈ ackedLsns w.history) ∧
    (Genuine w.history → ∀ row ∈ t.changes,
      ∃ d, .delivered d ∈ w.history ∧ Shows lib w.cdc.slot d row) := by
  have hacked := (reach_safe (reach_createsSafely h) s hs).settleTarget ht t hmem hle
  refine ⟨hacked, fun hgen row hrow => ?_⟩
  exact (reach_showing h s hs).shown_of_acked (reach_good h s hs) hgen hmem hrow
    (hacked row.1 (List.mem_map_of_mem hrow))

/-- The theorem at the end of a session: the insert at 90 was delivered and
acknowledged before the advance to 100. -/
theorem sampleSession_acked_and_delivered : ∃ w : World, w.cdc.settleTarget = some 100 ∧
    90 ∈ ackedLsns w.history ∧ ∃ d, .delivered d ∈ w.history ∧
      Shows sampleCodec w.cdc.slot d (90, .insert 16384 [.text "90"]) := by
  obtain ⟨w, hrun, hphase, ⟨s, hs, ht⟩, htarget, hgen⟩ :
      ∃ w ∈ (sampleWorld sampleSlot).run sampleCodec sampleSession, w.phase = .settling [] ∧
        (∃ s ∈ w.slot, sampleTxn 100 [90] ∈ s.txns) ∧ w.cdc.settleTarget = some 100 ∧
        Genuine w.history := by
    decide +kernel
  have h : (cdcMachine sampleCodec DistinctLsns).Reach NeverDropped w :=
    reach_run (by simp [sampleSession, NeverDropped]) (by simp [sampleSession])
      (.init (sampleWorld_initial (by unfold DistinctLsns; decide) (by decide))) hrun
  obtain ⟨hacked, hshown⟩ := advance_acked_and_delivered sampleCodec w h [] hphase s hs 100 htarget
    _ ht (by decide)
  exact ⟨w, htarget, hacked 90 (by decide), hshown hgen _ (by decide)⟩

theorem rowEvent_row (lib : Codec) (slot : String) (lsn : Lsn) (begin : Option (Nat × Int))
    (op : String) (relation : Relation) (row : List (String × Value))
    (old : Option (List (String × Value))) (unchanged : List String) :
    (rowEvent lib slot lsn begin op relation row old unchanged).data.bind (·.get "row") =
      some (.obj row) := by
  simp only [rowEvent, changeEvent, Option.bind_some, Value.get]
  cases old <;> split <;> simp [Assoc.get?_insert]

/-- No event of an insert of one null is that of an insert of a text. -/
theorem not_shows_null {lib : Codec} {slot : String} {d : Delivery} {lsn oid : Nat} {text : String}
    (hd : d.event.data.bind (·.get "row") = some (.obj [("id", .str text)])) :
    ¬ Shows lib slot d (lsn, .insert oid [.null]) := by
  rintro ⟨begin, relations, events, hev, hmem⟩
  simp only [changeEvents] at hev
  cases hrel : relationOf relations oid with
  | error e => rw [hrel] at hev; cases hev
  | ok relation =>
    rw [hrel] at hev
    cases hev
    rw [List.mem_singleton.mp hmem, rowEvent_row] at hd
    simp only [rowOf] at hd
    cases hcol : relation.columns with
    | nil => simp [hcol] at hd
    | cons column columns => simp [hcol, Assoc.insert] at hd

/-- A slot with a transaction of three inserts. -/
def sampleThreeSlot : Slot where
  txns := [{ endLsn := 100, changes :=
    [(90, .insert 16384 [.text "a"]), (93, .insert 16384 [.text "b"]),
      (95, .insert 16384 [.null])] }]
  committed := 0
  confirmed := 0
  ordered := by simp
  positive := by simp

/-- What `sampleThreeSlot` outputs. -/
def sampleThreeOutput : Rows :=
  [(90, .begin 100 0 742), (0, .relation 16384 sampleRelation), (90, .insert 16384 [.text "a"]),
    (93, .insert 16384 [.text "b"]), (95, .insert 16384 [.null]), (100, .commit 100)]

/-- Each `receive` takes one change. After the first, all three are acknowledged,
of which one was delivered. -/
def sampleForgedSession : List Action :=
  [.connect, .commit, .start 1, .read sampleThreeOutput, .process, .settle (.ok ()) false,
    .ack (receiptOf 90), .ack (receiptOf 93), .ack (receiptOf 95),
    .start 1, .read sampleThreeOutput, .process]

/-- The `receive` is about to settle. -/
def Phase.isSettling : Phase → Bool
  | .settling _ => true
  | _ => false

theorem Phase.exists_settling {phase : Phase} (h : phase.isSettling) : ∃ out, phase = .settling out := by
  cases phase with
  | settling out => exact ⟨out, rfl⟩
  | _ => cases h

/-- A receipt that no delivery carried counts as one that did: the insert at 95 is
acknowledged without being delivered, and the slot is advanced past it. -/
theorem forged_ack_not_delivered : ¬ ∀ (w : World),
    (cdcMachine sampleCodec fun txns => DistinctLsns txns ∧ BelowEnd txns).Reach NeverDropped w →
    ∀ out, w.phase = .settling out → ∀ s, w.slot = some s →
    ∀ target, w.cdc.settleTarget = some target →
    ∀ t ∈ s.txns, t.endLsn ≤ target →
      (∀ l ∈ t.lsns, l ∈ ackedLsns w.history) ∧
      ∀ row ∈ t.changes, ∃ d, .delivered d ∈ w.history ∧ Shows sampleCodec w.cdc.slot d row := by
  intro hclaim
  obtain ⟨w, hrun, hsettling, ⟨s, hs, ht⟩, htarget, hrows⟩ :
      ∃ w ∈ (sampleWorld sampleThreeSlot).run sampleCodec sampleForgedSession,
        w.phase.isSettling ∧ (∃ s ∈ w.slot, s.txns = sampleThreeSlot.txns) ∧
        w.cdc.settleTarget = some 100 ∧ ∀ d ∈ deliveries w.history, ∃ text ∈ ["a", "b"],
          d.event.data.bind (·.get "row") = some (.obj [("id", .str text)]) := by
    decide +kernel
  obtain ⟨out, hphase⟩ := Phase.exists_settling hsettling
  have h : (cdcMachine sampleCodec fun txns => DistinctLsns txns ∧ BelowEnd txns).Reach
      NeverDropped w :=
    reach_run (by simp [sampleForgedSession, NeverDropped]) (by simp [sampleForgedSession])
      (.init (sampleWorld_initial ⟨by unfold DistinctLsns; decide, by unfold BelowEnd; decide⟩
        (by decide))) hrun
  obtain ⟨d, hd, hshows⟩ := (hclaim w h out hphase s hs 100 htarget
    (sampleThreeSlot.txns.get ⟨0, by decide⟩) (by rw [ht]; decide) (by decide)).2
    (95, .insert 16384 [.null]) (by decide)
  obtain ⟨text, -, hrow⟩ := hrows d (mem_deliveries.mpr hd)
  exact not_shows_null hrow hshows

/-! ## Messages that share an LSN -/

/-- Every change message is delivered before the slot is advanced past its
transaction, in every run on slots whose change messages have distinct LSNs. -/
theorem advance_only_past_delivered (lib : Codec) (w : World)
    (h : (cdcMachine lib DistinctLsns).Reach NeverDropped w) (hgen : Genuine w.history)
    (out : List Delivery) (_hphase : w.phase = .settling out) (s : Slot) (hs : w.slot = some s)
    (target : Lsn) (ht : w.cdc.settleTarget = some target) :
    ∀ t ∈ s.txns, t.endLsn ≤ target → ∀ row ∈ t.changes,
      ∃ d, .delivered d ∈ w.history ∧ Shows lib w.cdc.slot d row := by
  intro t hmem hle row hrow
  have hacked := (reach_safe (reach_createsSafely h) s hs).settleTarget ht t hmem hle
  exact (reach_showing h s hs).shown_of_acked (reach_good h s hs) hgen hmem hrow
    (hacked row.1 (List.mem_map_of_mem hrow))

/-- A slot with two inserts, each with its own LSN. -/
def sampleTwoSlot (second : Lsn) : Slot where
  txns := [{ endLsn := 100, changes :=
    [(90, .insert 16384 [.text "a"]), (second, .insert 16384 [.null])] }]
  committed := 0
  confirmed := 0
  ordered := by simp
  positive := by simp

/-- What `sampleTwoSlot` outputs. -/
def sampleTwoOutput (second : Lsn) : Rows :=
  [(90, .begin 100 0 742), (0, .relation 16384 sampleRelation), (90, .insert 16384 [.text "a"]),
    (second, .insert 16384 [.null]), (100, .commit 100)]

/-- Both inserts are acknowledged by their LSNs, and read again. -/
def sampleTwoSession (second : Lsn) : List Action :=
  [.connect, .commit, .start 10, .read (sampleTwoOutput second), .process, .settle (.ok ()) false,
    .ack (receiptOf 90), .ack (receiptOf second), .start 10, .read (sampleTwoOutput second), .process]

/-- The theorem where the LSNs are distinct: the second insert is delivered. -/
theorem distinct_lsns_delivered : ∃ w : World, w.cdc.settleTarget = some 100 ∧
    ∃ d, .delivered d ∈ w.history ∧
      Shows sampleCodec w.cdc.slot d (95, .insert 16384 [.null]) := by
  obtain ⟨w, hrun, hphase, ⟨s, hs, ht⟩, htarget, hgen⟩ :
      ∃ w ∈ (sampleWorld (sampleTwoSlot 95)).run sampleCodec (sampleTwoSession 95),
        w.phase = .settling [] ∧ (∃ s ∈ w.slot, s.txns = (sampleTwoSlot 95).txns) ∧
        w.cdc.settleTarget = some 100 ∧ Genuine w.history := by
    decide +kernel
  have h : (cdcMachine sampleCodec DistinctLsns).Reach NeverDropped w :=
    reach_run (by simp [sampleTwoSession, NeverDropped]) (by simp [sampleTwoSession])
      (.init (sampleWorld_initial (by unfold DistinctLsns; decide) (by decide))) hrun
  refine ⟨w, htarget, advance_only_past_delivered sampleCodec w h hgen [] hphase s hs 100 htarget
    ((sampleTwoSlot 95).txns.get ⟨0, by decide⟩) ?_ (by decide) _ (by decide)⟩
  rw [ht]
  decide

/-- Two inserts of one transaction share an LSN: the second is never delivered,
yet the acknowledgement of the first advances the slot past both. -/
theorem shared_lsn_lost : ¬ ∀ (w : World),
    (cdcMachine sampleCodec fun _ => True).Reach NeverDropped w → Genuine w.history →
    ∀ out, w.phase = .settling out → ∀ s, w.slot = some s →
    ∀ target, w.cdc.settleTarget = some target →
    ∀ t ∈ s.txns, t.endLsn ≤ target → ∀ row ∈ t.changes,
      ∃ d, .delivered d ∈ w.history ∧ Shows sampleCodec w.cdc.slot d row := by
  intro hclaim
  obtain ⟨w, hrun, hphase, ⟨s, hs, ht⟩, htarget, hgen, hrows⟩ :
      ∃ w ∈ (sampleWorld (sampleTwoSlot 90)).run sampleCodec (sampleTwoSession 90),
        w.phase = .settling [] ∧ (∃ s ∈ w.slot, s.txns = (sampleTwoSlot 90).txns) ∧
        w.cdc.settleTarget = some 100 ∧ Genuine w.history ∧
        ∀ d ∈ deliveries w.history,
          d.event.data.bind (·.get "row") = some (.obj [("id", .str "a")]) := by
    decide +kernel
  have h : (cdcMachine sampleCodec fun _ => True).Reach NeverDropped w :=
    reach_run (by simp [sampleTwoSession, NeverDropped]) (fun _ _ => trivial)
      (.init (sampleWorld_initial trivial (by decide))) hrun
  obtain ⟨d, hd, hshows⟩ := hclaim w h hgen [] hphase s hs 100 htarget
    ((sampleTwoSlot 90).txns.get ⟨0, by decide⟩) (by rw [ht]; decide) (by decide)
    (90, .insert 16384 [.null]) (by decide)
  exact not_shows_null (hrows d (mem_deliveries.mpr hd)) hshows

end

end McpgSql.Cdc
