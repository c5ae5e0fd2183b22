import McpgSql.Cdc.Budget
import McpgSql.Cdc.Straggler

/-!
# A TRUNCATE of several tables

A TRUNCATE has one event for each of its tables and is one change: only its last event has
a receipt, so what the gateway says of the others is not heard. The slot is not advanced
past it before the last event is acknowledged, and after a release of the last event all of
its events come again (`truncate_settled_by_last`).

* `DeliversAll`: all the events of a change, one after the other;
* `Step.again`: what was released is not in flight, or has come again with all its events.
-/

namespace McpgSql.Cdc

open Library

/-- All the events of the change are among the deliveries, one after the other. -/
def DeliversAll (lib : Codec) (slot : String) (row : Lsn × Message) (ds : List Delivery) : Prop :=
  ∃ begin relations events, changeEvents lib slot row.1 begin relations row.2 = .ok events ∧
    deliveriesOf row.1 events <:+: ds

/-- The slot is not dropped, and the reads announce the relations of their changes. -/
def Announces (w : World) (a : Action) : Prop :=
  NeverDropped w a ∧ ∀ messages, a = .read messages → Announced [] messages

theorem DeliversAll.mono {lib : Codec} {slot : String} {row : Lsn × Message} {ds ds' : List Delivery}
    (h : DeliversAll lib slot row ds) (hds : ds <:+: ds') : DeliversAll lib slot row ds' := by
  obtain ⟨begin, relations, events, hevents, hin⟩ := h
  exact ⟨begin, relations, events, hevents, hin.trans hds⟩

theorem deliveries_append (history more : List Happening) :
    deliveries (history ++ more) = deliveries history ++ deliveries more := List.filterMap_append

theorem deliveries_map (ds : List Delivery) : deliveries (ds.map .delivered) = ds := by
  rw [deliveries, List.filterMap_map]
  exact List.filterMap_some

/-- The deliveries of a TRUNCATE: one for each table, and only the last has a receipt. -/
theorem truncate_receipts {lib : Codec} {slot : String} {lsn : Lsn} {begin : Option (Nat × Int)}
    {relations : Relations} {oids : List Nat} {cascade restartIdentity : Bool} {events : List WatchEvent}
    (h : changeEvents lib slot lsn begin relations (.truncate oids cascade restartIdentity) = .ok events) :
    (deliveriesOf lsn events).map Delivery.receipt =
      (List.range oids.length).map fun i => if i + 1 = oids.length then receiptOf lsn else .null := by
  have hlength := changeEvents_length h
  have hoids : events.length = oids.length := hlength
  refine List.ext_getElem (by simp [deliveriesOf, hoids]) fun i hi hi' => ?_
  simp [deliveriesOf, hoids]

/-! ## In a peek -/

/-- What the loop puts in flight it delivers, with all its events. -/
theorem peekLoop_delivers_all (lib : Codec) (slot : String) (max : Nat) (p : Progress) (messages : Rows) :
    let st := (peekLoop lib slot max { progress := p } messages).1
    ∀ l ∈ st.progress.delivered, l ∈ p.delivered ∨
      ∃ row ∈ messages, row.2.isChange = true ∧ row.1 = l ∧ DeliversAll lib slot row st.deliveries := by
  refine peekLoop_induct (I := fun st => ∀ l ∈ st.progress.delivered, l ∈ p.delivered ∨
    ∃ row ∈ messages, row.2.isChange = true ∧ row.1 = l ∧ DeliversAll lib slot row st.deliveries)
    (fun {st lsn message st'} hmem hI hm => ?_) fun l hl => .inl hl
  obtain ⟨_, -, -, rfl⟩ | ⟨_, -, -, rfl⟩ | ⟨e, -, rfl⟩ | ⟨hc, hm⟩ := peekMessage_cases hm
  · exact hI
  · exact hI
  · simpa using hI
  · obtain ⟨-, rfl⟩ | ⟨events, -, hevents, rfl⟩ := peekChange_cases hm
    · exact hI
    · intro l hl
      rcases Finset.mem_insert.mp hl with rfl | hl
      · exact .inr ⟨(l, message), hmem, hc, rfl, _, _, events, hevents, (List.suffix_append _ _).isInfix⟩
      · exact (hI l hl).imp_right fun ⟨row, hrow, hchange, hlsn, hall⟩ =>
          ⟨row, hrow, hchange, hlsn, hall.mono (List.prefix_append _ _).isInfix⟩

/-- A read that announces its relations is delivered, what its first rows have first. -/
theorem process_ok (lib : Codec) (cdc : PostgresCdc) (max : Nat) {front back : Rows}
    (hann : Announced [] (front ++ back)) : ∃ new, (cdc.process lib max (front ++ back)).2 = .ok new ∧
      (peekLoop lib cdc.slot max { progress := cdc.progress } front).1.deliveries <+: new := by
  have hnone : (peekLoop lib cdc.slot max { progress := cdc.progress } (front ++ back)).2 = none :=
    peekLoop_announced lib cdc.slot max (by simp) hann
  unfold PostgresCdc.process
  rw [peekLoop_append] at hnone ⊢
  cases hfront : peekLoop lib cdc.slot max { progress := cdc.progress } front with
  | mk st err =>
    rw [hfront] at hnone
    cases err with
    | some e => cases hnone
    | none =>
      have hprefix := peekLoop_deliveries_split lib cdc.slot max st back
      dsimp only at hnone ⊢
      cases hback : peekLoop lib cdc.slot max st back with
      | mk st' err =>
        rw [hback] at hnone hprefix
        cases hnone
        exact ⟨_, rfl, hprefix⟩

/-- An advance puts nothing in flight. -/
theorem advance_delivered_subset (p : Progress) : p.advance.1.delivered ⊆ p.delivered :=
  Progress.advance_induct (I := fun p' _ => p'.delivered ⊆ p.delivered) (Finset.Subset.refl _)
    fun hI _ _ => Finset.sdiff_subset.trans hI

/-! ## Along a run -/

/-- On the slot `s`: what was released is not in flight, or all its events were delivered
since; and a read announces its relations. -/
structure World.Again (lib : Codec) (w : World) (s : Slot) : Prop where
  again : ∀ before receipt since l, w.history = before ++ .released receipt :: since →
    receiptLsn receipt = some l → l ∈ w.cdc.progress.delivered →
    ∃ t ∈ s.txns, ∃ row ∈ t.changes, row.1 = l ∧ DeliversAll lib w.cdc.slot row (deliveries since)
  reading : ∀ max messages out, w.phase = .read max messages out → Announced [] messages

section

variable {lib : Codec} {w w' : World} {s s' : Slot}

/-- A release that is not among what came last came before it. -/
theorem history_split {history more before since : List Happening} {receipt : Value}
    (hmore : .released receipt ∉ more) (h : history ++ more = before ++ .released receipt :: since) :
    ∃ since', history = before ++ .released receipt :: since' ∧ since = since' ++ more := by
  rcases List.append_eq_append_iff.mp h with ⟨rest, -, hin⟩ | ⟨rest, rfl, hin⟩
  · exact absurd (by rw [hin]; simp) hmore
  · cases rest with
    | nil => exact absurd (by rw [← List.nil_append more, ← hin]; simp) hmore
    | cons happened rest =>
      obtain ⟨rfl, rfl⟩ := List.cons.inj hin
      exact ⟨rest, rfl, rfl⟩

/-- A step that is not a release: what it puts in flight it delivers. -/
theorem World.Again.step (h : w.Again lib s) (htxns : s'.txns = s.txns) (hslot : w'.cdc.slot = w.cdc.slot)
    {more : List Happening} (hhist : w'.history = w.history ++ more)
    (hmore : ∀ receipt, .released receipt ∉ more)
    (hflight : ∀ l ∈ w'.cdc.progress.delivered, l ∈ w.cdc.progress.delivered ∨
      ∃ t ∈ s.txns, ∃ row ∈ t.changes, row.1 = l ∧ DeliversAll lib w.cdc.slot row (deliveries more))
    (hread : ∀ max messages out, w'.phase = .read max messages out →
      w'.phase = w.phase ∨ Announced [] messages) : w'.Again lib s' where
  again before receipt since l hsplit hreceipt hl := by
    rw [hhist] at hsplit
    obtain ⟨since', hbefore, rfl⟩ := history_split (hmore receipt) hsplit
    rw [htxns, hslot, deliveries_append]
    rcases hflight l hl with hl | ⟨t, ht, row, hrow, hlsn, hall⟩
    · obtain ⟨t, ht, row, hrow, hlsn, hall⟩ := h.again before receipt since' l hbefore hreceipt hl
      exact ⟨t, ht, row, hrow, hlsn, hall.mono (List.prefix_append _ _).isInfix⟩
    · exact ⟨t, ht, row, hrow, hlsn, hall.mono (List.suffix_append _ _).isInfix⟩
  reading max messages out hp := by
    rcases hread max messages out hp with heq | hann
    · exact h.reading max messages out (heq ▸ hp)
    · exact hann

/-- A release takes the change that it names out of flight. -/
theorem mem_of_release {cdc : PostgresCdc} {receipt : Value} {l : Lsn}
    (h : l ∈ (cdc.release receipt).progress.delivered) :
    l ∈ cdc.progress.delivered ∧ receiptLsn receipt ≠ some l := by
  unfold PostgresCdc.release at h
  split at h
  · rename_i hnone
    exact ⟨h, by rw [hnone]; nofun⟩
  · rename_i lsn hlsn
    obtain ⟨hne, hl⟩ := Finset.mem_erase.mp h
    exact ⟨hl, by rw [hlsn]; exact fun heq => hne (Option.some.inj heq).symm⟩

/-- After a release: its change is not in flight, and the others are as before. -/
theorem World.Again.release (h : w.Again lib s) (receipt : Value) :
    ({ w with cdc := w.cdc.release receipt, history := w.history ++ [.released receipt] } :
      World).Again lib s where
  again before receipt' since l hsplit hreceipt hl := by
    obtain ⟨hl, hne⟩ := mem_of_release hl
    rw [PostgresCdc.release_slot]
    rcases List.eq_nil_or_concat since with rfl | ⟨since, last, rfl⟩
    · obtain ⟨-, hlast⟩ := List.append_inj' hsplit rfl
      cases hlast
      exact absurd hreceipt hne
    · rw [List.concat_eq_append, ← List.cons_append, ← List.append_assoc] at hsplit
      obtain ⟨t, ht, row, hrow, hlsn, hall⟩ :=
        h.again before receipt' since l (List.append_inj_left' hsplit rfl) hreceipt hl
      refine ⟨t, ht, row, hrow, hlsn, hall.mono ?_⟩
      rw [List.concat_eq_append, deliveries_append]
      exact (List.prefix_append _ _).isInfix
  reading := h.reading

theorem settle_progress (cdc : PostgresCdc) (advanced : Except String Unit) :
    (cdc.settle advanced).1.progress = cdc.progress.advance.1 := by
  unfold PostgresCdc.settle
  dsimp only
  split
  · rfl
  · split <;> rfl

theorem ack_delivered (cdc : PostgresCdc) (receipt : Value) :
    (cdc.ack receipt).progress.delivered = cdc.progress.delivered := by
  unfold PostgresCdc.ack
  split
  · rfl
  · exact Progress.ack_delivered _ _

theorem Step.again {a : Action} (h : Step lib w a w') (hok : Announces w a)
    (hshow : ∀ s, w.slot = some s → w.Showing lib s)
    (hw : ∀ s, w.slot = some s → w.Again lib s) : ∀ s, w'.slot = some s → w'.Again lib s := by
  intro s' hs'
  cases h with
  | connect hp hs =>
    exact (hw s' hs').step rfl rfl rfl (by simp) nofun fun _ _ _ hr => .inl rfl
  | create hp hs hf =>
    refine ⟨fun before receipt since l _ _ hl => ?_, fun _ _ _ hr => ?_⟩
    · cases hl
    · exact absurd (hp.symm.trans hr) nofun
  | drop => exact absurd rfl hok.1
  | @commit s hs =>
    cases hs'
    exact (hw s hs).step rfl rfl (List.append_nil _).symm (by simp) (fun _ hl => .inl hl)
      fun _ _ _ _ => .inl rfl
  | start hp hpool =>
    exact (hw s' hs').step rfl rfl (List.append_nil _).symm (by simp) (fun _ hl => .inl hl) nofun
  | readFailed hp =>
    exact (hw s' hs').step rfl rfl (List.append_nil _).symm (by simp) (fun _ hl => .inl hl) nofun
  | readOn hp hs ho =>
    exact (hw s' hs').step rfl rfl (List.append_nil _).symm (by simp) (fun _ hl => .inl hl) nofun
  | read hp hs ho =>
    refine (hw s' hs').step rfl rfl (List.append_nil _).symm (by simp) (fun _ hl => .inl hl)
      fun _ _ _ hr => ?_
    cases hr
    exact .inr (hok.2 _ rfl)
  | @process max messages out st hp hl =>
    have hagain := hw s' hs'
    have hdelivers := peekLoop_delivers_all lib w.cdc.slot max w.cdc.progress messages
    rw [hl] at hdelivers
    refine hagain.step rfl rfl rfl (by simp) (fun l hin => ?_) nofun
    refine (hdelivers l hin).imp_right fun ⟨row, hrow, hc, hlsn, hall⟩ => ?_
    obtain ⟨t, ht, hmem⟩ := (hshow s' hs').reading max messages out hp row hrow hc
    rw [deliveries_map]
    exact ⟨t, ht, row, hmem, hlsn, hall.mono (List.suffix_append _ _).isInfix⟩
  | @processFailed max messages out st e hp hl =>
    have hnone : (peekLoop lib w.cdc.slot max { progress := w.cdc.progress } messages).2 = none :=
      peekLoop_announced lib w.cdc.slot max (by simp) ((hw s' hs').reading max messages out hp)
    rw [hl] at hnone
    cases hnone
  | @settle out advanced moved hp =>
    obtain ⟨s, hs, rfl⟩ := Option.map_eq_some_iff.mp hs'
    refine (hw s hs).step (by simp) (by simp) (List.append_nil _).symm (by simp) (fun l hl => .inl ?_) nofun
    rw [settle_progress] at hl
    exact advance_delivered_subset w.cdc.progress hl
  | @ack receipt =>
    refine (hw s' hs').step rfl (by simp) rfl (by simp) (fun l hl => .inl ?_) fun _ _ _ _ => .inl rfl
    rwa [ack_delivered] at hl
  | release => exact (hw s' hs').release _

theorem reach_neverDropped {good : List Txn → Prop} (h : (cdcMachine lib good).Reach Announces w) :
    (cdcMachine lib good).Reach NeverDropped w :=
  h.mono (I := fun _ => True) (fun _ => trivial) fun _ hok _ => hok.1

/-- What is asked of the transactions may be less. -/
theorem reach_weaker {good good' : List Txn → Prop} {ok : World → Action → Prop}
    (hgood : ∀ txns, good txns → good' txns) (h : (cdcMachine lib good).Reach ok w) :
    (cdcMachine lib good').Reach ok w := by
  induction h with
  | init h => exact .init { h with slot := fun s hs => ⟨hgood _ (h.slot s hs).1, (h.slot s hs).2⟩ }
  | step _ hok hst ih => exact .step ih hok ⟨hst.1, fun s hs => hgood _ (hst.2 s hs)⟩

theorem reach_again {good : List Txn → Prop} (h : (cdcMachine lib good).Reach Announces w) :
    ∀ s, w.slot = some s → w.Again lib s := by
  refine h.invariant_of (fun hr => reach_showing (reach_neverDropped hr))
    (fun {w} h₀ s hs => ⟨?_, ?_⟩) fun hok hst hshow hw => (Step.of_next hst.1).again hok hshow hw
  · rw [h₀.history]
    exact fun before _ _ _ hsplit => absurd hsplit (by simp)
  · rw [h₀.phase]
    nofun

end

/-- A TRUNCATE is settled by its last event. Its other events have no receipt, and saying
null changes nothing. The slot is not advanced past its transaction before the last event
was acknowledged. When the last event was released and is not acknowledged, all the events
were delivered again since, or the receive at hand delivers them if it reaches the TRUNCATE
with a budget left. -/
theorem truncate_settled_by_last (lib : Codec) (w : World)
    (h : (cdcMachine lib fun txns => DistinctLsns txns ∧ Sequential txns).Reach Announces w) (s : Slot)
    (hs : w.slot = some s) (t : Txn) (ht : t ∈ s.txns) (l : Lsn) (oids : List Nat)
    (cascade restartIdentity : Bool) (hrow : (l, .truncate oids cascade restartIdentity) ∈ t.changes) :
    (∀ begin relations events,
      changeEvents lib w.cdc.slot l begin relations (.truncate oids cascade restartIdentity) = .ok events →
      (deliveriesOf l events).map Delivery.receipt =
        (List.range oids.length).map fun i => if i + 1 = oids.length then receiptOf l else .null) ∧
    (w.cdc.ack .null = w.cdc ∧ w.cdc.release .null = w.cdc) ∧
    (∀ out target, w.phase = .settling out → w.cdc.settleTarget = some target → t.endLsn ≤ target →
      l ∈ ackedLsns w.history) ∧
    ∀ before receipt since, w.history = before ++ .released receipt :: since →
      receiptLsn receipt = some l → l ∉ ackedLsns w.history →
      DeliversAll lib w.cdc.slot (l, .truncate oids cascade restartIdentity) (deliveries since) ∨
      ∀ max front back out,
        w.phase = .read max (front ++ (l, .truncate oids cascade restartIdentity) :: back) out →
        (peekLoop lib w.cdc.slot max { progress := w.cdc.progress } front).1.deliveries.length < max →
        ∃ new, (w.cdc.process lib max
            (front ++ (l, .truncate oids cascade restartIdentity) :: back)).2 = .ok new ∧
          DeliversAll lib w.cdc.slot (l, .truncate oids cascade restartIdentity) new := by
  have hdropped := reach_neverDropped h
  have hsafe := reach_safe (reach_createsSafely hdropped) s hs
  have hgood := reach_good h s hs
  have hagain := reach_again h s hs
  refine ⟨fun _ _ _ => truncate_receipts, ⟨rfl, rfl⟩, fun out target _ htarget hle => ?_,
    fun before receipt since hhist hreceipt hacked => ?_⟩
  · exact hsafe.settleTarget htarget t ht hle l (List.mem_map_of_mem hrow)
  · have hshow := reach_showing hdropped s hs
    -- The change of the slot at `l` is the TRUNCATE.
    have honly : ∀ t' ∈ s.txns, ∀ row ∈ t'.changes, row.1 = l →
        row = (l, .truncate oids cascade restartIdentity) := fun t' ht' row hrow' hlsn =>
      hgood.1.eq_of_lsn ht' hrow' ht hrow hlsn
    by_cases hflight : l ∈ w.cdc.progress.delivered
    · obtain ⟨t', ht', row, hrow', hlsn, hall⟩ := hagain.again before receipt since l hhist hreceipt hflight
      exact .inl (honly t' ht' row hrow' hlsn ▸ hall)
    · refine .inr fun max front back out hphase hbudget => ?_
      have hann := hagain.reading _ _ _ hphase
      by_cases hin : l ∈
          (peekLoop lib w.cdc.slot max { progress := w.cdc.progress } front).1.progress.delivered
      · obtain hmem | ⟨row, hmem, hc, hlsn, hall⟩ :=
          peekLoop_delivers_all lib w.cdc.slot max w.cdc.progress front l hin
        · exact absurd hmem hflight
        · obtain ⟨t', ht', hrow'⟩ := hshow.reading _ _ _ hphase row (List.mem_append_left _ hmem) hc
          rw [honly t' ht' row hrow' hlsn] at hall
          obtain ⟨new, hnew, hprefix⟩ := process_ok lib w.cdc max hann
          exact ⟨new, hnew, hall.mono hprefix.isInfix⟩
      · have hconsumed : w.cdc.progress.consumed < t.endLsn := by
          by_contra hnot
          exact hacked (hsafe.progress.consumed t ht (not_lt.mp hnot) l (List.mem_map_of_mem hrow))
        have hunconsumed := unconsumed_delivered lib w (reach_weaker (fun _ hg => hg.2) hdropped)
        obtain ⟨new, events, hnew, hevents, hinfix⟩ := (hunconsumed s max _ out hs hphase hann).1 front l
          _ back rfl rfl t ht hrow hconsumed hin hbudget
        exact ⟨new, hnew, _, _, events, hevents, hinfix⟩

/-! ### Two tables -/

def twoTables : Message := .truncate [16384, 16385] false false

/-- A slot whose only transaction is a TRUNCATE of two tables. -/
def truncateSlot : Slot where
  txns := [⟨20, [(11, twoTables)]⟩]
  committed := 0
  confirmed := 0
  ordered := by decide
  positive := by decide

def truncateRows : Rows :=
  [(11, .begin 20 0 742), (11, .relation 16384 sampleRelation), (11, .relation 16385 sampleRelation),
    (11, twoTables), (20, .commit 20)]

/-- The TRUNCATE is delivered; the gateway says `heard`; and it is read again. -/
def truncateSession (heard : List Action) : List Action :=
  [.connect, .commit, .start 10, .read truncateRows, .process, .settle (.ok ()) false] ++ heard ++
    [.start 10, .read truncateRows]

theorem truncateRows_announced : Announced [] truncateRows := by
  simp [truncateRows, twoTables, Announced, Message.oids]

/-- An action that is allowed in every world, and creates no slot. -/
def harmless : Action → Bool
  | .create _ | .drop | .read _ => false
  | .connect | .commit | .start _ | .readFailed | .process | .settle .. | .ack _ | .release _ => true

theorem announces_of_harmless {a : Action} (h : harmless a = true ∨ a = .read truncateRows) (w : World) :
    Announces w a ∧ ∀ s, a ≠ .create s := by
  rcases h with h | rfl
  · cases a with
    | create | drop | read => cases h
    | _ => exact ⟨⟨nofun, nofun⟩, nofun⟩
  · refine ⟨⟨nofun, ?_⟩, nofun⟩
    rintro _ ⟨⟩
    exact truncateRows_announced

theorem truncateSession_reach (heard more : List Action)
    (hheard : (heard ++ more).all harmless = true) {w : World}
    (hrun : (sampleWorld truncateSlot).run sampleCodec (truncateSession heard ++ more) = some w) :
    (cdcMachine sampleCodec fun txns => DistinctLsns txns ∧ Sequential txns).Reach Announces w := by
  have hall : ∀ a ∈ truncateSession heard ++ more, harmless a = true ∨ a = .read truncateRows := by
    rw [List.all_eq_true] at hheard
    intro a ha
    simp only [truncateSession, List.mem_append, List.mem_cons, List.not_mem_nil, or_false] at ha
    rcases ha with (((rfl | rfl | rfl | rfl | rfl | rfl) | ha) | rfl | rfl) | ha
    case inl.inl.inr => exact .inl (hheard a (List.mem_append_left _ ha))
    case inr => exact .inl (hheard a (List.mem_append_right _ ha))
    all_goals first | exact .inl rfl | exact .inr rfl
  have hgood : DistinctLsns truncateSlot.txns ∧ Sequential truncateSlot.txns := by
    unfold DistinctLsns Sequential
    decide
  exact reach_run (fun a ha w => (announces_of_harmless (hall a ha) w).1)
    (fun s hs => absurd rfl ((announces_of_harmless (hall _ hs) w).2 s))
    (.init (sampleWorld_initial hgood (by decide))) hrun

/-- Of two deliveries the first is released, its receipt null, and the last acknowledged. -/
def releasesFirst : List Happening → Bool
  | [.connected, .delivered d, .delivered d', .released receipt, .acked receipt'] =>
    d.receipt = .null && receipt = .null && receipt' = d'.receipt && d'.receipt ≠ .null
  | _ => false

/-- The first event is released, and only the last is acknowledged: the slot is advanced to
the end of the TRUNCATE, and the first event does not come again. -/
theorem first_event_lost : ∃ w d d',
    (cdcMachine sampleCodec fun txns => DistinctLsns txns ∧ Sequential txns).Reach Announces w ∧
    w.history = [.connected, .delivered d, .delivered d', .released d.receipt, .acked d'.receipt] ∧
    .acked d.receipt ∉ w.history ∧ w.phase = .settling [] ∧ w.cdc.settleTarget = some 20 ∧
    ∃ w' s, w.next sampleCodec (.settle (.ok ()) false) = some w' ∧ w'.slot = some s ∧ s.pending = [] := by
  obtain ⟨w, hrun, hshape, hphase, htarget, w', hnext, s, hs, hpending⟩ :
      ∃ w ∈ (sampleWorld truncateSlot).run sampleCodec
        (truncateSession [.release .null, .ack (receiptOf 11)] ++ [.process]),
      releasesFirst w.history = true ∧ w.phase = .settling [] ∧ w.cdc.settleTarget = some 20 ∧
      ∃ w' ∈ w.next sampleCodec (.settle (.ok ()) false), ∃ s ∈ w'.slot, s.pending = [] := by
    decide +kernel
  rw [releasesFirst.eq_def] at hshape
  split at hshape
  case h_2 => cases hshape
  rename_i d d' receipt receipt' hhist
  simp only [Bool.and_eq_true, decide_eq_true_eq] at hshape
  obtain ⟨⟨⟨hd, rfl⟩, rfl⟩, hd'⟩ := hshape
  have hreach := truncateSession_reach [.release .null, .ack (receiptOf 11)] [.process] rfl hrun
  refine ⟨w, d, d', hreach, by rw [hhist, hd], ?_, hphase, htarget, w', s, hnext, hs, hpending⟩
  rw [hhist, hd]
  simp [Ne.symm hd']

/-- Two deliveries, and a release of the change at 11. -/
def releasesEleven : List Happening → Bool
  | [.connected, .delivered _, .delivered _, .released receipt] => receiptLsn receipt = some 11
  | _ => false

/-- The theorem where the last event is released: both come again. -/
theorem last_event_again : ∃ w : World, w.phase = .read 10 truncateRows [] ∧
    ∃ new, (w.cdc.process sampleCodec 10 truncateRows).2 = .ok new ∧
      DeliversAll sampleCodec w.cdc.slot (11, twoTables) new := by
  obtain ⟨w, hrun, hphase, ⟨s, hs, hmem⟩, hacked, hbudget, hshape⟩ :
      ∃ w ∈ (sampleWorld truncateSlot).run sampleCodec (truncateSession [.release (receiptOf 11)] ++ []),
      w.phase = .read 10 truncateRows [] ∧ (∃ s ∈ w.slot, ⟨20, [(11, twoTables)]⟩ ∈ s.txns) ∧
      11 ∉ ackedLsns w.history ∧
      (peekLoop sampleCodec w.cdc.slot 10 { progress := w.cdc.progress }
        (truncateRows.take 3)).1.deliveries.length < 10 ∧
      releasesEleven w.history = true := by
    decide +kernel
  rw [releasesEleven.eq_def] at hshape
  split at hshape
  case h_2 => cases hshape
  rename_i d d' receipt hhist
  have hreach := truncateSession_reach [.release (receiptOf 11)] [] rfl hrun
  obtain ⟨-, -, -, hagain⟩ := truncate_settled_by_last sampleCodec w hreach s hs _ hmem 11 _ _ _
    (List.mem_singleton.mpr rfl)
  rcases hagain [.connected, .delivered d, .delivered d'] receipt [] hhist (by simpa using hshape) hacked
    with ⟨_, _, events, hevents, hin⟩ | hdelivers
  · have hlength := changeEvents_length hevents
    have hnil : events = [] := by simpa [deliveriesOf] using List.infix_nil.mp hin
    rw [hnil] at hlength
    cases hlength
  · exact ⟨w, hphase, hdelivers 10 (truncateRows.take 3) _ [] hphase hbudget⟩

end McpgSql.Cdc
