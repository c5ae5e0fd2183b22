import McpgSql.Cdc.Shown

/-!
# No duplicate in a session

A change comes twice in a session only after a release of it. What is in flight
by the session's history (`inFlight`) is in `delivered`, or below the consumed
position: a transaction's changes leave `delivered` only when its end, which is
above them, is consumed. The message loop emits neither.
-/

namespace McpgSql.Cdc

open Library

/-! ## In flight -/

/-- The changes in flight after `happened`: a session starts with none. -/
def flying (flight : Finset Lsn) : Happening → Finset Lsn
  | .connected | .created => ∅
  | .delivered d => (receiptLsn d.receipt).elim flight (insert · flight)
  | .released receipt => (receiptLsn receipt).elim flight flight.erase
  | .acked _ => flight

/-- The changes delivered in the last session and not released since. -/
def inFlight (history : List Happening) : Finset Lsn := history.foldl flying ∅

/-- No delivery names a change that is in flight. -/
def Once (history : List Happening) : Prop :=
  ∀ before d after, history = before ++ .delivered d :: after →
    ∀ l, receiptLsn d.receipt = some l → l ∉ inFlight before

theorem inFlight_snoc (history : List Happening) (happened : Happening) :
    inFlight (history ++ [happened]) = flying (inFlight history) happened := by
  rw [inFlight, List.foldl_append]; rfl

theorem Once.snoc {history : List Happening} (h : Once history) {happened : Happening}
    (hnew : ∀ d, happened = .delivered d → ∀ l, receiptLsn d.receipt = some l →
      l ∉ inFlight history) : Once (history ++ [happened]) := by
  intro before d after heq l hl
  rcases List.eq_nil_or_concat after with rfl | ⟨after, last, rfl⟩
  · obtain ⟨rfl, hd⟩ := List.append_inj' heq rfl
    exact hnew d (List.singleton_inj.mp hd) l hl
  · rw [List.concat_eq_append, ← List.cons_append, ← List.append_assoc] at heq
    exact h before d after (List.append_inj_left' heq rfl) l hl

/-- A change stays in flight until a release of it or the next session. -/
theorem mem_foldl_flying {flight : Finset Lsn} {l : Lsn} (h : l ∈ flight) {history : List Happening}
    (hsession : .connected ∉ history ∧ .created ∉ history)
    (hrel : ∀ receipt, .released receipt ∈ history → receiptLsn receipt ≠ some l) :
    l ∈ history.foldl flying flight := by
  induction history generalizing flight with
  | nil => exact h
  | cons happened history ih =>
    simp only [List.mem_cons, not_or] at hsession
    refine ih ?_ ⟨hsession.1.2, hsession.2.2⟩ fun r hr => hrel r (List.mem_cons_of_mem _ hr)
    cases happened with
    | connected => exact absurd rfl hsession.1.1
    | created => exact absurd rfl hsession.2.1
    | acked receipt => exact h
    | delivered d =>
      simp only [flying]
      cases receiptLsn d.receipt with
      | none => exact h
      | some l' => exact Finset.mem_insert_of_mem h
    | released receipt =>
      have hne := hrel receipt List.mem_cons_self
      simp only [flying]
      cases hr : receiptLsn receipt with
      | none => exact h
      | some l' =>
        rw [hr] at hne
        exact Finset.mem_erase.mpr ⟨fun heq => hne (by rw [heq]), h⟩

/-- The deliveries of one change: the last one names it, the others nothing. -/
theorem deliveriesOf_cases (lsn : Lsn) (events : List WatchEvent) :
    deliveriesOf lsn events = [] ∨ ∃ front d, deliveriesOf lsn events = front ++ [d] ∧
      (∀ d' ∈ front, receiptLsn d'.receipt = none) ∧ receiptLsn d.receipt = some lsn := by
  rcases List.eq_nil_or_concat events with rfl | ⟨front, last, rfl⟩
  · exact .inl rfl
  · right
    simp only [deliveriesOf, List.concat_eq_append, List.mapIdx_concat, List.length_append,
      List.length_singleton]
    refine ⟨_, _, rfl, fun d' hd' => ?_, by simp⟩
    obtain ⟨i, hi, rfl⟩ := List.mem_mapIdx.mp hd'
    rw [if_neg (by omega)]
    rfl

/-! ## What the watch knows of it -/

/-- What is in flight is marked, and what is held is below its end. -/
structure Progress.Marks (flight : Finset Lsn) (p : Progress) : Prop where
  marked : ∀ l ∈ flight, l ∈ p.delivered ∨ l < p.consumed
  below : ∀ {e tx}, p.transactions.get? e = some tx → ∀ l ∈ tx.changes, l < e

namespace Progress.Marks

variable {p : Progress} {flight : Finset Lsn}

theorem fresh : Progress.Marks ∅ {} where
  marked _ hl := by cases hl
  below hget := by cases hget

theorem deliver (h : p.Marks flight) (lsn : Lsn) : (p.deliver lsn).Marks flight where
  marked l hl := (h.marked l hl).imp_left Finset.mem_insert_of_mem
  below := h.below

theorem release (h : p.Marks flight) (lsn : Lsn) : (p.release lsn).Marks (flight.erase lsn) where
  marked l hl := by
    obtain ⟨hne, hl⟩ := Finset.mem_erase.mp hl
    exact (h.marked l hl).imp_left fun hd => Finset.mem_erase.mpr ⟨hne, hd⟩
  below := h.below

theorem ack (h : p.Marks flight) (lsn : Lsn) : (p.ack lsn).Marks flight := by
  refine ⟨by simpa using h.marked, fun {e tx} hget => ?_⟩
  obtain heq | ⟨e₀, tx₀, -, htx, heq⟩ := p.ack_cases lsn
  · rw [heq] at hget
    exact h.below hget
  · rw [heq, OrdMap.get?_insert] at hget
    split at hget
    · rename_i he
      cases hget
      exact fun l hl => he ▸ h.below htx l hl
    · exact h.below hget

theorem register (h : p.Marks flight) {t : Txn} (ht : ∀ l ∈ t.lsns, l < t.endLsn) :
    (p.register t.endLsn t.lsns).Marks flight := by
  refine ⟨by simpa using h.marked, fun {e tx} hget => ?_⟩
  by_cases hle : t.endLsn ≤ p.consumed
  · rw [register_of_le hle] at hget
    exact h.below hget
  · rw [register_transactions hle] at hget
    split at hget
    · rename_i he
      cases hget
      exact fun l hl => he ▸ ht l (List.mem_toFinset.mp hl)
    · exact h.below hget

theorem consume (h : p.Marks flight) {e : Lsn} {tx : Transaction}
    (hfirst : p.transactions.first? = some (e, tx)) : (p.consume e tx).Marks flight := by
  refine ⟨fun l hl => ?_, fun {e' tx'} hget => ?_⟩
  · simp only [Progress.consume, lt_max_iff, Finset.mem_sdiff]
    rcases h.marked l hl with hd | hlt
    · by_cases hch : l ∈ tx.changes
      · exact .inr (.inr (h.below (OrdMap.get?_of_first? hfirst) l hch))
      · exact .inl ⟨hd, hch⟩
    · exact .inr (.inl hlt)
  · simp only [Progress.consume, OrdMap.get?_erase] at hget
    split at hget
    · cases hget
    · exact h.below hget

theorem advance (h : p.Marks flight) : p.advance.1.Marks flight :=
  Progress.advance_induct (I := fun p _ => p.Marks flight) h fun hI hfirst _ => hI.consume hfirst

end Progress.Marks

/-- Deliveries that name nothing change nothing. -/
theorem unnamed_deliveries {history : List Happening} (h : Once history) {ds : List Delivery}
    (hds : ∀ d ∈ ds, receiptLsn d.receipt = none) :
    Once (history ++ ds.map .delivered) ∧
      inFlight (history ++ ds.map .delivered) = inFlight history := by
  induction ds using List.reverseRecOn with
  | nil => simpa using h
  | append_singleton ds d ih =>
    obtain ⟨hone, heq⟩ := ih fun d' hd' => hds d' (List.mem_append_left _ hd')
    have hnone := hds d (by simp)
    rw [List.map_append, List.map_singleton, ← List.append_assoc]
    refine ⟨hone.snoc fun d' hd' l hl => ?_, ?_⟩
    · obtain rfl := Happening.delivered.inj hd'
      rw [hnone] at hl
      cases hl
    · rw [inFlight_snoc, heq, flying, hnone]
      rfl

/-- The deliveries of a change that is not in flight put it there. -/
theorem named_deliveries {history : List Happening} (h : Once history) {lsn : Lsn}
    (hlsn : lsn ∉ inFlight history) (events : List WatchEvent) :
    Once (history ++ (deliveriesOf lsn events).map .delivered) ∧
      inFlight (history ++ (deliveriesOf lsn events).map .delivered) ⊆
        insert lsn (inFlight history) := by
  rcases deliveriesOf_cases lsn events with hnil | ⟨front, d, heq, hfront, hd⟩
  · rw [hnil]
    simpa using h
  · obtain ⟨hone, hflight⟩ := unnamed_deliveries h hfront
    rw [heq, List.map_append, List.map_singleton, ← List.append_assoc]
    refine ⟨hone.snoc fun d' hd' l hl => ?_, ?_⟩
    · obtain rfl := Happening.delivered.inj hd'
      rw [hd] at hl
      obtain rfl := Option.some.inj hl
      rwa [hflight]
    · rw [inFlight_snoc, hflight, flying, hd]
      exact Finset.Subset.refl _

/-- In the message loop after `history`: no change in flight is delivered, and
what is in flight is marked. -/
structure Peeking.Single (history : List Happening) (st : Peeking) : Prop where
  once : Once (history ++ st.deliveries.map .delivered)
  marked : ∀ l ∈ inFlight (history ++ st.deliveries.map .delivered),
    l ∈ st.progress.delivered ∨ l < st.progress.consumed

section

variable (lib : Codec) (slot : String) (max : Nat) {history : List Happening} {p : Progress}

theorem peekLoop_single (h : Once history) (hmarks : p.Marks (inFlight history)) (messages : Rows) :
    (peekLoop lib slot max { progress := p } messages).1.Single history := by
  have hstart : ({ progress := p } : Peeking).Single history := by
    refine ⟨?_, ?_⟩ <;> simp only [List.map_nil, List.append_nil]
    · exact h
    · exact hmarks.marked
  refine peekLoop_induct (fun {st lsn _ _} _ hI hm => ?_) hstart
  obtain ⟨_, -, -, rfl⟩ | ⟨_, -, -, rfl⟩ | ⟨e, -, rfl⟩ | ⟨-, hm⟩ := peekMessage_cases hm
  · exact ⟨hI.once, hI.marked⟩
  · exact ⟨hI.once, hI.marked⟩
  · exact ⟨hI.once, by simpa using hI.marked⟩
  · obtain ⟨-, rfl⟩ | ⟨events, hs, -, rfl⟩ := peekChange_cases hm
    · exact ⟨hI.once, hI.marked⟩
    · simp only [Peeking.skips, Bool.or_eq_false_iff, decide_eq_false_iff_not, not_lt] at hs
      have hnot : lsn ∉ inFlight (history ++ st.deliveries.map .delivered) := by
        intro hin
        rcases hI.marked lsn hin with hd | hlt
        · exact hs.1.2 hd
        · exact absurd hlt (not_lt.mpr hs.1.1)
      obtain ⟨hone, hsub⟩ := named_deliveries hI.once hnot events
      refine ⟨?_, ?_⟩ <;> simp only [List.map_append, ← List.append_assoc]
      · exact hone
      · intro l hl
        rcases Finset.mem_insert.mp (hsub hl) with rfl | hl
        · exact .inl (Finset.mem_insert_self _ _)
        · exact (hI.marked l hl).imp_left Finset.mem_insert_of_mem

/-- The loop over transactions whose changes are below their end. -/
theorem peekLoop_below (h : p.Marks (inFlight history)) {messages : Rows} {ts : List Txn}
    (hts : transactionsOf none messages = some ts) (hbelow : BelowEnd ts) :
    (peekLoop lib slot max { progress := p } messages).1.progress.Marks (inFlight history) := by
  obtain ⟨-, -, hmarks⟩ := peekLoop_transactions lib slot max
    (I := fun _ p => p.Marks (inFlight history)) (fun hI _ _ => hI.deliver _)
    (fun hall hI => hI.register fun l hl => hbelow _ (by rw [hall]; simp) l hl) hts h
  exact hmarks

end

/-! ## Along a run -/

/-- The invariant of a session. -/
structure World.Single (w : World) : Prop where
  once : Once w.history
  progress : w.cdc.progress.Marks (inFlight w.history)
  reading : ∀ max messages out, w.phase = .read max messages out →
    ∃ ts, transactionsOf none messages = some ts ∧ BelowEnd ts
  held : ∀ d ∈ w.phase.held, receiptLsn d.receipt = none

theorem World.Single.of_eq {w w' : World} (h : w.Single) (hhist : w'.history = w.history)
    (hprog : w'.cdc.progress.Marks (inFlight w.history))
    (hphase : w'.phase = w.phase ∨ w'.phase.held = [] ∧ ∀ max messages out,
      w'.phase ≠ .read max messages out) : w'.Single := by
  refine ⟨hhist ▸ h.once, hhist ▸ hprog, fun max messages out hp => ?_, ?_⟩
  · rcases hphase with heq | ⟨-, hne⟩
    · exact h.reading max messages out (heq ▸ hp)
    · exact absurd hp (hne max messages out)
  · rcases hphase with heq | ⟨hnil, -⟩
    · rw [heq]
      exact h.held
    · rw [hnil]
      exact fun _ hd => by cases hd

/-- A new session: nothing is in flight. -/
theorem World.Single.session {w : World} (h : w.Single) (hp : w.phase = .idle) {happened : Happening}
    (hh : happened = .connected ∨ happened = .created) (created : Bool) (slot : Option Slot) :
    ({ w with cdc := w.cdc.connected created, slot, history := w.history ++ [happened] } :
      World).Single := by
  refine ⟨h.once.snoc fun d hd => ?_, ?_, fun max messages out hr => ?_, ?_⟩
  · rcases hh with rfl | rfl <;> cases hd
  · have : inFlight (w.history ++ [happened]) = ∅ := by
      rw [inFlight_snoc]
      rcases hh with rfl | rfl <;> rfl
    rw [this]
    exact .fresh
  · rw [hp] at hr
    cases hr
  · rw [hp]
    exact fun _ hd => by cases hd

theorem Step.single {lib : Codec} {w w' : World} {a : Action} (h : Step lib w a w')
    (hgood : ∀ s, w.slot = some s → BelowEnd s.txns) (hw : w.Single) : w'.Single := by
  cases h with
  | connect hp hs => exact hw.session hp (.inl rfl) false w.slot
  | create hp hs hf => exact hw.session hp (.inr rfl) true (some _)
  | drop => exact hw.of_eq rfl hw.progress (.inl rfl)
  | commit hs => exact hw.of_eq rfl hw.progress (.inl rfl)
  | start hp hpool =>
    refine ⟨hw.once, hw.progress, by simp, fun d hd => ?_⟩
    simp only [Phase.held] at hd
    split at hd
    · rw [List.mem_singleton.mp hd]
      rfl
    · cases hd
  | readFailed hp => exact hw.of_eq rfl hw.progress (.inr ⟨rfl, by simp⟩)
  | readOn hp hs ho =>
    exact ⟨hw.once, hw.progress, by simp, fun d hd => hw.held d (by rw [hp]; exact hd)⟩
  | @read _ _ _ s _ hp hs ho =>
    refine ⟨hw.once, hw.progress, fun max messages out hr => ?_,
      fun d hd => hw.held d (by rw [hp]; exact hd)⟩
    cases hr
    obtain ⟨ts, hts, hpre⟩ := Slot.outputs_prefix ho
    exact ⟨ts, hts, fun t ht => hgood s hs t (List.mem_of_mem_filter (hpre.subset ht))⟩
  | @process max messages out st hp hl =>
    obtain ⟨ts, hts, hbelow⟩ := hw.reading _ _ _ hp
    -- The gap delivery that is held comes first, and names nothing.
    obtain ⟨hone, hflight⟩ := unnamed_deliveries hw.once fun d hd => hw.held d (by rw [hp]; exact hd)
    have hmarks := hw.progress
    rw [← hflight] at hmarks
    have hsingle := peekLoop_single lib w.cdc.slot max hone hmarks messages
    have hprog := peekLoop_below lib w.cdc.slot max hmarks hts hbelow
    rw [hl] at hsingle hprog
    refine ⟨?_, ⟨?_, hprog.below⟩, by simp, fun _ hd => by cases hd⟩
      <;> simp only [List.map_append, ← List.append_assoc]
    · exact hsingle.once
    · exact hsingle.marked
  | @processFailed max _ _ _ _ hp hl =>
    obtain ⟨ts, hts, hbelow⟩ := hw.reading _ _ _ hp
    have hprog := peekLoop_below lib w.cdc.slot max hw.progress hts hbelow
    rw [hl] at hprog
    exact hw.of_eq rfl hprog (.inr ⟨rfl, by simp⟩)
  | settle hp =>
    refine hw.of_eq rfl ?_ (.inr ⟨rfl, by simp⟩)
    simp only [PostgresCdc.settle]
    split
    · exact hw.progress.advance
    · split <;> exact hw.progress.advance
  | @ack receipt =>
    have hflight : inFlight (w.history ++ [.acked receipt]) = inFlight w.history := inFlight_snoc ..
    refine ⟨hw.once.snoc (fun _ hd => by cases hd), ?_, hw.reading, hw.held⟩
    rw [hflight]
    simp only [PostgresCdc.ack]
    split
    · exact hw.progress
    · exact hw.progress.ack _
  | @release receipt =>
    refine ⟨hw.once.snoc (fun _ hd => by cases hd), ?_, hw.reading, hw.held⟩
    simp only [inFlight_snoc, flying, PostgresCdc.release]
    cases receiptLsn receipt with
    | none => exact hw.progress
    | some lsn => exact hw.progress.release lsn

theorem reach_single {lib : Codec} {ok : World → Action → Prop} {w : World}
    (h : (cdcMachine lib BelowEnd).Reach ok w) : w.Single := by
  refine h.invariant_of reach_good (fun {w} h₀ => ⟨?_, ?_, ?_, ?_⟩) fun _ hst hgood hw =>
    (Step.of_next hst.1).single hgood hw
  · rw [h₀.history]
    exact fun before d after heq => absurd heq (by simp)
  · rw [h₀.progress, h₀.history]
    exact .fresh
  · rw [h₀.phase]
    nofun
  · rw [h₀.phase]
    exact fun _ hd => by cases hd

/-- In one session a change is delivered a second time only after a release of
it: where every change is below the end of its transaction, two deliveries that
name `lsn`, with no `connect` between them, have a release of `lsn` between
them. -/
theorem redelivered_only_after_release (lib : Codec) (w : World)
    (h : (cdcMachine lib BelowEnd).Reach (fun _ _ => True) w)
    (before between after : List Happening) (d d' : Delivery) (lsn : Lsn)
    (hhist : w.history = before ++ .delivered d :: (between ++ .delivered d' :: after))
    (hd : receiptLsn d.receipt = some lsn) (hd' : receiptLsn d'.receipt = some lsn)
    (hsession : .connected ∉ between ∧ .created ∉ between) :
    ∃ receipt, .released receipt ∈ between ∧ receiptLsn receipt = some lsn := by
  by_contra hno
  push Not at hno
  have hsplit : w.history =
      (before ++ [.delivered d] ++ between) ++ .delivered d' :: after := by
    rw [hhist]
    simp only [List.append_assoc, List.cons_append, List.nil_append]
  refine (reach_single h).once _ d' after hsplit lsn hd' ?_
  rw [inFlight, List.foldl_append]
  refine mem_foldl_flying ?_ hsession hno
  rw [← inFlight, inFlight_snoc, flying, hd]
  exact Finset.mem_insert_self _ _

/-- A delivery of the change at 90, a release and another delivery of the change. -/
def redeliversNinety : List Happening → Bool
  | [.connected, .delivered d, .released _, .delivered d'] =>
    receiptLsn d.receipt = some 90 && receiptLsn d'.receipt = some 90
  | _ => false

/-- The theorem on the insert at 90, delivered, released and delivered again. -/
theorem released_and_redelivered : ∃ w : World, ∃ before between after d d',
    w.history = before ++ .delivered d :: (between ++ .delivered d' :: after) ∧
    receiptLsn d.receipt = some 90 ∧ receiptLsn d'.receipt = some 90 ∧
    ∃ receipt, .released receipt ∈ between ∧ receiptLsn receipt = some 90 := by
  obtain ⟨w, hrun, hshape⟩ : ∃ w ∈ (sampleWorld sampleSlot).run sampleCodec
      [.connect, .commit, .start 10, .read (sampleOutput 100 [90]), .process,
        .settle (.ok ()) false, .release (receiptOf 90), .start 10, .read (sampleOutput 100 [90]),
        .process],
      redeliversNinety w.history = true := by
    decide
  rw [redeliversNinety.eq_def] at hshape
  split at hshape
  case h_2 => cases hshape
  rename_i d receipt d' hhist
  simp only [Bool.and_eq_true, decide_eq_true_eq] at hshape
  have h : (cdcMachine sampleCodec BelowEnd).Reach (fun _ _ => True) w :=
    reach_run (fun _ _ _ => trivial) (by simp)
      (.init (sampleWorld_initial (by unfold BelowEnd; decide) (by decide))) hrun
  have hhist' : w.history = [.connected] ++ .delivered d :: ([.released receipt] ++ [.delivered d']) :=
    hhist
  exact ⟨w, _, _, _, d, d', hhist', hshape.1, hshape.2, redelivered_only_after_release sampleCodec w h
    _ _ _ d d' 90 hhist' hshape.1 hshape.2 (by simp)⟩

end McpgSql.Cdc
