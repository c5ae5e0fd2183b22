import McpgSql.Cdc.Failure
import McpgSql.Cdc.Output

/-!
# No advance past an unacknowledged change

`Progress.Backed`: every transaction the watch holds is one of the slot with its
own changes, and what comes before it is acknowledged or held too; so what
`advance` consumes is acknowledged. Every operation keeps it, and `World.Safe`
carries it along every run whose slots are created where no failed advance is
left to repeat past their changes (`CreatesSafely`).

* `reach_safe`: the invariant along such runs;
* `advance_only_past_acked`: every advance goes to acknowledged changes;
* `recreated_slot_skipped`: a run that repeats a failed advance on a new slot.
-/

namespace McpgSql.Cdc

open Library

/-! ## What is acknowledged -/

/-- Every change of the transaction is acknowledged. -/
def Txn.Acked (acked : Finset Lsn) (t : Txn) : Prop := ∀ l ∈ t.lsns, l ∈ acked

/-- Every transaction that ends at or below `x` is acknowledged. -/
def AckedTo (txns : List Txn) (acked : Finset Lsn) (x : Lsn) : Prop :=
  ∀ t ∈ txns, t.endLsn ≤ x → t.Acked acked

section

variable {txns : List Txn} {acked acked' : Finset Lsn}

theorem Txn.Acked.mono {t : Txn} (h : t.Acked acked) (hsub : acked ⊆ acked') : t.Acked acked' :=
  fun l hl => hsub (h l hl)

theorem AckedTo.mono {x : Lsn} (h : AckedTo txns acked x) (hsub : acked ⊆ acked') :
    AckedTo txns acked' x :=
  fun t ht hle => (h t ht hle).mono hsub

theorem AckedTo.max {x y : Lsn} (hx : AckedTo txns acked x) (hy : AckedTo txns acked y) :
    AckedTo txns acked (max x y) := by
  intro t ht hle
  rcases le_max_iff.mp hle with hle | hle
  · exact hx t ht hle
  · exact hy t ht hle

/-- Transactions in commit order are known by their end. -/
theorem txn_eq_of_endLsn (hord : txns.Pairwise fun a b => a.endLsn < b.endLsn) {a b : Txn}
    (ha : a ∈ txns) (hb : b ∈ txns) (h : a.endLsn = b.endLsn) : a = b := by
  have hnodup : (txns.map Txn.endLsn).Nodup :=
    List.pairwise_map.mpr (hord.imp fun hlt => ne_of_lt hlt)
  exact List.inj_on_of_nodup_map hnodup ha hb h

/-- What the slot outputs up to a transaction holds every earlier one that it
does not leave out. -/
theorem mem_of_endLsn_lt {c : Lsn} {done rest : List Txn} {t t' : Txn}
    (hord : txns.Pairwise fun a b => a.endLsn < b.endLsn)
    (hpre : done ++ t :: rest <+: txns.filter (c < ·.endLsn)) (ht' : t' ∈ txns) (hc : c < t'.endLsn)
    (hlt : t'.endLsn < t.endLsn) : t' ∈ done := by
  obtain ⟨suffix, hsuffix⟩ := hpre
  have hmem : t' ∈ txns.filter (c < ·.endLsn) := List.mem_filter.mpr ⟨ht', by simpa using hc⟩
  have hord' := hord.filter (c < ·.endLsn)
  rw [← hsuffix, List.append_assoc, List.cons_append] at hmem hord'
  rcases List.mem_append.mp hmem with hdone | hrest
  · exact hdone
  · have htail := (List.pairwise_append.mp hord').2.1
    rcases List.mem_cons.mp hrest with rfl | hrest
    · exact absurd hlt (lt_irrefl _)
    · exact absurd hlt (lt_asymm ((List.pairwise_cons.mp htail).1 t' hrest))

/-! ## What the watch holds -/

/-- `p` holds transactions of `txns` as they are, and nothing before what it
holds or has consumed is neither held nor acknowledged. -/
structure Progress.Backed (txns : List Txn) (acked : Finset Lsn) (p : Progress) : Prop where
  consumed : AckedTo txns acked p.consumed
  mark : p.consumed = 0 ∨ ∃ t ∈ txns, t.endLsn = p.consumed
  held : ∀ {e tx}, p.transactions.get? e = some tx → ∃ t ∈ txns, t.endLsn = e ∧
    tx.changes = t.lsns.toFinset ∧ tx.acked ⊆ tx.changes ∧ tx.acked ⊆ acked
  before : ∀ {e tx}, p.transactions.get? e = some tx → ∀ t ∈ txns, t.endLsn < e →
    t.Acked acked ∨ ∃ tx', p.transactions.get? t.endLsn = some tx'
  owner : ∀ {l e}, p.owner.get? l = some e → ∃ t ∈ txns, t.endLsn = e ∧ l ∈ t.lsns

namespace Progress.Backed

variable {p : Progress}

theorem mono (h : p.Backed txns acked) (hsub : acked ⊆ acked') : p.Backed txns acked' where
  consumed := h.consumed.mono hsub
  mark := h.mark
  held hget := by
    obtain ⟨t, ht, he, hch, ha, hA⟩ := h.held hget
    exact ⟨t, ht, he, hch, ha, hA.trans hsub⟩
  before hget t ht hlt := (h.before hget t ht hlt).imp_left fun hack => hack.mono hsub
  owner := h.owner

/-- A new session holds nothing. -/
theorem fresh (hpos : ∀ t ∈ txns, 0 < t.endLsn) : Progress.Backed txns acked {} where
  consumed t ht hle := absurd hle (not_le.mpr (hpos t ht))
  mark := .inl rfl
  held hget := by cases hget
  before hget := by cases hget
  owner hget := by cases hget

theorem deliver (h : p.Backed txns acked) (lsn : Lsn) : (p.deliver lsn).Backed txns acked :=
  ⟨h.consumed, h.mark, h.held, h.before, h.owner⟩

theorem release (h : p.Backed txns acked) (lsn : Lsn) : (p.release lsn).Backed txns acked :=
  ⟨h.consumed, h.mark, h.held, h.before, h.owner⟩

/-- A Commit may be registered when every earlier transaction is acknowledged or
held. -/
theorem register (h : p.Backed txns acked) (hord : txns.Pairwise fun a b => a.endLsn < b.endLsn)
    {t : Txn} (ht : t ∈ txns) (hbefore : ∀ t' ∈ txns, t'.endLsn < t.endLsn →
      t'.Acked acked ∨ ∃ tx', p.transactions.get? t'.endLsn = some tx') :
    (p.register t.endLsn t.lsns).Backed txns acked := by
  by_cases hle : t.endLsn ≤ p.consumed
  · rwa [register_of_le hle]
  · have hget := register_transactions hle t.lsns
    -- What was held stays held.
    have hstay : ∀ {e tx}, p.transactions.get? e = some tx →
        ∃ tx', (p.register t.endLsn t.lsns).transactions.get? e = some tx' := by
      intro e tx he
      rw [hget e]
      split
      · exact ⟨_, rfl⟩
      · exact ⟨tx, he⟩
    have hkept : ∀ t' : Txn, (t'.Acked acked ∨ ∃ tx', p.transactions.get? t'.endLsn = some tx') →
        t'.Acked acked ∨
          ∃ tx', (p.register t.endLsn t.lsns).transactions.get? t'.endLsn = some tx' :=
      fun t' => Or.imp_right fun ⟨tx', htx'⟩ => hstay htx'
    refine ⟨by simpa using h.consumed, by simpa using h.mark, fun {e tx} he => ?_,
      fun {e tx} he t' ht' hlt => hkept t' ?_, fun {l e} he => ?_⟩
    · rw [hget e] at he
      split at he
      · rename_i heq
        cases he
        refine ⟨t, ht, heq, rfl, ?_⟩
        cases hold : p.transactions.get? t.endLsn with
        | none => exact ⟨Finset.empty_subset _, Finset.empty_subset _⟩
        | some tx =>
          obtain ⟨t₀, ht₀, he₀, hch, ha, hA⟩ := h.held hold
          obtain rfl := txn_eq_of_endLsn hord ht₀ ht he₀
          exact ⟨hch ▸ ha, hA⟩
      · exact h.held he
    · rw [hget e] at he
      split at he
      · rename_i heq
        exact hbefore t' ht' (heq ▸ hlt)
      · exact h.before he t' ht' hlt
    · rw [register_owner hle t.lsns l] at he
      split at he
      · rename_i hl
        cases he
        exact ⟨t, ht, rfl, hl⟩
      · exact h.owner he

theorem ack (h : p.Backed txns acked) (hord : txns.Pairwise fun a b => a.endLsn < b.endLsn)
    (lsn : Lsn) : (p.ack lsn).Backed txns (insert lsn acked) := by
  have h' := h.mono (Finset.subset_insert lsn acked)
  obtain heq | ⟨e₀, tx₀, howner, htx, heq⟩ := p.ack_cases lsn
  · rwa [heq]
  · obtain ⟨t, ht, he, hch, ha, hA⟩ := h.held htx
    obtain ⟨t', ht', he', hl⟩ := h.owner howner
    obtain rfl := txn_eq_of_endLsn hord ht ht' (he.trans he'.symm)
    rw [heq]
    refine ⟨h'.consumed, h'.mark, fun {e tx} hget => ?_, fun {e tx} hget t₁ ht₁ hlt => ?_, h'.owner⟩
    · rw [OrdMap.get?_insert] at hget
      split at hget
      · rename_i heq'
        cases hget
        refine ⟨t, ht, he.trans heq', hch, Finset.insert_subset ?_ ha, Finset.insert_subset_insert _ hA⟩
        rw [hch]
        exact List.mem_toFinset.mpr hl
      · exact h'.held hget
    · simp only [OrdMap.get?_insert] at hget ⊢
      have hheld : ∃ tx', p.transactions.get? e = some tx' := by
        split at hget
        · rename_i heq'
          exact ⟨tx₀, heq' ▸ htx⟩
        · exact ⟨tx, hget⟩
      obtain ⟨tx', hheld⟩ := hheld
      refine (h'.before hheld t₁ ht₁ hlt).imp_right fun ⟨tx₁, htx₁⟩ => ?_
      split
      · exact ⟨_, rfl⟩
      · exact ⟨tx₁, htx₁⟩

/-- Consuming the first transaction when it is settled: everything up to its end
is acknowledged. -/
theorem consume (h : p.Backed txns acked) (hord : txns.Pairwise fun a b => a.endLsn < b.endLsn)
    {e : Lsn} {tx : Transaction} (hfirst : p.transactions.first? = some (e, tx))
    (hsettled : tx.settled = true) :
    (p.consume e tx).Backed txns acked ∧ AckedTo txns acked e := by
  obtain ⟨t, ht, rfl, hch, ha, hA⟩ := h.held (OrdMap.get?_of_first? hfirst)
  have hall : tx.acked = tx.changes := by
    simp only [Transaction.settled, Bool.not_or, Bool.not_not, Bool.and_eq_true,
      Bool.not_eq_true', decide_eq_false_iff_not, not_lt] at hsettled
    exact Finset.eq_of_subset_of_card_le ha hsettled.2
  have hto : AckedTo txns acked t.endLsn := by
    intro t' ht' hle
    rcases eq_or_lt_of_le hle with heq | hlt
    · obtain rfl := txn_eq_of_endLsn hord ht' ht heq
      intro l hl
      exact hA (hall ▸ hch ▸ List.mem_toFinset.mpr hl)
    · rcases h.before (OrdMap.get?_of_first? hfirst) t' ht' hlt with hack | ⟨tx', htx'⟩
      · exact hack
      · -- Nothing is held before the first entry.
        exact absurd hlt (not_lt.mpr (OrdMap.first?_le hfirst htx'))
  refine ⟨⟨h.consumed.max hto, ?_, fun {e tx'} hget => ?_, fun {e tx'} hget t' ht' hlt => ?_,
    fun {l e} hget => ?_⟩, hto⟩
  · simp only [Progress.consume]
    rcases le_total p.consumed t.endLsn with hle | hle
    · exact .inr ⟨t, ht, (max_eq_right hle).symm⟩
    · rw [max_eq_left hle]
      exact h.mark
  · simp only [Progress.consume, OrdMap.get?_erase] at hget
    split at hget
    · cases hget
    · exact h.held hget
  · simp only [Progress.consume, OrdMap.get?_erase] at hget ⊢
    split at hget
    · cases hget
    · by_cases heq : t'.endLsn = t.endLsn
      · exact .inl (hto t' ht' heq.le)
      · rw [if_neg heq]
        exact h.before hget t' ht' hlt
  · simp only [Progress.consume, OrdMap.get?_eraseAll] at hget
    split at hget
    · cases hget
    · exact h.owner hget

/-- `advance` goes only past what is acknowledged. -/
theorem advance (h : p.Backed txns acked) (hord : txns.Pairwise fun a b => a.endLsn < b.endLsn) :
    p.advance.1.Backed txns acked ∧ ∀ target, p.advance.2 = some target → AckedTo txns acked target :=
  Progress.advance_induct
    (I := fun p target => p.Backed txns acked ∧ ∀ x, target = some x → AckedTo txns acked x)
    ⟨h, nofun⟩ fun hI hfirst hsettled => by
      obtain ⟨hb, hto⟩ := hI.1.consume hord hfirst hsettled
      refine ⟨hb, fun x hx => ?_⟩
      cases hx
      exact hto

/-- The message loop over what a slot outputs above an acknowledged position. -/
theorem peekLoop (h : p.Backed txns acked) (lib : Codec) (slot : String) (max : Nat)
    {rows : Rows} {ts : List Txn} {c : Lsn}
    (hord : txns.Pairwise fun a b => a.endLsn < b.endLsn)
    (hrows : transactionsOf none rows = some ts) (hpre : ts <+: txns.filter (c < ·.endLsn))
    (hc : AckedTo txns acked c) :
    (peekLoop lib slot max { progress := p } rows).1.progress.Backed txns acked := by
  -- What is registered so far is acknowledged or held.
  refine Exists.elim (peekLoop_transactions lib slot max
    (I := fun done p => p.Backed txns acked ∧
      ∀ t ∈ done, t.Acked acked ∨ ∃ tx, p.transactions.get? t.endLsn = some tx)
    (fun hI _ _ => ⟨hI.1.deliver _, hI.2⟩) ?_ hrows ⟨h, nofun⟩) fun _ hI => hI.2.1
  rintro done t rest p rfl ⟨hb, hdone⟩
  have hmem : ∀ t' ∈ done ++ t :: rest, t' ∈ txns :=
    fun t' ht' => List.mem_of_mem_filter (hpre.subset ht')
  have ht : t ∈ txns := hmem t (by simp)
  have hbefore : ∀ t' ∈ txns, t'.endLsn < t.endLsn →
      t'.Acked acked ∨ ∃ tx', p.transactions.get? t'.endLsn = some tx' := by
    intro t' ht' hlt
    by_cases hle : t'.endLsn ≤ c
    · exact .inl (hc t' ht' hle)
    · exact hdone t' (mem_of_endLsn_lt hord hpre ht' (not_le.mp hle) hlt)
  refine ⟨hb.register hord ht hbefore, fun t' ht' => ?_⟩
  by_cases hle : t.endLsn ≤ p.consumed
  · rw [register_of_le hle]
    rcases List.mem_append.mp ht' with ht' | ht'
    · exact hdone t' ht'
    · obtain rfl := List.mem_singleton.mp ht'
      exact .inl (hb.consumed t' ht hle)
  · simp only [register_transactions hle]
    split
    · exact .inr ⟨_, rfl⟩
    · rename_i hne
      rcases List.mem_append.mp ht' with ht' | ht'
      · exact hdone t' ht'
      · exact absurd (congrArg Txn.endLsn (List.mem_singleton.mp ht')).symm hne

end Progress.Backed

end

/-! ## Along a run -/

section

variable (history : List Happening)

@[simp] theorem ackedLsns_connected : ackedLsns (history ++ [.connected]) = ackedLsns history := by
  simp [ackedLsns]

@[simp] theorem ackedLsns_created : ackedLsns (history ++ [.created]) = ∅ := by
  simp [ackedLsns]

@[simp] theorem ackedLsns_released (receipt : Value) :
    ackedLsns (history ++ [.released receipt]) = ackedLsns history := by
  simp [ackedLsns]

@[simp] theorem ackedLsns_acked (receipt : Value) :
    ackedLsns (history ++ [.acked receipt]) = match receiptLsn receipt with
      | some lsn => insert lsn (ackedLsns history)
      | none => ackedLsns history := by
  rw [ackedLsns, List.foldl_append]; rfl

@[simp] theorem ackedLsns_delivered (ds : List Delivery) :
    ackedLsns (history ++ ds.map .delivered) = ackedLsns history := by
  rw [ackedLsns, List.foldl_append]
  induction ds with
  | nil => rfl
  | cons d ds ih => exact ih

end

/-- The invariant of a watch on the slot `s`; `reading` is about a read that is
not processed yet. -/
structure World.Backs (w : World) (s : Slot) : Prop where
  confirmed : AckedTo s.txns (ackedLsns w.history) s.confirmed
  progress : w.cdc.progress.Backed s.txns (ackedLsns w.history)
  unadvanced : ∀ u, w.cdc.unadvanced = some u → AckedTo s.txns (ackedLsns w.history) u
  reading : ∀ max messages out, w.phase = .read max messages out →
    ∃ c ts, AckedTo s.txns (ackedLsns w.history) c ∧ transactionsOf none messages = some ts ∧
      ts <+: s.txns.filter (c < ·.endLsn)

/-- The invariant: it is about the slot when there is one. -/
def World.Safe (w : World) : Prop := ∀ s, w.slot = some s → w.Backs s

/-- A slot is created only where no failed advance is left that goes past its
changes. -/
def CreatesSafely (w : World) : Action → Prop
  | .create s => ∀ u, w.cdc.unadvanced = some u → ∀ t ∈ s.txns, t.endLsn ≤ u → t.changes = []
  | _ => True

theorem Slot.outputs_prefix {s : Slot} {messages : Rows} (h : s.outputs messages = true) :
    ∃ ts, transactionsOf none messages = some ts ∧ ts <+: s.txns.filter (s.confirmed < ·.endLsn) := by
  unfold Slot.outputs at h
  split at h
  · rename_i ts hts
    exact ⟨ts, hts, (List.isPrefixOf_iff_prefix.mp h).trans ((List.take_prefix _ _).filter _)⟩
  · cases h

/-- The positions `settle` advances the slot to are acknowledged. -/
theorem World.Backs.settleTarget {w : World} {s : Slot} (h : w.Backs s) {target : Lsn}
    (ht : w.cdc.settleTarget = some target) : AckedTo s.txns (ackedLsns w.history) target := by
  have hadv := (h.progress.advance s.ordered).2
  unfold PostgresCdc.settleTarget at ht
  split at ht
  · rename_i a b ha hb
    cases ht
    exact (hadv a ha).max (h.unadvanced b hb)
  · rename_i a ha hb
    cases ht
    exact hadv _ ha
  · exact h.unadvanced target ht

/-- Where the session, the slot's transactions and what is acknowledged stay, so
does the invariant; a read that is not processed stays one. -/
theorem World.Backs.of_eq {w w' : World} {s s' : Slot} (h : w.Backs s) (htxns : s'.txns = s.txns)
    (hconf : s'.confirmed = s.confirmed)
    (hprog : w'.cdc.progress.Backed s.txns (ackedLsns w.history))
    (hunadv : w'.cdc.unadvanced = w.cdc.unadvanced)
    (hread : ∀ max messages out, w'.phase = .read max messages out → w.phase = w'.phase)
    (hacked : ackedLsns w'.history = ackedLsns w.history) : w'.Backs s' := by
  refine ⟨?_, ?_, ?_, ?_⟩
  · rw [htxns, hconf, hacked]
    exact h.confirmed
  · rw [htxns, hacked]
    exact hprog
  · rw [htxns, hacked, hunadv]
    exact h.unadvanced
  · intro max messages out hp
    rw [htxns, hacked]
    exact h.reading max messages out ((hread max messages out hp).trans hp)

theorem Slot.fresh_confirmed {s : Slot} (h : s.fresh = true) (acked : Finset Lsn) :
    AckedTo s.txns acked s.confirmed := by
  simp only [Slot.fresh, Bool.and_eq_true, List.all_eq_true, decide_eq_true_eq] at h
  exact fun t ht hle => absurd hle (not_le.mpr (h.2 t ht))

/-- After an acknowledgement. -/
theorem World.Backs.ack {w : World} {s : Slot} (h : w.Backs s) (receipt : Value) :
    ({ w with cdc := w.cdc.ack receipt, history := w.history ++ [.acked receipt] } : World).Backs
      s := by
  cases hr : receiptLsn receipt with
  | none =>
    refine h.of_eq rfl rfl ?_ ?_ (fun _ _ _ _ => rfl) ?_
    · simpa [PostgresCdc.ack, hr] using h.progress
    · simp [PostgresCdc.ack, hr]
    · simp [hr]
  | some lsn =>
    have hsub := Finset.subset_insert lsn (ackedLsns w.history)
    refine ⟨?_, ?_, ?_, fun max messages out hp => ?_⟩
    · simpa [hr] using h.confirmed.mono hsub
    · simpa [hr, PostgresCdc.ack] using h.progress.ack s.ordered lsn
    · simpa [hr, PostgresCdc.ack] using fun u hu => (h.unadvanced u hu).mono hsub
    · obtain ⟨c, ts, hc, hts⟩ := h.reading max messages out hp
      exact ⟨c, ts, by simpa [hr] using hc.mono hsub, hts⟩

/-- After a `settle`, whatever the advance did. -/
theorem World.Backs.settle {w : World} {s : Slot} (h : w.Backs s) (advanced : Except String Unit)
    (moved : Bool) :
    ({ w with
      cdc := (w.cdc.settle advanced).1
      phase := .idle
      slot := some (s.answer w.cdc.settleTarget advanced moved) } : World).Backs
      (s.answer w.cdc.settleTarget advanced moved) := by
  have hprog := (h.progress.advance s.ordered).1
  cases ht : w.cdc.settleTarget with
  | none =>
    simp only [PostgresCdc.settle, ht, Slot.answer]
    exact h.of_eq rfl rfl hprog rfl nofun rfl
  | some target =>
    have hto := h.settleTarget ht
    refine ⟨?_, ?_, ?_, nofun⟩
    · rw [Slot.answer_txns]
      simp only [Slot.answer]
      split
      · exact h.confirmed.max hto
      · exact h.confirmed
    · rw [Slot.answer_txns]
      simp only [PostgresCdc.settle, ht]
      split <;> exact hprog
    · intro u hu
      rw [Slot.answer_txns]
      simp only [PostgresCdc.settle, ht] at hu
      split at hu
      · cases hu
      · cases hu
        exact hto

theorem Step.safe {lib : Codec} {w w' : World} {a : Action} (h : Step lib w a w')
    (hok : CreatesSafely w a) (hw : w.Safe) : w'.Safe := by
  intro s' hs'
  cases h with
  | connect hp hs =>
    refine (hw s' hs').of_eq rfl rfl (.fresh s'.positive) rfl ?_ (by simp)
    exact fun _ _ _ hr => absurd (hp.symm.trans hr) (by simp)
  | create hp hs hf =>
    cases hs'
    refine ⟨Slot.fresh_confirmed hf _, .fresh s'.positive, fun u hu t ht hle l hl => ?_, ?_⟩
    · -- What is left to advance to goes past no change of the new slot.
      rw [Txn.lsns, hok u hu t ht hle] at hl
      cases hl
    · exact fun _ _ _ hr => absurd (hp.symm.trans hr) (by simp)
  | drop => cases hs'
  | @commit s hs =>
    cases hs'
    exact (hw s hs).of_eq rfl rfl (hw s hs).progress rfl (fun _ _ _ _ => rfl) rfl
  | start hp hpool =>
    exact (hw s' hs').of_eq rfl rfl (hw s' hs').progress rfl (by simp) rfl
  | readFailed hp => exact (hw s' hs').of_eq rfl rfl (hw s' hs').progress rfl (by simp) rfl
  | readOn hp hs ho => exact (hw s' hs').of_eq rfl rfl (hw s' hs').progress rfl (by simp) rfl
  | read hp hs ho =>
    obtain rfl := Option.some.inj (hs.symm.trans hs')
    obtain ⟨ts, hts, hpre⟩ := Slot.outputs_prefix ho
    have hb := hw _ hs
    refine ⟨hb.confirmed, hb.progress, hb.unadvanced, fun max messages out hr => ?_⟩
    cases hr
    exact ⟨_, ts, hb.confirmed, hts, hpre⟩
  | @process max _ _ _ hp hl =>
    have hb := hw s' hs'
    obtain ⟨c, ts, hc, hts, hpre⟩ := hb.reading _ _ _ hp
    have hprog := hb.progress.peekLoop lib w.cdc.slot max s'.ordered hts hpre hc
    rw [hl] at hprog
    exact hb.of_eq rfl rfl hprog rfl (by simp) (ackedLsns_delivered _ _)
  | @processFailed max _ _ _ _ hp hl =>
    have hb := hw s' hs'
    obtain ⟨c, ts, hc, hts, hpre⟩ := hb.reading _ _ _ hp
    have hprog := hb.progress.peekLoop lib w.cdc.slot max s'.ordered hts hpre hc
    rw [hl] at hprog
    exact hb.of_eq rfl rfl hprog rfl (by simp) rfl
  | @settle _ advanced moved hp =>
    obtain ⟨s, hs, rfl⟩ := Option.map_eq_some_iff.mp hs'
    have hb := (hw s hs).settle advanced moved
    exact ⟨hb.confirmed, hb.progress, hb.unadvanced, by simp⟩
  | ack => exact (hw s' hs').ack _
  | release =>
    rename_i receipt
    have hb := hw s' hs'
    refine hb.of_eq rfl rfl ?_ ?_ (fun _ _ _ _ => rfl) (by simp)
    · simp only [PostgresCdc.release]
      split
      · exact hb.progress
      · exact hb.progress.release _
    · simp only [PostgresCdc.release]
      split <;> rfl

/-- The invariant holds in every run whose slots are created safely. -/
theorem reach_safe {lib : Codec} {good : List Txn → Prop} {w : World}
    (h : (cdcMachine lib good).Reach CreatesSafely w) : w.Safe := by
  refine h.invariant (fun {w} h₀ s hs => ?_) fun hok hst hw => (Step.of_next hst.1).safe hok hw
  have hconf := (h₀.slot s hs).2
  refine ⟨fun t ht hle => absurd hle (not_le.mpr (hconf t ht)), ?_, ?_, ?_⟩
  · rw [h₀.progress]
    exact .fresh s.positive
  · rw [h₀.unadvanced]
    nofun
  · rw [h₀.phase]
    nofun

/-- Every advance goes to a position whose transactions were all acknowledged
since the slot was created, in every run that creates slots safely. -/
theorem advance_only_past_acked (lib : Codec) (w : World)
    (h : (cdcMachine lib fun _ => True).Reach CreatesSafely w) (out : List Delivery)
    (_hphase : w.phase = .settling out) (s : Slot) (hs : w.slot = some s) (target : Lsn)
    (ht : w.cdc.settleTarget = some target) :
    ∀ t ∈ s.txns, t.endLsn ≤ target → ∀ l ∈ t.lsns, l ∈ ackedLsns w.history :=
  (reach_safe h s hs).settleTarget ht

/-! ### Runs -/

/-- A watch that has not connected, whose slot is there. -/
def sampleWorld (s : Slot) : World where
  cdc := { sampleCdc with pool := false, resumed := false, gap := false }
  slot := some s

theorem sampleWorld_initial {good : List Txn → Prop} {s : Slot} (hgood : good s.txns)
    (hconf : ∀ t ∈ s.txns, s.confirmed < t.endLsn) : (sampleWorld s).Initial good where
  pool := rfl
  progress := rfl
  gap := rfl
  unadvanced := rfl
  phase := rfl
  history := rfl
  slot := by rintro s ⟨⟩; exact ⟨hgood, hconf⟩

/-- The output of one transaction: an insert at each of `lsns`. -/
def sampleOutput (endLsn : Lsn) (lsns : List Lsn) : Rows :=
  (lsns.headD endLsn, .begin endLsn 0 742) :: (0, .relation 16384 sampleRelation) ::
    lsns.map (fun l => (l, .insert 16384 [.text (toString l)])) ++ [(endLsn, .commit endLsn)]

def sampleTxn (endLsn : Lsn) (lsns : List Lsn) : Txn where
  endLsn := endLsn
  changes := lsns.map fun l => (l, .insert 16384 [.text (toString l)])

/-- A slot whose only transaction is an insert at 90. -/
def sampleSlot : Slot where
  txns := [sampleTxn 100 [90]]
  committed := 0
  confirmed := 0
  ordered := by decide
  positive := by decide

/-- A slot created on another server, where LSNs are lower. -/
def sampleNewSlot : Slot where
  txns := [sampleTxn 50 [40]]
  committed := 0
  confirmed := 0
  ordered := by decide
  positive := by decide


/-- The insert at 90 is delivered and acknowledged, and read again. -/
def sampleSession : List Action :=
  [.connect, .commit, .start 10, .read (sampleOutput 100 [90]), .process, .settle (.ok ()) false,
    .ack (receiptOf 90), .start 10, .read (sampleOutput 100 [90]), .process]

/-- The insert at 40 of the new slot is delivered, acknowledged and read again. -/
def sampleNewSession : List Action :=
  [.commit, .start 10, .read (sampleOutput 50 [40]), .process, .settle (.ok ()) false,
    .ack (receiptOf 40), .start 10, .read (sampleOutput 50 [40]), .process]

/-- The theorem on a slot created after one whose advance succeeded: the insert
at 40 is acknowledged before the advance to 50. -/
theorem recreated_slot_acked : ∃ w : World, ∃ s, w.slot = some s ∧
    w.cdc.settleTarget = some 50 ∧ sampleTxn 50 [40] ∈ s.txns ∧ 40 ∈ ackedLsns w.history := by
  obtain ⟨w₁, hrun₁, hunadv, w₂, hcreate, w, hrun, hphase, ⟨s, hs, ht⟩, htarget⟩ :
      ∃ w₁ ∈ (sampleWorld sampleSlot).run sampleCodec
          (sampleSession ++ [.settle (.ok ()) false, .drop]),
        w₁.cdc.unadvanced = none ∧ ∃ w₂ ∈ w₁.next sampleCodec (.create sampleNewSlot),
        ∃ w ∈ w₂.run sampleCodec sampleNewSession, w.phase = .settling [] ∧
          (∃ s ∈ w.slot, sampleTxn 50 [40] ∈ s.txns) ∧ w.cdc.settleTarget = some 50 := by
    decide
  have h₁ : (cdcMachine sampleCodec fun _ => True).Reach CreatesSafely w₁ :=
    reach_run (by simp [sampleSession, CreatesSafely]) (fun _ _ => trivial)
      (.init (sampleWorld_initial trivial (by decide))) hrun₁
  have hsafe : CreatesSafely w₁ (.create sampleNewSlot) := fun u hu => by
    rw [hunadv] at hu; cases hu
  have h := reach_run (by simp [sampleNewSession, CreatesSafely]) (fun _ _ => trivial)
    (h₁.step hsafe ⟨hcreate, fun _ _ => trivial⟩) hrun
  exact ⟨w, s, hs, htarget, ht, advance_only_past_acked sampleCodec w h [] hphase s hs 50 htarget _
    ht (by decide) 40 (by decide)⟩

/-- A failed advance to 100 is repeated on a slot created since, past its insert
at 40 that was never acknowledged. -/
theorem recreated_slot_skipped : ¬ ∀ (w : World),
    (cdcMachine sampleCodec fun _ => True).Reach (fun _ _ => True) w →
    ∀ (out : List Delivery), w.phase = .settling out → ∀ s, w.slot = some s →
    ∀ target, w.cdc.settleTarget = some target →
    ∀ t ∈ s.txns, t.endLsn ≤ target → ∀ l ∈ t.lsns, l ∈ ackedLsns w.history := by
  intro hclaim
  obtain ⟨w, hrun, hphase, ⟨s, hs, ht⟩, htarget, hnot⟩ : ∃ w ∈ (sampleWorld sampleSlot).run sampleCodec
      (sampleSession ++ [.settle (.error "connection closed") false, .drop,
        .create sampleNewSlot, .start 10, .read [], .process]),
      w.phase = .settling [] ∧ (∃ s ∈ w.slot, sampleTxn 50 [40] ∈ s.txns) ∧
        w.cdc.settleTarget = some 100 ∧ 40 ∉ ackedLsns w.history := by
    decide
  refine hnot (hclaim w ?_ [] hphase s hs 100 htarget _ ht (by decide) 40 (by decide))
  exact reach_run (fun _ _ _ => trivial) (fun _ _ => trivial) (.init (sampleWorld_initial trivial (by decide))) hrun

end McpgSql.Cdc
