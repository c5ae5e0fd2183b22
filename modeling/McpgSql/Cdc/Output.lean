import McpgSql.Cdc.World

/-!
# The message loop over whole transactions

A peek's messages are whole transactions, so the loop's effect on `Progress` is
that of registering them in commit order, with changes emitted in between
(`peekLoop_transactions`): the rule the invariants use. An error ends it after
some of them.
-/

namespace McpgSql.Cdc

open Library

variable {lib : Codec} {slot : String} {max : Nat}

/-- Every change message of an output is a change of one of its transactions;
`current` is the one already begun. -/
theorem mem_of_transactionsOf {current : Option (List (Lsn × Message))} {rows : Rows}
    {txns : List Txn} (h : transactionsOf current rows = some txns) {row : Lsn × Message}
    (hrow : row ∈ rows) (hc : row.2.isChange = true) : ∃ t ∈ txns, row ∈ t.changes := by
  suffices H : ∀ row, (row ∈ current.getD [] ∨ row ∈ rows ∧ row.2.isChange = true) →
      ∃ t ∈ txns, row ∈ t.changes from H row (.inr ⟨hrow, hc⟩)
  clear hrow hc row
  induction rows generalizing current txns with
  | nil =>
    intro row hrow
    cases current with
    | none => rcases hrow with hrow | ⟨hrow, -⟩ <;> cases hrow
    | some cs => cases h
  | cons head rows ih =>
    obtain ⟨lsn, message⟩ := head
    intro row hrow
    -- A row of the tail, or of the transaction begun, stays one.
    have tail : ∀ {current' txns'}, transactionsOf current' rows = some txns' →
        (∀ row, row ∈ current.getD [] → row ∈ current'.getD []) →
        (message.isChange = true → (lsn, message) ∈ current'.getD []) →
        ∃ t ∈ txns', row ∈ t.changes := by
      intro current' txns' h' hcur hmsg
      refine ih h' row ?_
      rcases hrow with hrow | ⟨hrow, hch⟩
      · exact .inl (hcur row hrow)
      · rcases List.mem_cons.mp hrow with rfl | hrow
        · exact .inl (hmsg hch)
        · exact .inr ⟨hrow, hch⟩
    cases message with
    | begin l t x =>
      cases current with
      | none => exact tail h (by simp) nofun
      | some cs => cases h
    | commit e =>
      cases current with
      | none => cases h
      | some cs =>
        simp only [transactionsOf, Option.map_eq_some_iff] at h
        obtain ⟨txns', h', rfl⟩ := h
        rcases hrow with hrow | ⟨hrow, hch⟩
        · exact ⟨_, List.mem_cons_self, hrow⟩
        · rcases List.mem_cons.mp hrow with rfl | hrow
          · cases hch
          · obtain ⟨t, ht, hmem⟩ := ih h' row (.inr ⟨hrow, hch⟩)
            exact ⟨t, List.mem_cons_of_mem _ ht, hmem⟩
    | relation oid r => cases current <;> exact tail h (fun _ hr => hr) nofun
    | other => cases current <;> exact tail h (fun _ hr => hr) nofun
    | insert | update | delete | truncate =>
      cases current with
      | none => cases h
      | some cs => exact tail h (fun _ hr => List.mem_append_left _ hr) fun _ => by simp

variable (lib slot max) in
/-- The rule for the loop over whole transactions: `I done p` is kept when a
change is emitted and when the next transaction is registered, so it holds at
the end, of the transactions registered until then. -/
theorem peekLoop_transactions {I : List Txn → Progress → Prop} {all : List Txn}
    (hdel : ∀ {done p lsn}, I done p → lsn ∉ p.delivered → p.consumed ≤ lsn → I done (p.deliver lsn))
    (hreg : ∀ {done t rest p}, all = done ++ t :: rest → I done p →
      I (done ++ [t]) (p.register t.endLsn t.lsns))
    {rows : Rows} (h : transactionsOf none rows = some all) {p : Progress} (h₀ : I [] p) :
    ∃ done, done <+: all ∧
      I done (peekLoop lib slot max { progress := p } rows).1.progress := by
  suffices H : ∀ {rows : Rows} {current txns done} {st : Peeking},
      transactionsOf current rows = some txns → all = done ++ txns →
      (∀ cs, current = some cs → st.transaction = cs.map Prod.fst) → I done st.progress →
      ∃ done, done <+: all ∧ I done (peekLoop lib slot max st rows).1.progress from
    H h rfl nofun h₀
  clear h h₀ rows
  intro rows
  induction rows with
  | nil =>
    intro current txns done st _ hall _ hI
    exact ⟨done, ⟨txns, hall.symm⟩, hI⟩
  | cons head rows ih =>
    obtain ⟨lsn, message⟩ := head
    intro current txns done st h hall hst hI
    have stop : ∃ done, done <+: all ∧ I done st.progress := ⟨done, ⟨txns, hall.symm⟩, hI⟩
    rw [peekLoop_cons]
    by_cases hc : message.isChange = true
    · -- A change: passed over, emitted, or the end of the loop.
      rw [peekMessage_change hc]
      obtain ⟨cs, rfl, hrows⟩ : ∃ cs, current = some cs ∧
          transactionsOf (some (cs ++ [(lsn, message)])) rows = some txns := by
        cases message with
        | begin | commit | relation | other => cases hc
        | insert | update | delete | truncate =>
          cases current with
          | none => cases h
          | some cs => exact ⟨cs, rfl, h⟩
      have hst' : ∀ cs', some (cs ++ [(lsn, message)]) = some cs' →
          st.transaction ++ [lsn] = cs'.map Prod.fst := by
        rintro _ ⟨⟩
        rw [hst cs rfl, List.map_append]; rfl
      cases hm : peekChange lib slot max st lsn message with
      | error e => exact stop
      | ok st' =>
        obtain ⟨-, rfl⟩ | ⟨events, hs, -, rfl⟩ := peekChange_cases hm
        · exact ih hrows hall hst' hI
        · simp only [Peeking.skips, Bool.or_eq_false_iff, decide_eq_false_iff_not, not_lt] at hs
          exact ih hrows hall hst' (hdel hI hs.1.2 hs.1.1)
    · cases message with
      | begin l t x =>
        cases current with
        | none => exact ih h hall (fun _ hcs => by cases hcs; rfl) hI
        | some cs => cases h
      | commit e =>
        cases current with
        | none => cases h
        | some cs =>
          simp only [transactionsOf, Option.map_eq_some_iff] at h
          obtain ⟨txns', h, rfl⟩ := h
          have hr := hreg hall hI
          rw [Txn.lsns, ← hst cs rfl] at hr
          exact ih h (by rw [hall, List.append_assoc]; rfl) nofun hr
      | relation oid r => exact ih (by cases current <;> exact h) hall hst hI
      | other => exact ih (by cases current <;> exact h) hall hst hI
      | insert | update | delete | truncate => exact absurd rfl hc

/-- Every delivery of the loop is an event of a change message that it read; the
receipt names the change or nothing. -/
theorem peekLoop_deliveries {rows : Rows} {p : Progress} {d : Delivery}
    (hd : d ∈ (peekLoop lib slot max { progress := p } rows).1.deliveries) :
    ∃ row ∈ rows, row.2.isChange = true ∧
      (∃ begin relations events,
        changeEvents lib slot row.1 begin relations row.2 = .ok events ∧ d.event ∈ events) ∧
      (d.receipt = receiptOf row.1 ∨ d.receipt = .null) := by
  refine peekLoop_induct (I := fun st => ∀ d ∈ st.deliveries, ∃ row ∈ rows, row.2.isChange = true ∧
      (∃ begin relations events,
        changeEvents lib slot row.1 begin relations row.2 = .ok events ∧ d.event ∈ events) ∧
      (d.receipt = receiptOf row.1 ∨ d.receipt = .null)) (fun {st lsn message st'} hmem hI hm => ?_)
    (by simp) d hd
  obtain ⟨_, -, -, rfl⟩ | ⟨_, -, -, rfl⟩ | ⟨e, -, rfl⟩ | ⟨hc, hm⟩ := peekMessage_cases hm
  · exact hI
  · exact hI
  · exact hI
  · obtain ⟨-, rfl⟩ | ⟨events, -, hev, rfl⟩ := peekChange_cases hm
    · exact hI
    · intro d hd
      rcases List.mem_append.mp hd with hd | hd
      · exact hI d hd
      · obtain ⟨i, hi, rfl⟩ := List.mem_mapIdx.mp hd
        refine ⟨(lsn, message), hmem, hc, ⟨st.begin, st.relations, events, hev, List.getElem_mem hi⟩,
          ?_⟩
        by_cases hlast : i + 1 = events.length
        · exact .inl (if_pos hlast)
        · exact .inr (if_neg hlast)

@[simp] theorem receiptLsn_receiptOf (lsn : Lsn) : receiptLsn (receiptOf lsn) = some lsn := by
  simp [receiptLsn, receiptOf, Value.object, Assoc.ofList, Assoc.insert, Value.get, Assoc.get?,
    Value.ofNat, Value.asU64]

@[simp] theorem receiptLsn_null : receiptLsn .null = none := rfl

end McpgSql.Cdc
