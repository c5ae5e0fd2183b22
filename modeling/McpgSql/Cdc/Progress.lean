import McpgSql.Cdc.PgOutput
import Mathlib.Data.Finset.Card

/-!
# What the watch holds between peeks

`Progress` as the source keeps it, and `Progress.advance`: past every leading
transaction whose changes are all acknowledged. `advance_induct` is the one
rule about it that the rest uses: what consuming one leading, settled
transaction keeps, `advance` keeps.
-/

namespace McpgSql.Cdc

open Library

/-- The changes of one transaction seen in the last peek; `changes` is all of
them once its Commit was seen (`complete`). -/
structure Transaction where
  changes : Finset Lsn := ∅
  complete : Bool := false
  acked : Finset Lsn := ∅
deriving DecidableEq

structure Progress where
  /-- Changes emitted and not released. -/
  delivered : Finset Lsn := ∅
  /-- Transactions not yet consumed, by end LSN. -/
  transactions : OrdMap Lsn Transaction := .empty
  /-- The end LSN of the transaction each change belongs to. -/
  owner : OrdMap Lsn Lsn := .empty
  /-- How far the slot is consumed. -/
  consumed : Lsn := 0
deriving DecidableEq

/-- The transaction does not stop `advance`: its Commit was seen and it has as
many acknowledgements as changes. -/
def Transaction.settled (tx : Transaction) : Bool :=
  !(!tx.complete || tx.acked.card < tx.changes.card)

namespace Progress

/-- One round of `advance`: the transaction ending at `endLsn` is consumed. -/
def consume (p : Progress) (endLsn : Lsn) (tx : Transaction) : Progress where
  delivered := p.delivered \ tx.changes
  transactions := p.transactions.erase endLsn
  owner := p.owner.eraseAll tx.changes
  consumed := max p.consumed endLsn

/-- The `while let` loop of `advance`; each round takes one entry of
`transactions`, so their number bounds the rounds. -/
def advanceLoop : Nat → Progress → Option Lsn → Progress × Option Lsn
  | 0, p, target => (p, target)
  | n + 1, p, target =>
    match p.transactions.first? with
    | none => (p, target)
    | some (endLsn, tx) =>
      if !tx.complete || tx.acked.card < tx.changes.card then (p, target)
      else advanceLoop n (p.consume endLsn tx) (some endLsn)

/-- The end LSN to advance the slot to: past every leading transaction fully
acknowledged. -/
def advance (p : Progress) : Progress × Option Lsn := advanceLoop p.transactions.size p none

/-- A Commit message: the transaction that ends at `endLsn` has the changes
`lsns`, unless it is consumed. Acknowledgements it has stay. -/
def register (p : Progress) (endLsn : Lsn) (lsns : List Lsn) : Progress :=
  if endLsn ≤ p.consumed then p
  else { p with
    owner := lsns.foldl (fun owner change => owner.insert change endLsn) p.owner
    transactions := p.transactions.insert endLsn
      { (p.transactions.get? endLsn).getD {} with changes := lsns.toFinset, complete := true } }

/-- A change is emitted. -/
def deliver (p : Progress) (lsn : Lsn) : Progress := { p with delivered := insert lsn p.delivered }

/-- The change `lsn` is acknowledged, when its transaction is still held. -/
def ack (p : Progress) (lsn : Lsn) : Progress :=
  match p.owner.get? lsn with
  | none => p
  | some endLsn => match p.transactions.get? endLsn with
    | none => p
    | some tx =>
      { p with transactions := p.transactions.insert endLsn { tx with acked := insert lsn tx.acked } }

/-- The change comes again on a later peek. -/
def release (p : Progress) (lsn : Lsn) : Progress := { p with delivered := p.delivered.erase lsn }

/-! ## Advancing -/

theorem advanceLoop_induct {I : Progress → Option Lsn → Prop}
    (hc : ∀ {p target endLsn tx}, I p target → p.transactions.first? = some (endLsn, tx) → tx.settled →
      I (p.consume endLsn tx) (some endLsn)) :
    ∀ (n : Nat) {p : Progress} {target : Option Lsn}, I p target →
      I (advanceLoop n p target).1 (advanceLoop n p target).2 := by
  intro n
  induction n with
  | zero => exact fun h => h
  | succ n ih =>
    intro p target h
    simp only [advanceLoop]
    split
    · exact h
    · rename_i endLsn tx hf
      split
      · exact h
      · rename_i hs
        exact ih (hc h hf (by simpa [Transaction.settled] using hs))

/-- What holds before and is kept by consuming the first transaction when it is
settled holds after `advance`, of its state and its result. -/
theorem advance_induct {I : Progress → Option Lsn → Prop} {p : Progress} (h : I p none)
    (hc : ∀ {p target endLsn tx}, I p target → p.transactions.first? = some (endLsn, tx) → tx.settled →
      I (p.consume endLsn tx) (some endLsn)) : I p.advance.1 p.advance.2 :=
  advanceLoop_induct hc _ h

/-- `advance` stops only at the end or at a transaction that is not settled. -/
theorem advance_stops (p : Progress) {endLsn : Lsn} {tx : Transaction}
    (h : p.advance.1.transactions.first? = some (endLsn, tx)) : tx.settled = false := by
  suffices H : ∀ (n : Nat) (p : Progress) (target : Option Lsn), p.transactions.size ≤ n →
      (advanceLoop n p target).1.transactions.first? = some (endLsn, tx) → tx.settled = false from
    H _ p none le_rfl h
  intro n
  induction n with
  | zero =>
    intro p target hn h
    simp only [advanceLoop, OrdMap.first?, List.length_eq_zero_iff.mp (Nat.le_zero.mp hn)] at h
    cases h
  | succ n ih =>
    intro p target hn h
    simp only [advanceLoop] at h
    split at h
    · rename_i hf
      rw [hf] at h; cases h
    · rename_i e t hf
      split at h
      · rename_i hs
        rw [hf] at h
        cases h
        simp only [Transaction.settled, hs, Bool.not_true]
      · have hsize : (p.transactions.erase e).size + 1 = p.transactions.size :=
          OrdMap.size_erase_first hf
        exact ih (p.consume e t) _ (by simp only [consume]; omega) h

/-! ## What each operation changes -/

@[simp] theorem register_consumed (p : Progress) (endLsn : Lsn) (lsns : List Lsn) :
    (p.register endLsn lsns).consumed = p.consumed := by
  unfold register; split <;> rfl

@[simp] theorem register_delivered (p : Progress) (endLsn : Lsn) (lsns : List Lsn) :
    (p.register endLsn lsns).delivered = p.delivered := by
  unfold register; split <;> rfl

@[simp] theorem deliver_consumed (p : Progress) (lsn : Lsn) :
    (p.deliver lsn).consumed = p.consumed := rfl

@[simp] theorem deliver_transactions (p : Progress) (lsn : Lsn) :
    (p.deliver lsn).transactions = p.transactions := rfl

@[simp] theorem deliver_owner (p : Progress) (lsn : Lsn) : (p.deliver lsn).owner = p.owner := rfl

@[simp] theorem release_consumed (p : Progress) (lsn : Lsn) :
    (p.release lsn).consumed = p.consumed := rfl

@[simp] theorem release_transactions (p : Progress) (lsn : Lsn) :
    (p.release lsn).transactions = p.transactions := rfl

@[simp] theorem release_owner (p : Progress) (lsn : Lsn) : (p.release lsn).owner = p.owner := rfl

theorem get?_foldl_insert (lsns : List Lsn) (owner : OrdMap Lsn Lsn) (endLsn j : Lsn) :
    (lsns.foldl (fun owner change => owner.insert change endLsn) owner).get? j =
      if j ∈ lsns then some endLsn else owner.get? j := by
  induction lsns generalizing owner with
  | nil => simp
  | cons l lsns ih =>
    rw [List.foldl_cons, ih, OrdMap.get?_insert]
    by_cases hj : j ∈ lsns
    · simp [hj]
    · by_cases hl : l = j
      · simp [hl]
      · simp [hj, hl, Ne.symm hl]

/-- The owners after a Commit that is not consumed. -/
theorem register_owner {p : Progress} {endLsn : Lsn} (h : ¬ endLsn ≤ p.consumed) (lsns : List Lsn)
    (j : Lsn) : (p.register endLsn lsns).owner.get? j =
      if j ∈ lsns then some endLsn else p.owner.get? j := by
  simp only [register, h, ↓reduceIte, get?_foldl_insert]

/-- The transactions after a Commit that is not consumed. -/
theorem register_transactions {p : Progress} {endLsn : Lsn} (h : ¬ endLsn ≤ p.consumed)
    (lsns : List Lsn) (j : Lsn) : (p.register endLsn lsns).transactions.get? j =
      if endLsn = j then
        some { (p.transactions.get? endLsn).getD {} with changes := lsns.toFinset, complete := true }
      else p.transactions.get? j := by
  simp only [register, h, ↓reduceIte, OrdMap.get?_insert]

theorem register_of_le {p : Progress} {endLsn : Lsn} (h : endLsn ≤ p.consumed) (lsns : List Lsn) :
    p.register endLsn lsns = p := by
  simp only [register, h, ↓reduceIte]

/-- An acknowledgement keeps everything, but that the transaction owning the
change has it among its `acked`. -/
theorem ack_cases (p : Progress) (lsn : Lsn) : p.ack lsn = p ∨
    ∃ endLsn tx, p.owner.get? lsn = some endLsn ∧ p.transactions.get? endLsn = some tx ∧
      p.ack lsn = { p with
        transactions := p.transactions.insert endLsn { tx with acked := insert lsn tx.acked } } := by
  unfold ack
  split
  · exact .inl rfl
  · rename_i endLsn ho
    split
    · exact .inl rfl
    · rename_i tx ht
      exact .inr ⟨endLsn, tx, ho, ht, rfl⟩

@[simp] theorem ack_consumed (p : Progress) (lsn : Lsn) : (p.ack lsn).consumed = p.consumed := by
  obtain h | ⟨_, _, -, -, h⟩ := p.ack_cases lsn <;> rw [h]

@[simp] theorem ack_delivered (p : Progress) (lsn : Lsn) : (p.ack lsn).delivered = p.delivered := by
  obtain h | ⟨_, _, -, -, h⟩ := p.ack_cases lsn <;> rw [h]

@[simp] theorem ack_owner (p : Progress) (lsn : Lsn) : (p.ack lsn).owner = p.owner := by
  obtain h | ⟨_, _, -, -, h⟩ := p.ack_cases lsn <;> rw [h]

end Progress

end McpgSql.Cdc
