import McpgSql.Cdc.Source
import McpgSql.Library.Machine

/-!
# The watch, its slot and its gateway

The runs of a `postgres_cdc` watch as a machine. Its state is the watch, where
its receiving thread is in `receive` (`Phase`), the replication slot, and what
the gateway has seen. Acknowledgements and releases come between any two of the
thread's steps; transactions commit, and the slot may be lost, at any time.

What PostgreSQL is taken to do: a slot outputs whole transactions in increasing
end-LSN order (`Slot`); a peek reads the committed ones above the confirmed
position from the first on (`Slot.outputs`); an advance that reports an error
may have moved the slot or not.

* `Step.of_next`: what a step can do;
* `receive_run`: a `receive` that nothing comes between is a run.
-/

namespace McpgSql.Cdc

open Library

/-! ## The slot -/

/-- A transaction of the published tables: its end LSN and its change messages. -/
structure Txn where
  endLsn : Lsn
  changes : List (Lsn × Message)
deriving DecidableEq

def Txn.lsns (t : Txn) : List Lsn := t.changes.map Prod.fst

/-- A replication slot: the transactions it outputs over its life in commit
order, how many of them are committed so far, and its confirmed position. -/
structure Slot where
  txns : List Txn
  committed : Nat
  confirmed : Lsn
  ordered : txns.Pairwise fun a b => a.endLsn < b.endLsn
  positive : ∀ t ∈ txns, 0 < t.endLsn

namespace Slot

/-- What a peek reads: committed, and above the confirmed position. -/
def pending (s : Slot) : List Txn := (s.txns.take s.committed).filter (s.confirmed < ·.endLsn)

/-- The next transaction commits. -/
def commit (s : Slot) : Slot := { s with committed := s.committed + 1 }

/-- The confirmed position moves to `target`; it never moves back. -/
def advance (s : Slot) (target : Lsn) : Slot := { s with confirmed := max s.confirmed target }

/-- No transaction of a new slot is committed or confirmed yet. -/
def fresh (s : Slot) : Bool := s.committed = 0 && s.txns.all (s.confirmed < ·.endLsn)

end Slot

/-- The transactions that `rows` are the output of, after the changes `current`
of a transaction already begun: each is a Begin, its changes and its Commit;
Relation and other messages may stand anywhere. -/
def transactionsOf : Option (List (Lsn × Message)) → Rows → Option (List Txn)
  | none, [] => some []
  | some _, [] => none
  | current, (lsn, message) :: rows =>
    match message, current with
    | .begin .., none => transactionsOf (some []) rows
    | .begin .., some _ => none
    | .commit _, none => none
    | .commit endLsn, some changes =>
      (transactionsOf none rows).map fun txns => ⟨endLsn, changes⟩ :: txns
    | .relation .., current => transactionsOf current rows
    | .other, current => transactionsOf current rows
    | _, none => none
    | change, some changes => transactionsOf (some (changes ++ [(lsn, change)])) rows

/-- A peek of the slot may read `messages`: whole transactions, from the first
pending one on. -/
def Slot.outputs (s : Slot) (messages : Rows) : Bool :=
  match transactionsOf none messages with
  | some txns => txns.isPrefixOf s.pending
  | none => false

/-! ## The machine -/

/-- Where the receiving thread is: not in `receive`, before a read of the slot,
with the messages of its last read, or before `settle`. -/
inductive Phase where
  | idle
  | peeking (max : Nat) (limit : PeekLimit) (out : List Delivery)
  | read (max : Nat) (messages : Rows) (out : List Delivery)
  | settling (out : List Delivery)
deriving DecidableEq

/-- What happened, as the gateway and the operator see it: a new session on the
slot (`created` when it was missing), and what the gateway got and said. -/
inductive Happening where
  | connected
  | created
  | delivered (d : Delivery)
  | acked (receipt : Value)
  | released (receipt : Value)
deriving DecidableEq

structure World where
  cdc : PostgresCdc
  phase : Phase := .idle
  slot : Option Slot
  history : List Happening := []

/-- The LSNs acknowledged since the slot was last created. -/
def ackedLsns (history : List Happening) : Finset Lsn :=
  history.foldl (fun acked h => match h with
    | .created => ∅
    | .acked receipt => match receiptLsn receipt with
      | some lsn => insert lsn acked
      | none => acked
    | .connected | .delivered _ | .released _ => acked) ∅

/-- The deliveries so far. -/
def deliveries (history : List Happening) : List Delivery :=
  history.filterMap fun h => match h with
    | .delivered d => some d
    | _ => none

/-- The receipts acknowledged so far. -/
def ackedReceipts (history : List Happening) : List Value :=
  history.filterMap fun h => match h with
    | .acked receipt => some receipt
    | _ => none

/-- Only receipts of deliveries were acknowledged. -/
def Genuine (history : List Happening) : Prop :=
  ackedReceipts history ⊆ (deliveries history).map Delivery.receipt

instance (history : List Happening) : Decidable (Genuine history) :=
  inferInstanceAs (Decidable (ackedReceipts history ⊆ (deliveries history).map Delivery.receipt))

theorem mem_deliveries {history : List Happening} {d : Delivery} :
    d ∈ deliveries history ↔ .delivered d ∈ history := by
  rw [deliveries, List.mem_filterMap]
  constructor
  · rintro ⟨happened, hmem, heq⟩
    split at heq
    · cases heq; exact hmem
    · cases heq
  · exact fun h => ⟨_, h, rfl⟩

theorem Genuine.delivered {history : List Happening} (h : Genuine history) {receipt : Value}
    (hr : .acked receipt ∈ history) : ∃ d, .delivered d ∈ history ∧ d.receipt = receipt := by
  obtain ⟨d, hd, rfl⟩ := List.mem_map.mp (h (List.mem_filterMap.mpr ⟨.acked receipt, hr, rfl⟩))
  exact ⟨d, mem_deliveries.mp hd, rfl⟩

inductive Action where
  /-- `connect` finds the slot. -/
  | connect
  /-- `connect` creates the slot. -/
  | create (slot : Slot)
  | drop
  | commit
  | start (max : Nat)
  | readFailed
  | read (messages : Rows)
  | process
  /-- `moved`: an advance that reports an error has moved the slot. -/
  | settle (advanced : Except String Unit) (moved : Bool)
  | ack (receipt : Value)
  | release (receipt : Value)

/-- The slot after an advance to `target` with this answer. -/
def Slot.answer (s : Slot) (target : Option Lsn) (advanced : Except String Unit) (moved : Bool) :
    Slot :=
  match target with
  | none => s
  | some target => if advanced.isOk || moved then s.advance target else s

/-- The world after an action, `none` when it cannot happen. A failed `connect`
and a `receive` without a connection change nothing and are no actions. -/
def World.next (lib : Codec) (w : World) : Action → Option World
  | .connect => match w.phase, w.slot with
    | .idle, some _ => some { w with
        cdc := w.cdc.connected false
        history := w.history ++ [.connected] }
    | _, _ => none
  | .create s => match w.phase, w.slot with
    | .idle, none =>
      if s.fresh then some { w with
        cdc := w.cdc.connected true
        slot := some s
        history := w.history ++ [.created] }
      else none
    | _, _ => none
  | .drop => some { w with slot := none }
  | .commit => w.slot.map fun s => { w with slot := some s.commit }
  | .start max => match w.phase with
    | .idle => w.cdc.startReceive.map fun (cdc, out) =>
      { w with cdc, phase := .peeking max (cdc.progress.peekLimit max) out }
    | _ => none
  | .readFailed => match w.phase with
    | .peeking .. => some { w with phase := .idle }
    | _ => none
  | .read messages => match w.phase, w.slot with
    | .peeking max limit out, some s =>
      if s.outputs messages then some { w with
        phase := if w.cdc.progress.peekEnough max limit messages then .read max messages out
          else .peeking max limit.grow out }
      else none
    | _, _ => none
  | .process => match w.phase with
    | .read max messages out => match w.cdc.process lib max messages with
      | (cdc, .ok new) => some { w with
          cdc
          phase := .settling (out ++ new)
          history := w.history ++ (out ++ new).map .delivered }
      | (cdc, .error _) => some { w with cdc, phase := .idle }
    | _ => none
  | .settle advanced moved => match w.phase with
    | .settling _ =>
      if advanced.isOk && w.slot.isNone then none
      else some { w with
        cdc := (w.cdc.settle advanced).1
        phase := .idle
        slot := w.slot.map fun s => s.answer w.cdc.settleTarget advanced moved }
    | _ => none
  | .ack receipt =>
    some { w with cdc := w.cdc.ack receipt, history := w.history ++ [.acked receipt] }
  | .release receipt =>
    some { w with cdc := w.cdc.release receipt, history := w.history ++ [.released receipt] }

/-- A watch that has not connected yet; the slot may be there already. -/
structure World.Initial (good : List Txn → Prop) (w : World) : Prop where
  pool : w.cdc.pool = false
  progress : w.cdc.progress = {}
  gap : w.cdc.gap = false
  unadvanced : w.cdc.unadvanced = none
  phase : w.phase = .idle
  history : w.history = []
  slot : ∀ s, w.slot = some s → good s.txns ∧ ∀ t ∈ s.txns, s.confirmed < t.endLsn

/-- The runs of a watch on slots whose transactions are `good`. -/
def cdcMachine (lib : Codec) (good : List Txn → Prop) : Machine World Action where
  init w := w.Initial good
  step w a w' := w.next lib a = some w' ∧ ∀ s, a = .create s → good s.txns

/-- The world after a list of actions. -/
def World.run (lib : Codec) (w : World) (actions : List Action) : Option World :=
  Machine.run (World.next lib) w actions

/-- A run of actions that are always allowed, from a reachable world. -/
theorem reach_run {lib : Codec} {good : List Txn → Prop} {ok : World → Action → Prop}
    {actions : List Action} (hok : ∀ a ∈ actions, ∀ w, ok w a)
    (hgood : ∀ s, .create s ∈ actions → good s.txns) {w w' : World}
    (h : (cdcMachine lib good).Reach ok w) (hrun : w.run lib actions = some w') :
    (cdcMachine lib good).Reach ok w' :=
  h.run (fun hmem hnext => ⟨hnext, fun s hs => hgood s (hs ▸ hmem)⟩) hok hrun

/-! ## What a step can do -/

/-- Every step of a world, with its guards. -/
inductive Step (lib : Codec) (w : World) : Action → World → Prop
  | connect {s : Slot} : w.phase = .idle → w.slot = some s →
    Step lib w .connect { w with
      cdc := w.cdc.connected false, history := w.history ++ [.connected] }
  | create {s : Slot} : w.phase = .idle → w.slot = none → s.fresh = true →
    Step lib w (.create s) { w with
      cdc := w.cdc.connected true, slot := some s, history := w.history ++ [.created] }
  | drop : Step lib w .drop { w with slot := none }
  | commit {s : Slot} : w.slot = some s → Step lib w .commit { w with slot := some s.commit }
  | start {max : Nat} : w.phase = .idle → w.cdc.pool = true →
    Step lib w (.start max) { w with
      cdc := { w.cdc with gap := false }
      phase := .peeking max (w.cdc.progress.peekLimit max)
        (if w.cdc.gap then [gapDelivery] else []) }
  | readFailed {max : Nat} {limit : PeekLimit} {out : List Delivery} :
    w.phase = .peeking max limit out → Step lib w .readFailed { w with phase := .idle }
  | readOn {max : Nat} {limit : PeekLimit} {out : List Delivery} {s : Slot} {messages : Rows} :
    w.phase = .peeking max limit out → w.slot = some s → s.outputs messages = true →
    Step lib w (.read messages) { w with phase := .peeking max limit.grow out }
  | read {max : Nat} {limit : PeekLimit} {out : List Delivery} {s : Slot} {messages : Rows} :
    w.phase = .peeking max limit out → w.slot = some s → s.outputs messages = true →
    Step lib w (.read messages) { w with phase := .read max messages out }
  | process {max : Nat} {messages : Rows} {out : List Delivery} {st : Peeking} :
    w.phase = .read max messages out →
    peekLoop lib w.cdc.slot max { progress := w.cdc.progress } messages = (st, none) →
    Step lib w .process { w with
      cdc := { w.cdc with progress := st.progress }
      phase := .settling (out ++ st.deliveries)
      history := w.history ++ (out ++ st.deliveries).map .delivered }
  | processFailed {max : Nat} {messages : Rows} {out : List Delivery} {st : Peeking} {e : String} :
    w.phase = .read max messages out →
    peekLoop lib w.cdc.slot max { progress := w.cdc.progress } messages = (st, some e) →
    Step lib w .process { w with cdc := { w.cdc with progress := st.progress }, phase := .idle }
  | settle {out : List Delivery} {advanced : Except String Unit} {moved : Bool} :
    w.phase = .settling out →
    Step lib w (.settle advanced moved) { w with
      cdc := (w.cdc.settle advanced).1
      phase := .idle
      slot := w.slot.map fun s => s.answer w.cdc.settleTarget advanced moved }
  | ack {receipt : Value} : Step lib w (.ack receipt) { w with
      cdc := w.cdc.ack receipt, history := w.history ++ [.acked receipt] }
  | release {receipt : Value} : Step lib w (.release receipt) { w with
      cdc := w.cdc.release receipt, history := w.history ++ [.released receipt] }

theorem Step.of_next {lib : Codec} {w w' : World} {a : Action} (h : w.next lib a = some w') :
    Step lib w a w' := by
  cases a with
  | connect =>
    simp only [World.next] at h
    split at h
    · rename_i hp hs
      cases h; exact .connect hp hs
    · cases h
  | create s =>
    simp only [World.next] at h
    split at h
    · rename_i hp hs
      split at h
      · rename_i hf
        cases h; exact .create hp hs hf
      · cases h
    · cases h
  | drop => cases h; exact .drop
  | commit =>
    simp only [World.next, Option.map_eq_some_iff] at h
    obtain ⟨s, hs, rfl⟩ := h
    exact .commit hs
  | start max =>
    simp only [World.next] at h
    split at h
    · rename_i hp
      simp only [PostgresCdc.startReceive, Option.map_eq_some_iff] at h
      obtain ⟨⟨cdc, out⟩, hs, rfl⟩ := h
      split at hs
      · rename_i hpool
        cases hs; exact .start hp hpool
      · cases hs
    · cases h
  | readFailed =>
    simp only [World.next] at h
    split at h
    · rename_i hp
      cases h; exact .readFailed hp
    · cases h
  | read messages =>
    simp only [World.next] at h
    split at h
    · rename_i hp hs
      split at h
      · rename_i ho
        cases h
        split
        · exact .read hp hs ho
        · exact .readOn hp hs ho
      · cases h
    · cases h
  | process =>
    simp only [World.next, PostgresCdc.process] at h
    split at h
    · rename_i max messages out hp
      cases hl : peekLoop lib w.cdc.slot max { progress := w.cdc.progress } messages with
      | mk st err =>
        cases err with
        | none => rw [hl] at h; cases h; exact .process hp hl
        | some e => rw [hl] at h; cases h; exact .processFailed hp hl
    · cases h
  | settle advanced moved =>
    simp only [World.next] at h
    split at h
    · rename_i hp
      split at h
      · cases h
      · cases h; exact .settle hp
    · cases h
  | ack receipt => cases h; exact .ack
  | release receipt => cases h; exact .release

/-- An advance keeps the slot's transactions. -/
@[simp] theorem Slot.answer_txns (s : Slot) (target : Option Lsn) (advanced : Except String Unit)
    (moved : Bool) : (s.answer target advanced moved).txns = s.txns := by
  unfold Slot.answer
  split
  · rfl
  · split <;> rfl

/-- Every slot of a run is good. -/
theorem reach_good {lib : Codec} {good : List Txn → Prop} {ok : World → Action → Prop} {w : World}
    (h : (cdcMachine lib good).Reach ok w) : ∀ s, w.slot = some s → good s.txns := by
  refine h.invariant (fun h₀ s hs => (h₀.slot s hs).1) fun {w a w'} _ hst hw s' hs' => ?_
  cases Step.of_next hst.1 with
  | create hp hs hf =>
    cases hs'
    exact hst.2 _ rfl
  | drop => cases hs'
  | @commit s hs =>
    cases hs'
    exact hw s hs
  | settle hp =>
    obtain ⟨s, hs, rfl⟩ := Option.map_eq_some_iff.mp hs'
    rw [Slot.answer_txns]
    exact hw s hs
  | _ => exact hw s' hs'

/-! ## `receive` as a run -/

section

variable {lib : Codec} {w : World} {s : Slot} {max : Nat} {out : List Delivery}
  {read : PeekLimit → Except String Rows}

/-- The phase the reads of a peek end in. -/
def readsEnd (max : Nat) (out : List Delivery) : Except String Rows → Phase
  | .ok messages => .read max messages out
  | .error _ => .idle

/-- The reads of a peek are steps of the machine. -/
theorem run_reads {p : Progress} {limit : PeekLimit}
    (hread : ∀ limit messages, read limit = .ok messages → s.outputs messages = true)
    (hs : w.slot = some s) (hprogress : w.cdc.progress = p)
    (hphase : w.phase = .peeking max limit out) :
    ∃ actions, w.run lib actions =
      some { w with phase := readsEnd max out (peekReads p read max limit) } := by
  fun_induction peekReads p read max limit generalizing w with
  | case1 limit e he =>
    refine ⟨[.readFailed], ?_⟩
    simp [World.run, Machine.run, World.next, hphase, readsEnd]
  | case2 limit messages hm henough =>
    refine ⟨[.read messages], ?_⟩
    simp [World.run, Machine.run, World.next, hphase, hs, hread limit messages hm, hprogress,
      henough, readsEnd]
  | case3 limit messages hm henough ih =>
    obtain ⟨actions, hrun⟩ := @ih { w with phase := .peeking max limit.grow out } hs hprogress rfl
    refine ⟨.read messages :: actions, ?_⟩
    have hnext : w.next lib (.read messages) =
        some { w with phase := .peeking max limit.grow out } := by
      simp [World.next, hphase, hs, hread limit messages hm, hprogress, henough]
    rw [World.run, Machine.run, hnext]
    exact hrun

/-- The history of a `receive`: what it returns was delivered. -/
def receivedHistory : Except String (List Delivery) → List Happening
  | .ok out => out.map .delivered
  | .error _ => []

/-- A connected `receive` that nothing comes between is a run of the machine. -/
theorem receive_run (hs : w.slot = some s) (hphase : w.phase = .idle) (hpool : w.cdc.pool = true)
    (hread : ∀ limit messages, read limit = .ok messages → s.outputs messages = true)
    (advanced : Except String Unit) :
    ∃ actions w', w.run lib actions = some w' ∧ w'.phase = .idle ∧
      w'.cdc = (w.cdc.receive lib max read advanced).1 ∧
      w'.history = w.history ++ receivedHistory (w.cdc.receive lib max read advanced).2 := by
  -- The world `start` leads to, with the gap taken.
  obtain ⟨cdc, out, hstart⟩ : ∃ cdc out, w.cdc.startReceive = some (cdc, out) :=
    ⟨_, _, if_pos hpool⟩
  let w₁ : World := { w with cdc, phase := .peeking max (cdc.progress.peekLimit max) out }
  have h₁ : w.next lib (.start max) = some w₁ := by
    simp [World.next, hphase, hstart, w₁]
  obtain ⟨actions, hrun⟩ : ∃ actions, w₁.run lib actions = some { w₁ with
      phase := readsEnd max out (peekReads cdc.progress read max (cdc.progress.peekLimit max)) } :=
    run_reads hread hs rfl rfl
  rw [PostgresCdc.receive, hstart]
  cases hreads : peekReads cdc.progress read max (cdc.progress.peekLimit max) with
  | error e =>
    rw [hreads] at hrun
    refine ⟨.start max :: actions, { w₁ with phase := .idle }, ?_, rfl, ?_, ?_⟩
    · rw [World.run, Machine.run, h₁]
      exact hrun
    · simp [hreads, w₁]
    · simp [hreads, receivedHistory, w₁]
  | ok messages =>
    rw [hreads] at hrun
    have hprocess : ∀ rest, w.run lib (.start max :: (actions ++ rest)) =
        World.run lib { w₁ with phase := .read max messages out } rest := by
      intro rest
      rw [World.run, Machine.run, h₁, Option.bind_some, Machine.run_append]
      rw [World.run] at hrun
      rw [hrun]
      rfl
    cases hloop : cdc.process lib max messages with
    | mk cdc' result =>
      cases result with
      | error e =>
        refine ⟨.start max :: (actions ++ [.process]), { w₁ with cdc := cdc', phase := .idle },
          ?_, rfl, ?_, ?_⟩
        · rw [hprocess]
          simp [World.run, Machine.run, World.next, w₁, hloop]
        · simp [hreads, hloop]
        · simp [hreads, hloop, receivedHistory, w₁]
      | ok new =>
        refine ⟨.start max :: (actions ++ [.process, .settle advanced false]),
          { w₁ with
            cdc := (cdc'.settle advanced).1
            phase := .idle
            slot := some (s.answer cdc'.settleTarget advanced false)
            history := w.history ++ (out ++ new).map .delivered }, ?_, rfl, ?_, ?_⟩
        · rw [hprocess]
          simp [World.run, Machine.run, World.next, w₁, hloop, hs]
        · simp [hreads, hloop]
        · simp [hreads, hloop, receivedHistory]

end

end McpgSql.Cdc
