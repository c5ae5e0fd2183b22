import McpgSql.Library.Machine
import McpgSql.Library.Places

/-!
# Transaction handles

`SqlTxHandle` on the three drivers, which share one state machine. The handle has the
open transaction in a mutex. Every operation takes it out. A statement runs on it and
puts it back, whether the statement succeeds or fails (rows always decode: a column
that does not is null). `commit` and `rollback` consume it. Where the future of an
operation is dropped the transaction is dropped with it, and rolled back. An operation
that finds nothing answers that the transaction is closed already, and so does
`is_closed`.

`closed_only_after_close`: in every run in which nothing is asked of the handle while a
statement has the transaction, and no statement and no commit is dropped, the handle says
closed only after a commit or rollback has taken the transaction, and a commit before
that commits it or says why not. While a statement has the transaction, `is_closed` is
true and a commit is refused (`statement_looks_closed`, `commit_refused`); a commit that
is dropped commits nothing (`dropped_commit_lost`).
-/

namespace McpgSql.Transaction

open Library

inductive TxOp where
  | execute
  | executeAffected
  | commit
  | rollback
deriving DecidableEq, Repr

/-- The operation ends the transaction. -/
def TxOp.closes : TxOp → Bool
  | .commit | .rollback => true
  | .execute | .executeAffected => false

inductive TxStatus where
  /-- "transaction already closed". -/
  | refused
  /-- The operation has the transaction. -/
  | running
  /-- The database answered. -/
  | done (ok : Bool)
  /-- The future was dropped, and the transaction with it. -/
  | dropped
deriving DecidableEq, Repr

structure TxCall where
  op : TxOp
  status : TxStatus
  /-- A commit or rollback had taken the transaction before. -/
  afterClose : Bool
deriving DecidableEq, Repr

/-- What `is_closed` said. -/
structure TxProbe where
  closed : Bool
  afterClose : Bool
deriving DecidableEq, Repr

structure HandleState where
  /-- The transaction is in the mutex. -/
  inner : Bool := true
  calls : List TxCall := []
  probes : List TxProbe := []
  /-- A commit or rollback has taken the transaction. -/
  closing : Bool := false
  /-- The database has committed the transaction. -/
  committed : Bool := false
deriving DecidableEq, Repr

/-- Calls are named by their places. -/
inductive HandleAction where
  /-- A holder calls an operation, up to its `take`. -/
  | call (op : TxOp)
  /-- The database answers; a statement puts the transaction back. -/
  | finish (i : Nat) (ok : Bool)
  /-- The future of the operation is dropped. -/
  | abandon (i : Nat)
  | isClosed
deriving DecidableEq, Repr

namespace HandleState

variable (s : HandleState)

/-- The operation of a call that has the transaction. -/
def running (i : Nat) : Option TxCall := (s.calls[i]?).filter (·.status = .running)

def setStatus (i : Nat) (call : TxCall) (status : TxStatus) : HandleState :=
  { s with calls := s.calls.set i { call with status } }

def next : HandleAction → Option HandleState
  | .call op =>
    if s.inner then some { s with
      inner := false
      calls := s.calls ++ [⟨op, .running, s.closing⟩]
      closing := s.closing || op.closes }
    else some { s with calls := s.calls ++ [⟨op, .refused, s.closing⟩] }
  | .finish i ok => (s.running i).map fun call => { s.setStatus i call (.done ok) with
      inner := s.inner || !call.op.closes
      committed := s.committed || (call.op = .commit && ok) }
  | .abandon i => (s.running i).map fun call => s.setStatus i call .dropped
  | .isClosed => some { s with probes := s.probes ++ [⟨!s.inner, s.closing⟩] }

end HandleState

/-- A handle from its creation on. -/
def handle : Machine HandleState HandleAction where
  init s := s = {}
  step s a s' := s.next a = some s'

/-- A commit is not lost: it has the transaction, or the database has committed it, or has
answered why not. -/
def TxCall.Kept (call : TxCall) (committed : Bool) : Prop :=
  call.status = .running ∨ (call.status = .done true ∧ committed = true) ∨ call.status = .done false

structure ClosedAfterClose (s : HandleState) : Prop where
  /-- An operation is refused only after a commit or rollback. -/
  refused : ∀ call ∈ s.calls, call.status = .refused → call.afterClose = true
  /-- And so does `is_closed` say closed. -/
  closed : ∀ probe ∈ s.probes, probe.closed = true → probe.afterClose = true
  /-- A commit before that is not lost. -/
  commit : ∀ call ∈ s.calls, call.op = .commit → call.afterClose = false → call.Kept s.committed

/-- Nothing is asked while a statement has the transaction, and no statement and no commit is
dropped. -/
def OneAtATime (s : HandleState) : HandleAction → Prop
  | .call _ | .isClosed => ∀ call ∈ s.calls, call.status = .running → call.op.closes = true
  | .abandon i => ∀ call ∈ s.running i, call.op = .rollback
  | .finish .. => True

instance (s : HandleState) : (a : HandleAction) → Decidable (OneAtATime s a)
  | .call _ | .isClosed =>
    inferInstanceAs (Decidable (∀ call ∈ s.calls, call.status = .running → call.op.closes = true))
  | .abandon i => inferInstanceAs (Decidable (∀ call ∈ s.running i, call.op = .rollback))
  | .finish .. => isTrue trivial

/-! ## Runs -/

variable {s s' : HandleState} {a : HandleAction} {i : Nat} {call call' : TxCall}

theorem running_eq_some : s.running i = some call ↔ s.calls[i]? = some call ∧ call.status = .running := by
  rw [HandleState.running, Option.filter_eq_some_iff, decide_eq_true_eq]

/-- The calls after one of them went on. -/
theorem mem_setStatus {status : TxStatus} (h : call' ∈ (s.setStatus i call status).calls) :
    call' = { call with status } ∨ ∃ j, j ≠ i ∧ s.calls[j]? = some call' := by
  obtain ⟨j, hj⟩ := List.mem_iff_getElem?.mp h
  rcases getElem?_set_cases hj with ⟨-, rfl⟩ | ⟨hne, hj⟩
  · exact .inl rfl
  · exact .inr ⟨j, hne, hj⟩

/-- The transaction is in the mutex, or it is being closed, or a statement has it. -/
structure Held (s : HandleState) : Prop where
  held : s.inner = true ∨ s.closing = true ∨
    ∃ call ∈ s.calls, call.status = .running ∧ call.op.closes = false
  closing : ∀ call ∈ s.calls, call.status = .running → call.op.closes = true → s.closing = true

theorem Held.inner_of_open (h : Held s)
    (hok : ∀ call ∈ s.calls, call.status = .running → call.op.closes = true)
    (hopen : s.closing = false) : s.inner = true := by
  rcases h.held with hinner | hclosing | ⟨call, hmem, hrunning, hno⟩
  · exact hinner
  · rw [hopen] at hclosing
    cases hclosing
  · rw [hok call hmem hrunning] at hno
    cases hno

/-- An operation that is over leaves the transaction where it belongs. -/
theorem Held.leave (h : Held s) (hi : s.calls[i]? = some call) {status : TxStatus}
    (hover : status ≠ .running) (hcalls : s'.calls = (s.setStatus i call status).calls)
    (hclosing : s'.closing = s.closing) (hinner : s.inner = true → s'.inner = true)
    (hop : call.op.closes = false → s'.inner = true) : Held s' := by
  obtain ⟨hlt, -⟩ := List.getElem?_eq_some_iff.mp hi
  constructor
  · rw [hclosing]
    rcases h.held with hin | hclosed | ⟨c, hmem, hrunning, hno⟩
    · exact .inl (hinner hin)
    · exact .inr (.inl hclosed)
    · obtain ⟨j, hj⟩ := List.mem_iff_getElem?.mp hmem
      by_cases hji : j = i
      · subst hji
        cases hi.symm.trans hj
        exact .inl (hop hno)
      · refine .inr (.inr ⟨c, ?_, hrunning, hno⟩)
        rw [hcalls]
        refine List.mem_iff_getElem?.mpr ⟨j, ?_⟩
        rw [HandleState.setStatus, List.getElem?_set_ne (Ne.symm hji)]
        exact hj
  · intro c hc hrunning hcloses
    rw [hclosing]
    rw [hcalls] at hc
    rcases mem_setStatus hc with rfl | ⟨j, -, hj⟩
    · exact absurd hrunning hover
    · exact h.closing c (List.mem_of_getElem? hj) hrunning hcloses

theorem Held.take (h : Held s) (op : TxOp) : Held { s with
    inner := false
    calls := s.calls ++ [⟨op, .running, s.closing⟩]
    closing := s.closing || op.closes } := by
  constructor
  · cases hop : op.closes with
    | true => exact .inr (.inl (by simp))
    | false => exact .inr (.inr ⟨⟨op, .running, s.closing⟩, by simp, rfl, hop⟩)
  · intro c hc hrunning hcloses
    rcases List.mem_append.mp hc with hc | hc
    · simp [h.closing c hc hrunning hcloses]
    · rw [List.mem_singleton.mp hc] at hcloses
      simp [hcloses]

theorem Held.refuse (h : Held s) (op : TxOp) :
    Held { s with calls := s.calls ++ [⟨op, .refused, s.closing⟩] } := by
  constructor
  · rcases h.held with hin | hclosed | ⟨c, hmem, hrest⟩
    · exact .inl hin
    · exact .inr (.inl hclosed)
    · exact .inr (.inr ⟨c, List.mem_append_left _ hmem, hrest⟩)
  · intro c hc hrunning hcloses
    rcases List.mem_append.mp hc with hc | hc
    · exact h.closing c hc hrunning hcloses
    · rw [List.mem_singleton.mp hc] at hrunning
      cases hrunning

theorem Held.next (h : Held s) (hok : OneAtATime s a) (hstep : s.next a = some s') : Held s' := by
  cases a with
  | call op =>
    simp only [HandleState.next] at hstep
    split at hstep
    · cases hstep
      exact h.take op
    · cases hstep
      exact h.refuse op
  | finish i ok =>
    obtain ⟨call, hi, rfl⟩ := Option.map_eq_some_iff.mp hstep
    obtain ⟨hi, -⟩ := running_eq_some.mp hi
    exact h.leave hi (by intro h; cases h) rfl rfl (fun hinner => by simp [hinner])
      fun hop => by simp [hop]
  | abandon i =>
    obtain ⟨call, hi, rfl⟩ := Option.map_eq_some_iff.mp hstep
    have hop : call.op = .rollback := hok call hi
    obtain ⟨hi, -⟩ := running_eq_some.mp hi
    refine h.leave hi (by intro h; cases h) rfl rfl (fun hinner => hinner) fun hno => ?_
    rw [hop] at hno
    cases hno
  | isClosed =>
    cases hstep
    exact ⟨h.held, h.closing⟩

/-- A call that joins. -/
theorem ClosedAfterClose.join (h : ClosedAfterClose s) (hcalls : s'.calls = s.calls ++ [call])
    (hprobes : s'.probes = s.probes) (hcommitted : s'.committed = s.committed)
    (hrefused : call.status = .refused → call.afterClose = true)
    (hkept : call.op = .commit → call.afterClose = false → call.Kept s.committed) :
    ClosedAfterClose s' := by
  refine ⟨fun c hc => ?_, by rw [hprobes]; exact h.closed, fun c hc => ?_⟩
  · rw [hcalls] at hc
    rcases List.mem_append.mp hc with hc | hc
    · exact h.refused c hc
    · rw [List.mem_singleton.mp hc]
      exact hrefused
  · rw [hcalls] at hc
    rw [hcommitted]
    rcases List.mem_append.mp hc with hc | hc
    · exact h.commit c hc
    · rw [List.mem_singleton.mp hc]
      exact hkept

/-- A call that is over. -/
theorem ClosedAfterClose.over (h : ClosedAfterClose s) {status : TxStatus}
    (hcalls : s'.calls = (s.setStatus i call status).calls) (hprobes : s'.probes = s.probes)
    (hcommitted : s.committed = true → s'.committed = true)
    (hstatus : status ≠ .refused)
    (hkept : call.op = .commit → TxCall.Kept { call with status } s'.committed) :
    ClosedAfterClose s' := by
  refine ⟨fun c hc => ?_, by rw [hprobes]; exact h.closed, fun c hc hop hopen => ?_⟩
  · rw [hcalls] at hc
    rcases mem_setStatus hc with rfl | ⟨j, -, hj⟩
    · exact fun hrefused => absurd hrefused hstatus
    · exact h.refused c (List.mem_of_getElem? hj)
  · rw [hcalls] at hc
    rcases mem_setStatus hc with rfl | ⟨j, -, hj⟩
    · exact hkept hop
    · rcases h.commit c (List.mem_of_getElem? hj) hop hopen with hrun | ⟨hdone, hc⟩ | hfailed
      · exact .inl hrun
      · exact .inr (.inl ⟨hdone, hcommitted hc⟩)
      · exact .inr (.inr hfailed)

theorem ClosedAfterClose.next (h : ClosedAfterClose s) (hheld : Held s) (hok : OneAtATime s a)
    (hstep : s.next a = some s') : ClosedAfterClose s' := by
  cases a with
  | call op =>
    simp only [HandleState.next] at hstep
    split at hstep
    · cases hstep
      exact h.join rfl rfl rfl (by intro h; cases h) fun _ _ => .inl rfl
    · rename_i hinner
      cases hstep
      have hclosing : s.closing = true := by
        cases hopen : s.closing with
        | true => rfl
        | false => exact absurd (hheld.inner_of_open hok hopen) hinner
      refine h.join rfl rfl rfl (fun _ => hclosing) fun _ hopen => ?_
      rw [show s.closing = false from hopen] at hclosing
      cases hclosing
  | finish i ok =>
    obtain ⟨call, hi, rfl⟩ := Option.map_eq_some_iff.mp hstep
    refine h.over rfl rfl (fun hc => by simp [hc]) (by intro h; cases h) fun hop => ?_
    cases ok with
    | true => exact .inr (.inl ⟨rfl, by simp [hop]⟩)
    | false => exact .inr (.inr rfl)
  | abandon i =>
    obtain ⟨call, hi, rfl⟩ := Option.map_eq_some_iff.mp hstep
    have hop : call.op = .rollback := hok call hi
    refine h.over rfl rfl (fun hc => hc) (by intro h; cases h) fun hcommit => ?_
    rw [hop] at hcommit
    cases hcommit
  | isClosed =>
    cases hstep
    refine ⟨h.refused, fun probe hmem hclosed => ?_, h.commit⟩
    rcases List.mem_append.mp hmem with hmem | hmem
    · exact h.closed probe hmem hclosed
    · rw [List.mem_singleton.mp hmem] at hclosed ⊢
      cases hopen : s.closing with
      | true => rfl
      | false =>
        rw [hheld.inner_of_open hok hopen] at hclosed
        cases hclosed

theorem held_of_reach (h : handle.Reach OneAtATime s) : Held s := by
  refine h.invariant (fun h₀ => ?_) fun hok hstep hI => hI.next hok hstep
  cases h₀
  exact ⟨.inl rfl, nofun⟩

/-- In every run in which no operation overlaps a statement and no statement and no commit is
dropped, the handle says closed only after a commit or rollback, and loses no commit. -/
theorem closed_only_after_close (h : handle.Reach OneAtATime s) : ClosedAfterClose s := by
  refine h.invariant_of held_of_reach (fun h₀ => ?_) fun hok hstep hJ hI => hI.next hJ hok hstep
  cases h₀
  exact ⟨nofun, nofun, nofun⟩

/-- A statement, a commit, and another commit after it. -/
def oneAfterTheOther : List HandleAction :=
  [.call .execute, .finish 0 true, .isClosed, .call .commit, .finish 1 true, .call .commit, .isClosed]

theorem oneAfterTheOther_closed :
    ∃ s, Machine.run HandleState.next {} oneAfterTheOther = some s ∧ s.committed = true ∧
      s.calls.map TxCall.status = [.done true, .done true, .refused] ∧
      s.probes.map TxProbe.closed = [false, true] ∧ ClosedAfterClose s := by
  have hrun : handle.Reach OneAtATime _ :=
    (Machine.Reach.init rfl).along (fun _ h => h) (by decide)
      (show Machine.run HandleState.next {} oneAfterTheOther = _ from rfl)
  exact ⟨_, rfl, by decide, by decide, by decide, closed_only_after_close hrun⟩

/-! ## Operations that overlap -/

section

variable (hinner : s.inner = false) (hopen : s.closing = false)
include hinner hopen

/-- While a statement has the transaction, the handle looks closed. -/
theorem statement_looks_closed : ∃ s', s.next .isClosed = some s' ∧ ¬ClosedAfterClose s' := by
  refine ⟨_, rfl, fun h => ?_⟩
  have := h.closed ⟨!s.inner, s.closing⟩ (List.mem_append_right _ List.mem_cons_self)
    (by simp [hinner])
  rw [hopen] at this
  cases this

/-- While a statement has the transaction, a commit is refused. -/
theorem commit_refused : ∃ s', s.next (.call .commit) = some s' ∧ s'.committed = s.committed ∧
    ¬ClosedAfterClose s' := by
  refine ⟨{ s with calls := s.calls ++ [⟨.commit, .refused, s.closing⟩] },
    by simp [HandleState.next, hinner], rfl, fun h => ?_⟩
  have := h.refused ⟨.commit, .refused, s.closing⟩ (List.mem_append_right _ List.mem_cons_self) rfl
  rw [hopen] at this
  cases this

end

/-- A commit whose future is dropped is lost. -/
theorem dropped_commit_lost (hi : s.running i = some call) (hop : call.op = .commit)
    (hopen : call.afterClose = false) :
    ∃ s', s.next (.abandon i) = some s' ∧ s'.committed = s.committed ∧ ¬ClosedAfterClose s' := by
  refine ⟨s.setStatus i call .dropped, by simp [HandleState.next, hi], rfl, fun h => ?_⟩
  obtain ⟨hlt, -⟩ := List.getElem?_eq_some_iff.mp (running_eq_some.mp hi).1
  have hmem : { call with status := .dropped } ∈ (s.setStatus i call .dropped).calls :=
    List.mem_iff_getElem?.mpr ⟨i, by simp [HandleState.setStatus, hlt]⟩
  rcases h.commit _ hmem hop hopen with hrun | ⟨hdone, -⟩ | hfailed
  · cases hrun
  · cases hdone
  · cases hfailed

/-- `is_closed` and a commit while a statement runs. -/
def duringStatement : List HandleAction :=
  [.call .execute, .isClosed, .call .commit, .finish 0 true]

theorem duringStatement_closed :
    ∃ s, handle.Reach (fun _ _ => True) s ∧ s.inner = true ∧ s.closing = false ∧
      s.committed = false ∧ ¬ClosedAfterClose s := by
  have hrun : handle.Reach (fun _ _ => True) _ :=
    (Machine.Reach.init rfl).run (fun _ h => h) (fun _ _ _ => trivial)
      (show Machine.run HandleState.next {} duringStatement = _ from rfl)
  refine ⟨_, hrun, rfl, rfl, rfl, fun h => ?_⟩
  have := h.refused ⟨.commit, .refused, false⟩ (by decide) rfl
  cases this

end McpgSql.Transaction
