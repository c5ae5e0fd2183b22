import Mathlib.Algebra.Group.Nat.Defs
import Mathlib.Logic.Function.Basic
import McpgSql.Library.Machine
import McpgSql.Library.OrdMap
import McpgSql.Library.Places

/-!
# Cancelling SQLite queries

A query with a context pins a connection, puts a progress handler on it that reads the
query's `Cancel`, takes a nonce and enters its `Cancel` under it into the table. When it
ends its flag goes inactive and the nonce leaves the table. Its handler stays on the
pooled connection where its future is dropped, and a statement that the worker is at
then goes on. `cancel_backend` looks a nonce up and sets the flag that it finds.

`cancel_exact`: in every run in which a query takes a nonce that no unfinished query
has, a statement is stopped only by a cancel of its own query, a cancel that found its
query stops it at every check until the query ends, and the table holds the nonces of
the queries that have started and not ended. Nonces are taken modulo `2 ^ 64`: a query
that outlives as many others loses its entry to one of them (`wrapped_not_exact`).
-/

namespace McpgSql.Driver

open Library

/-- The cancel state of a query, which the progress handler on its connection reads. -/
structure Cancel where
  cancelled : Bool := false
  active : Bool := true
deriving DecidableEq, Repr

/-- The statement on the connection is to end now. -/
def Cancel.stops (c : Cancel) : Bool := c.active && c.cancelled

/-- How far a query is. -/
inductive QueryPhase where
  /-- Its handler is on the connection. -/
  | installed
  /-- With its nonce. -/
  | numbered
  /-- In the table. -/
  | live
  /-- Inactive, not yet out of the table. -/
  | ending
  | ended
deriving DecidableEq, Repr

namespace QueryPhase

def isActive : QueryPhase → Bool
  | .installed | .numbered | .live => true
  | .ending | .ended => false

/-- The query has a nonce and has not ended. -/
def isNumbered : QueryPhase → Bool
  | .numbered | .live | .ending => true
  | .installed | .ended => false

/-- The query has started and not ended. -/
def isStarted : QueryPhase → Bool
  | .live | .ending => true
  | .installed | .numbered | .ended => false

end QueryPhase

structure Query where
  conn : Nat
  nonce : Nat := 0
  cancel : Cancel := {}
  phase : QueryPhase := .installed
deriving DecidableEq, Repr

/-- The query with its flag set. -/
def Query.cancelled (query : Query) : Query :=
  { query with cancel := { query.cancel with cancelled := true } }

/-- Who has a connection out of the pool. -/
inductive Holder where
  /-- A call with a context, before its handler is set. -/
  | starting
  | query (q : Nat)
  /-- A statement without a context. -/
  | bare
deriving DecidableEq, Repr

structure Connection where
  /-- The query whose `Cancel` the progress handler reads. -/
  handler : Option Nat := none
  holder : Option Holder := none
  /-- Whose statement the worker of the connection is at. -/
  statement : Option Holder := none
deriving DecidableEq, Repr

structure SqliteState where
  conns : Nat → Connection := fun _ => {}
  queries : List Query := []
  /-- The queries by nonce. -/
  handles : OrdMap Nat Nat := .empty
  nextHandle : Nat := 1
  /-- The nonces that `cancel_backend` was called with. -/
  called : List Nat := []
  /-- Calls of `cancel_backend` that have found a query and not set its flag yet. -/
  pending : List (Nat × Nat) := []
  /-- Calls of `cancel_backend` that have found a query and set its flag. -/
  set : List (Nat × Nat) := []

/-- The steps of a query with its handler on the connection. -/
inductive QueryStep where
  /-- `next_handle.fetch_add`. -/
  | number
  | insert
  | run
  /-- The first half of the drop of `Running`: the query finishes, or its future is dropped. -/
  | deactivate
  | remove
deriving DecidableEq, Repr

inductive SqliteAction where
  | acquire (c : Nat)
  | acquireBare (c : Nat)
  /-- `set_progress_handler`, once the worker is at no statement. -/
  | install (c : Nat)
  | query (q : Nat) (step : QueryStep)
  | runBare (c : Nat)
  /-- The statement comes to its end. -/
  | done (c : Nat)
  /-- The statement is stopped by the progress handler. -/
  | interrupt (c : Nat)
  /-- `remove_progress_handler`. -/
  | clear (c : Nat)
  /-- The connection goes back to the pool. -/
  | release (c : Nat)
  /-- `cancel_backend` looks its nonce up. -/
  | cancel (nonce : Nat)
  /-- `cancel_backend` sets the flag that it found. -/
  | store (i : Nat)
deriving DecidableEq, Repr

namespace SqliteState

variable (s : SqliteState)

def setConn (c : Nat) (conn : Connection) : SqliteState :=
  { s with conns := Function.update s.conns c conn }

def setQuery (q : Nat) (query : Query) : SqliteState :=
  { s with queries := s.queries.set q query }

/-- The query at `q` has ended. -/
def hasEnded (q : Nat) : Bool := (s.queries[q]?).any fun query => query.phase = .ended

/-- The progress handler on `c` reports that the statement is to end. -/
def stopsAt (c : Nat) : Bool :=
  ((s.conns c).handler.bind fun q => s.queries[q]?).any fun query => query.cancel.stops

/-- The step of the query at `q`. -/
def nextQuery (q : Nat) (query : Query) : QueryStep → Option SqliteState
  | .number =>
    if query.phase = .installed then some { s.setQuery q { query with
        nonce := s.nextHandle, phase := .numbered } with nextHandle := (s.nextHandle + 1) % 2 ^ 64 }
    else none
  | .insert =>
    if query.phase = .numbered then some { s.setQuery q { query with phase := .live } with
        handles := s.handles.insert query.nonce q }
    else none
  | .run =>
    let conn := s.conns query.conn
    if query.phase = .live ∧ conn.statement = none then
      some (s.setConn query.conn { conn with statement := some (.query q) })
    else none
  | .deactivate =>
    if query.phase = .live then some (s.setQuery q { query with
        cancel := { query.cancel with active := false }, phase := .ending })
    else none
  | .remove =>
    if query.phase = .ending then some { s.setQuery q { query with phase := .ended } with
        handles := s.handles.erase query.nonce }
    else none

def next : SqliteAction → Option SqliteState
  | .acquire c =>
    if (s.conns c).holder = none then some (s.setConn c { s.conns c with holder := some .starting })
    else none
  | .acquireBare c =>
    if (s.conns c).holder = none then some (s.setConn c { s.conns c with holder := some .bare })
    else none
  | .install c =>
    if (s.conns c).holder = some .starting ∧ (s.conns c).statement = none then
      some { s.setConn c { s.conns c with
          holder := some (.query s.queries.length), handler := some s.queries.length } with
        queries := s.queries ++ [{ conn := c }] }
    else none
  | .query q step => (s.queries[q]?).bind fun query => s.nextQuery q query step
  | .runBare c =>
    if (s.conns c).holder = some .bare ∧ (s.conns c).statement = none then
      some (s.setConn c { s.conns c with statement := some .bare })
    else none
  | .done c => some (s.setConn c { s.conns c with statement := none })
  | .interrupt c =>
    if (s.conns c).statement.isSome ∧ s.stopsAt c then
      some (s.setConn c { s.conns c with statement := none })
    else none
  | .clear c => match (s.conns c).holder with
    | some (.query q) =>
      if s.hasEnded q ∧ (s.conns c).statement = none then
        some (s.setConn c { s.conns c with handler := none })
      else none
    | _ => none
  | .release c => match (s.conns c).holder with
    | some (.query q) =>
      if s.hasEnded q then some (s.setConn c { s.conns c with holder := none }) else none
    | some _ => some (s.setConn c { s.conns c with holder := none })
    | none => none
  | .cancel nonce => some { s with
      called := nonce :: s.called
      pending := s.pending ++ (s.handles.get? nonce).toList.map fun q => (nonce, q) }
  | .store i => (s.pending[i]?).map fun found => { s with
      queries := s.queries.modify found.2 Query.cancelled
      pending := s.pending.eraseIdx i
      set := found :: s.set }

end SqliteState

/-- Queries and cancels over the connections of a driver, from its creation on. -/
def sqliteCancel : Machine SqliteState SqliteAction where
  init s := s = {}
  step s a s' := s.next a = some s'

structure CancelExact (s : SqliteState) : Prop where
  /-- A statement is stopped only by a cancel of its own query. -/
  own : ∀ c holder, (s.conns c).statement = some holder → s.stopsAt c →
    ∃ q query, holder = .query q ∧ s.queries[q]? = some query ∧ query.nonce ∈ s.called
  /-- A cancel that found its query stops it at every check until it ends. -/
  stops : ∀ nonce q, (nonce, q) ∈ s.set →
    ∃ query, s.queries[q]? = some query ∧ query.nonce = nonce ∧
      (query.phase = .live → (s.conns query.conn).handler = some q ∧ s.stopsAt query.conn)
  /-- The table holds the nonces of the queries that have started and not ended. -/
  table : ∀ nonce, (s.handles.get? nonce).isSome ↔
    ∃ query ∈ s.queries, query.nonce = nonce ∧ query.phase.isStarted

/-- A query takes a nonce that no unfinished query has. -/
def FreshNonce (s : SqliteState) : SqliteAction → Prop
  | .query _ .number => ∀ query ∈ s.queries, query.phase.isNumbered → query.nonce ≠ s.nextHandle
  | _ => True

instance (s : SqliteState) : (a : SqliteAction) → Decidable (FreshNonce s a)
  | .query _ .number => inferInstanceAs
      (Decidable (∀ query ∈ s.queries, query.phase.isNumbered → query.nonce ≠ s.nextHandle))
  | .query _ .insert | .query _ .run | .query _ .deactivate | .query _ .remove => isTrue trivial
  | .acquire _ | .acquireBare _ | .install _ | .runBare _ | .done _ | .interrupt _ | .clear _
  | .release _ | .cancel _ | .store _ => isTrue trivial

variable {s s' : SqliteState} {a : SqliteAction} {c q : Nat} {query query' : Query}
  {conn : Connection}

/-! ## Handlers and connections -/

/-- An active query holds its connection and has its handler there, and a connection that
a query holds runs no statement of another. -/
structure Watched (s : SqliteState) : Prop where
  active : ∀ (q : Nat) (query : Query), s.queries[q]? = some query →
    query.cancel.active = query.phase.isActive
  pinned : ∀ (q : Nat) (query : Query), s.queries[q]? = some query → query.cancel.active = true →
    (s.conns query.conn).holder = some (.query q) ∧ (s.conns query.conn).handler = some q
  own : ∀ c q holder, (s.conns c).holder = some (.query q) → (s.conns c).statement = some holder →
    holder = .query q
  placed : ∀ c q (query : Query), (s.conns c).handler = some q → s.queries[q]? = some query →
    query.conn = c
  known : ∀ c q, (s.conns c).handler = some q → q < s.queries.length

/-- A query that has ended is not active. -/
theorem Watched.inactive_of_hasEnded (h : Watched s) (hended : s.hasEnded q = true)
    (hq : s.queries[q]? = some query) : query.cancel.active = false := by
  rw [SqliteState.hasEnded, hq] at hended
  have hphase : query.phase = .ended := by simpa using hended
  rw [h.active q query hq, hphase]
  rfl

theorem Watched.setConn (h : Watched s)
    (hpinned : ∀ (q : Nat) (query : Query), s.queries[q]? = some query → query.cancel.active = true →
      query.conn = c → conn.holder = some (.query q) ∧ conn.handler = some q)
    (hown : ∀ q holder, conn.holder = some (.query q) → conn.statement = some holder →
      holder = .query q)
    (hhandler : conn.handler = none ∨ conn.handler = (s.conns c).handler) :
    Watched (s.setConn c conn) := by
  have hget : ∀ c', (s.setConn c conn).conns c' = if c' = c then conn else s.conns c' :=
    fun c' => Function.update_apply ..
  have hold : ∀ {c' q}, ((s.setConn c conn).conns c').handler = some q →
      (s.conns c').handler = some q := by
    intro c' q hq
    rw [hget] at hq
    split at hq
    · rename_i hc
      rcases hhandler with hnone | hsame
      · rw [hnone] at hq
        cases hq
      · rw [hc, ← hsame]
        exact hq
    · exact hq
  refine ⟨h.active, fun q query hq hactive => ?_, fun c' q holder => ?_,
    fun c' q query hq => h.placed c' q query (hold hq), fun c' q hq => h.known c' q (hold hq)⟩
  · rw [hget]
    split
    · rename_i hc
      exact hpinned q query hq hactive hc
    · exact h.pinned q query hq hactive
  · rw [hget]
    split
    · exact hown q holder
    · exact h.own c' q holder

theorem Watched.setQuery (h : Watched s) (hq : s.queries[q]? = some query)
    (hconn : query'.conn = query.conn) (hphase : query'.cancel.active = query'.phase.isActive)
    (hactive : query'.cancel.active = true → query.cancel.active = true) :
    Watched (s.setQuery q query') := by
  refine ⟨fun j k hj => ?_, fun j k hj hk => ?_, h.own, fun c j k hc hj => ?_, fun c j hc => ?_⟩
  · rcases getElem?_set_cases hj with ⟨-, rfl⟩ | ⟨-, hj⟩
    · exact hphase
    · exact h.active j k hj
  · rcases getElem?_set_cases hj with ⟨rfl, rfl⟩ | ⟨-, hj⟩
    · show (s.conns k.conn).holder = _ ∧ (s.conns k.conn).handler = _
      rw [hconn]
      exact h.pinned j query hq (hactive hk)
    · exact h.pinned j k hj hk
  · rcases getElem?_set_cases hj with ⟨rfl, rfl⟩ | ⟨-, hj⟩
    · exact hconn.trans (h.placed c j query hc hq)
    · exact h.placed c j k hc hj
  · show j < (s.queries.set q query').length
    rw [List.length_set]
    exact h.known c j hc

/-- A connection that nobody holds, or somebody with no handler of its own, is no query's. -/
theorem Watched.free (h : Watched s) {holder : Option Holder} (hc : (s.conns c).holder = holder)
    (hholder : ∀ q, holder ≠ some (.query q)) (hq : s.queries[q]? = some query)
    (hactive : query.cancel.active = true) : query.conn ≠ c := by
  rintro rfl
  exact hholder q (hc.symm.trans (h.pinned q query hq hactive).1)

theorem Watched.install (h : Watched s) (hholder : (s.conns c).holder = some .starting)
    (hidle : (s.conns c).statement = none) :
    Watched { s.setConn c { s.conns c with
        holder := some (.query s.queries.length), handler := some s.queries.length } with
      queries := s.queries ++ [{ conn := c }] } := by
  have hget : ∀ c', (s.setConn c { s.conns c with
      holder := some (.query s.queries.length), handler := some s.queries.length }).conns c' =
        if c' = c then { s.conns c with
          holder := some (.query s.queries.length), handler := some s.queries.length }
        else s.conns c' := fun c' => Function.update_apply ..
  refine ⟨fun q query hq => ?_, fun q query hq hactive => ?_, fun c' q holder => ?_,
    fun c' q query => ?_, fun c' q => ?_⟩
  · rcases getElem?_concat_cases hq with hq | ⟨rfl, rfl⟩
    · exact h.active q query hq
    · rfl
  · show ((s.setConn c _).conns query.conn).holder = _ ∧ ((s.setConn c _).conns query.conn).handler = _
    rw [hget]
    rcases getElem?_concat_cases hq with hq | ⟨rfl, rfl⟩
    · rw [if_neg (h.free hholder nofun hq hactive)]
      exact h.pinned q query hq hactive
    · rw [if_pos rfl]
      exact ⟨rfl, rfl⟩
  · show ((s.setConn c _).conns c').holder = _ → ((s.setConn c _).conns c').statement = _ → _
    rw [hget]
    split
    · intro _ hstatement
      rw [show (s.conns c).statement = none from hidle] at hstatement
      cases hstatement
    · exact h.own c' q holder
  · show ((s.setConn c _).conns c').handler = _ → (s.queries ++ [_])[q]? = _ → _
    rw [hget]
    split
    · rename_i hc
      intro hq hquery
      cases hq
      rcases getElem?_concat_cases hquery with hlt | ⟨-, rfl⟩
      · have := (List.getElem?_eq_some_iff.mp hlt).1
        omega
      · exact hc.symm
    · intro hq hquery
      rcases getElem?_concat_cases hquery with hquery | ⟨rfl, -⟩
      · exact h.placed c' q query hq hquery
      · have := h.known c' _ hq
        omega
  · show ((s.setConn c _).conns c').handler = _ → q < (s.queries ++ [_]).length
    rw [hget, List.length_append, List.length_singleton]
    split
    · intro hq
      cases hq
      omega
    · intro hq
      have := h.known c' q hq
      omega

theorem Watched.store (h : Watched s) (q : Nat) :
    Watched { s with queries := s.queries.modify q Query.cancelled } := by
  have hsame : ∀ (j : Nat) (k : Query), (s.queries.modify q Query.cancelled)[j]? = some k →
      ∃ query, s.queries[j]? = some query ∧ k.conn = query.conn ∧ k.phase = query.phase ∧
        k.cancel.active = query.cancel.active := by
    intro j k hj
    obtain ⟨query, hq, rfl⟩ := getElem?_modify_cases hj
    refine ⟨query, hq, ?_⟩
    split
    · exact ⟨rfl, rfl, rfl⟩
    · exact ⟨rfl, rfl, rfl⟩
  refine ⟨fun j k hj => ?_, fun j k hj hactive => ?_, h.own, fun c j k hc hj => ?_, fun c j hc => ?_⟩
  · obtain ⟨query, hq, -, hphase, hact⟩ := hsame j k hj
    rw [hact, hphase]
    exact h.active j query hq
  · obtain ⟨query, hq, hconn, -, hact⟩ := hsame j k hj
    rw [hconn]
    exact h.pinned j query hq (hact ▸ hactive)
  · obtain ⟨query, hq, hconn, -, -⟩ := hsame j k hj
    exact hconn.trans (h.placed c j query hc hq)
  · show j < (s.queries.modify q Query.cancelled).length
    rw [List.length_modify]
    exact h.known c j hc

theorem Watched.nextQuery (h : Watched s) {step : QueryStep} (hq : s.queries[q]? = some query)
    (hstep : s.nextQuery q query step = some s') : Watched s' := by
  have hact := h.active q query hq
  cases step with
  | number =>
    obtain ⟨hphase, hstep⟩ := Option.ite_none_right_eq_some.mp hstep
    cases hstep
    rw [hphase] at hact
    have : Watched (s.setQuery q { query with nonce := s.nextHandle, phase := .numbered }) :=
      h.setQuery hq rfl hact id
    exact ⟨this.active, this.pinned, this.own, this.placed, this.known⟩
  | insert =>
    obtain ⟨hphase, hstep⟩ := Option.ite_none_right_eq_some.mp hstep
    cases hstep
    rw [hphase] at hact
    have : Watched (s.setQuery q { query with phase := .live }) := h.setQuery hq rfl hact id
    exact ⟨this.active, this.pinned, this.own, this.placed, this.known⟩
  | run =>
    obtain ⟨⟨hphase, -⟩, hstep⟩ := Option.ite_none_right_eq_some.mp hstep
    cases hstep
    rw [hphase] at hact
    obtain ⟨hholder, hhandler⟩ := h.pinned q query hq hact
    refine h.setConn (fun j k hj hactive hc => ?_) (fun j holder hj hstatement => ?_) (.inr rfl)
    · have := h.pinned j k hj hactive
      rw [hc] at this
      exact this
    · cases hstatement
      have : (s.conns query.conn).holder = some (.query j) := hj
      rw [hholder] at this
      cases this
      rfl
  | deactivate =>
    obtain ⟨hphase, hstep⟩ := Option.ite_none_right_eq_some.mp hstep
    cases hstep
    exact h.setQuery hq rfl rfl nofun
  | remove =>
    obtain ⟨hphase, hstep⟩ := Option.ite_none_right_eq_some.mp hstep
    cases hstep
    rw [hphase] at hact
    have : Watched (s.setQuery q { query with phase := .ended }) := h.setQuery hq rfl hact id
    exact ⟨this.active, this.pinned, this.own, this.placed, this.known⟩

/-- A step of the connection keeps its holder and its handler. -/
theorem Watched.statement (h : Watched s) {statement : Option Holder}
    (hown : ∀ q holder, (s.conns c).holder = some (.query q) → statement = some holder →
      holder = .query q) : Watched (s.setConn c { s.conns c with statement }) := by
  refine h.setConn (fun q query hq hactive hc => ?_) hown (.inr rfl)
  have := h.pinned q query hq hactive
  rw [hc] at this
  exact this

/-- A connection whose query has ended, or that no query holds, gives up its handler and
its holder. -/
theorem Watched.give (h : Watched s) {handler : Option Nat} {holder : Option Holder}
    (hended : ∀ q, (s.conns c).holder = some (.query q) → s.hasEnded q = true)
    (hholder : holder = none ∨ holder = (s.conns c).holder)
    (hhandler : handler = none ∨ handler = (s.conns c).handler) :
    Watched (s.setConn c { s.conns c with handler, holder }) := by
  refine h.setConn (fun q query hq hactive hc => ?_) (fun q o hq hstatement => ?_) hhandler
  · have hpin := (h.pinned q query hq hactive).1
    rw [hc] at hpin
    have := h.inactive_of_hasEnded (hended q hpin) hq
    rw [hactive] at this
    cases this
  · rcases hholder with hnone | hsame
    · rw [hnone] at hq
      cases hq
    · exact h.own c q o (hsame.symm.trans hq) hstatement

theorem Watched.next (h : Watched s) (hstep : s.next a = some s') : Watched s' := by
  cases a with
  | acquire c | acquireBare c =>
    obtain ⟨hnone, hstep⟩ := Option.ite_none_right_eq_some.mp hstep
    cases hstep
    exact h.setConn (fun q query hq hactive hc => absurd hc (h.free hnone nofun hq hactive)) nofun
      (.inr rfl)
  | install c =>
    obtain ⟨⟨hholder, hidle⟩, hstep⟩ := Option.ite_none_right_eq_some.mp hstep
    cases hstep
    exact h.install hholder hidle
  | query q step =>
    obtain ⟨query, hq, hstep⟩ := Option.bind_eq_some_iff.mp hstep
    exact h.nextQuery hq hstep
  | runBare c =>
    obtain ⟨⟨hholder, -⟩, hstep⟩ := Option.ite_none_right_eq_some.mp hstep
    cases hstep
    exact h.statement fun q holder hq _ => by rw [hholder] at hq; cases hq
  | done c => cases hstep; exact h.statement nofun
  | interrupt c =>
    obtain ⟨-, hstep⟩ := Option.ite_none_right_eq_some.mp hstep
    cases hstep
    exact h.statement nofun
  | clear c =>
    simp only [SqliteState.next] at hstep
    split at hstep
    · rename_i q hholder
      obtain ⟨⟨hended, -⟩, hstep⟩ := Option.ite_none_right_eq_some.mp hstep
      cases hstep
      refine h.give (fun j hj => ?_) (.inr rfl) (.inl rfl)
      rw [hholder] at hj
      cases hj
      exact hended
    · cases hstep
  | release c =>
    simp only [SqliteState.next] at hstep
    split at hstep
    · rename_i q hholder
      obtain ⟨hended, hstep⟩ := Option.ite_none_right_eq_some.mp hstep
      cases hstep
      refine h.give (fun j hj => ?_) (.inl rfl) (.inr rfl)
      rw [hholder] at hj
      cases hj
      exact hended
    · rename_i holder hholder hne
      cases hstep
      exact h.give (fun j hj => absurd (Option.some.inj (hne.symm.trans hj)) (hholder j)) (.inl rfl)
        (.inr rfl)
    · cases hstep
  | cancel nonce => cases hstep; exact ⟨h.active, h.pinned, h.own, h.placed, h.known⟩
  | store i =>
    obtain ⟨found, -, rfl⟩ := Option.map_eq_some_iff.mp hstep
    have := h.store found.2
    exact ⟨this.active, this.pinned, this.own, this.placed, this.known⟩

/-! ## Steps of the queries -/

/-- The steps by what they do to the queries, the table and the cancels. -/
inductive SqliteStep (s : SqliteState) : SqliteAction → SqliteState → Prop
  /-- Only connections change. -/
  | conns {a : SqliteAction} (conns : Nat → Connection) : SqliteStep s a { s with conns }
  | install {a : SqliteAction} (conns : Nat → Connection) (c : Nat) :
      SqliteStep s a { s with conns, queries := s.queries ++ [{ conn := c }] }
  | number {q : Nat} {query : Query} (hq : s.queries[q]? = some query)
      (hphase : query.phase = .installed) :
      SqliteStep s (.query q .number) { s.setQuery q { query with
        nonce := s.nextHandle, phase := .numbered } with nextHandle := (s.nextHandle + 1) % 2 ^ 64 }
  | insert {a : SqliteAction} {q : Nat} {query : Query} (hq : s.queries[q]? = some query)
      (hphase : query.phase = .numbered) :
      SqliteStep s a { s.setQuery q { query with phase := .live } with
        handles := s.handles.insert query.nonce q }
  | deactivate {a : SqliteAction} {q : Nat} {query : Query} (hq : s.queries[q]? = some query)
      (hphase : query.phase = .live) :
      SqliteStep s a (s.setQuery q { query with
        cancel := { query.cancel with active := false }, phase := .ending })
  | remove {a : SqliteAction} {q : Nat} {query : Query} (hq : s.queries[q]? = some query)
      (hphase : query.phase = .ending) :
      SqliteStep s a { s.setQuery q { query with phase := .ended } with
        handles := s.handles.erase query.nonce }
  | cancel {a : SqliteAction} (nonce : Nat) : SqliteStep s a { s with
      called := nonce :: s.called
      pending := s.pending ++ (s.handles.get? nonce).toList.map fun q => (nonce, q) }
  | store {a : SqliteAction} {i nonce q : Nat} (hi : s.pending[i]? = some (nonce, q)) :
      SqliteStep s a { s with
        queries := s.queries.modify q Query.cancelled
        pending := s.pending.eraseIdx i
        set := (nonce, q) :: s.set }

theorem sqliteStep_of_nextQuery {step : QueryStep} (hq : s.queries[q]? = some query)
    (hstep : s.nextQuery q query step = some s') : SqliteStep s (.query q step) s' := by
  cases step with
  | number =>
    obtain ⟨hphase, hstep⟩ := Option.ite_none_right_eq_some.mp hstep
    cases hstep
    exact .number hq hphase
  | insert =>
    obtain ⟨hphase, hstep⟩ := Option.ite_none_right_eq_some.mp hstep
    cases hstep
    exact .insert hq hphase
  | run =>
    obtain ⟨-, hstep⟩ := Option.ite_none_right_eq_some.mp hstep
    cases hstep
    exact .conns _
  | deactivate =>
    obtain ⟨hphase, hstep⟩ := Option.ite_none_right_eq_some.mp hstep
    cases hstep
    exact .deactivate hq hphase
  | remove =>
    obtain ⟨hphase, hstep⟩ := Option.ite_none_right_eq_some.mp hstep
    cases hstep
    exact .remove hq hphase

theorem sqliteStep_of_next (hstep : s.next a = some s') : SqliteStep s a s' := by
  cases a with
  | acquire c | acquireBare c | runBare c | interrupt c =>
    obtain ⟨-, hstep⟩ := Option.ite_none_right_eq_some.mp hstep
    cases hstep
    exact .conns _
  | install c =>
    obtain ⟨-, hstep⟩ := Option.ite_none_right_eq_some.mp hstep
    cases hstep
    exact .install _ c
  | query q step =>
    obtain ⟨query, hq, hstep⟩ := Option.bind_eq_some_iff.mp hstep
    exact sqliteStep_of_nextQuery hq hstep
  | done c => cases hstep; exact .conns _
  | clear c =>
    simp only [SqliteState.next] at hstep
    split at hstep
    · obtain ⟨-, hstep⟩ := Option.ite_none_right_eq_some.mp hstep
      cases hstep
      exact .conns _
    · cases hstep
  | release c =>
    simp only [SqliteState.next] at hstep
    split at hstep
    · obtain ⟨-, hstep⟩ := Option.ite_none_right_eq_some.mp hstep
      cases hstep
      exact .conns _
    · cases hstep; exact .conns _
    · cases hstep
  | cancel nonce => cases hstep; exact .cancel nonce
  | store i =>
    obtain ⟨found, hi, rfl⟩ := Option.map_eq_some_iff.mp hstep
    exact .store hi

/-! ## The table -/

/-- The table leads from the nonces of the started queries to them, and unfinished queries
have nonces of their own. -/
structure Listed (s : SqliteState) : Prop where
  table : ∀ nonce q, s.handles.get? nonce = some q ↔
    ∃ query : Query, s.queries[q]? = some query ∧ query.nonce = nonce ∧ query.phase.isStarted = true
  apart : ∀ (q q' : Nat) (query query' : Query), s.queries[q]? = some query →
    s.queries[q']? = some query' → query.phase.isNumbered = true → query'.phase.isNumbered = true →
    query.nonce = query'.nonce → q = q'

theorem QueryPhase.isNumbered_of_isStarted {phase : QueryPhase} (h : phase.isStarted = true) :
    phase.isNumbered = true := by
  cases phase <;> first | rfl | cases h

/-- A query that takes a step keeps its nonce apart, where it has the nonce it had. -/
theorem Listed.apart_set (h : Listed s) (query' : Query)
    (hnonce : query'.phase.isNumbered = true → ∀ (j : Nat) (k : Query), j ≠ q →
      s.queries[j]? = some k → k.phase.isNumbered = true → k.nonce ≠ query'.nonce)
    {i j : Nat} {k k' : Query} (hi : (s.queries.set q query')[i]? = some k)
    (hj : (s.queries.set q query')[j]? = some k') (hk : k.phase.isNumbered = true)
    (hk' : k'.phase.isNumbered = true) (heq : k.nonce = k'.nonce) : i = j := by
  rcases getElem?_set_cases hi with ⟨rfl, rfl⟩ | ⟨hne, hold⟩
  · rcases getElem?_set_cases hj with ⟨rfl, rfl⟩ | ⟨hne, hold⟩
    · rfl
    · exact absurd heq.symm (hnonce hk j k' hne hold hk')
  · rcases getElem?_set_cases hj with ⟨rfl, rfl⟩ | ⟨-, hold'⟩
    · exact absurd heq (hnonce hk' i k hne hold hk)
    · exact h.apart i j k k' hold hold' hk hk' heq

/-- The nonce of an unfinished query is no other's. -/
theorem Listed.ne (h : Listed s) (hq : s.queries[q]? = some query)
    (hphase : query.phase.isNumbered = true) (j : Nat) (k : Query) (hne : j ≠ q)
    (hj : s.queries[j]? = some k) (hk : k.phase.isNumbered = true) : k.nonce ≠ query.nonce :=
  fun heq => hne (h.apart j q k query hj hq hk hphase heq)

/-- Where the table is not changed, a query that takes a step stays in it or out of it. -/
theorem Listed.table_set (h : Listed s) (hq : s.queries[q]? = some query)
    (hsame : (query'.phase.isStarted = true ∧ query.phase.isStarted = true ∧
      query'.nonce = query.nonce) ∨
      (query'.phase.isStarted = false ∧ query.phase.isStarted = false)) (nonce j : Nat) :
    s.handles.get? nonce = some j ↔ ∃ k : Query, (s.queries.set q query')[j]? = some k ∧
      k.nonce = nonce ∧ k.phase.isStarted = true := by
  rw [h.table]
  obtain ⟨hlt, -⟩ := List.getElem?_eq_some_iff.mp hq
  constructor
  · rintro ⟨k, hk, hnonce, hstarted⟩
    by_cases hj : j = q
    · subst hj
      rw [hq] at hk
      cases hk
      rcases hsame with ⟨hs, -, hn⟩ | ⟨-, hs⟩
      · exact ⟨query', by simp [hlt], hn.trans hnonce, hs⟩
      · rw [hstarted] at hs
        cases hs
    · exact ⟨k, by rw [List.getElem?_set_ne (Ne.symm hj)]; exact hk, hnonce, hstarted⟩
  · rintro ⟨k, hk, hnonce, hstarted⟩
    rcases getElem?_set_cases hk with ⟨rfl, rfl⟩ | ⟨-, hk⟩
    · rcases hsame with ⟨-, hs, hn⟩ | ⟨hs, -⟩
      · exact ⟨query, hq, hn.symm.trans hnonce, hs⟩
      · rw [hstarted] at hs
        cases hs
    · exact ⟨k, hk, hnonce, hstarted⟩

theorem Listed.number (h : Listed s) (hq : s.queries[q]? = some query)
    (hphase : query.phase = .installed)
    (hfresh : ∀ k ∈ s.queries, k.phase.isNumbered → k.nonce ≠ s.nextHandle) :
    Listed { s.setQuery q { query with nonce := s.nextHandle, phase := .numbered } with
      nextHandle := (s.nextHandle + 1) % 2 ^ 64 } := by
  refine ⟨h.table_set hq (.inr ⟨rfl, by rw [hphase]; rfl⟩), fun i j k k' hi hj => ?_⟩
  exact h.apart_set _ (fun _ j k _ hj => hfresh k (List.mem_of_getElem? hj)) hi hj

theorem Listed.insert (h : Listed s) (hq : s.queries[q]? = some query)
    (hphase : query.phase = .numbered) :
    Listed { s.setQuery q { query with phase := .live } with
      handles := s.handles.insert query.nonce q } := by
  have hnumbered : query.phase.isNumbered = true := by rw [hphase]; rfl
  refine ⟨fun nonce j => ?_, fun i j k k' hi hj => ?_⟩
  · show (s.handles.insert query.nonce q).get? nonce = some j ↔ ∃ k, (s.queries.set q _)[j]? = _ ∧ _
    obtain ⟨hlt, -⟩ := List.getElem?_eq_some_iff.mp hq
    rw [OrdMap.get?_insert]
    constructor
    · split
      · rename_i hnonce
        intro hj
        cases hj
        exact ⟨{ query with phase := .live }, by simp [hlt], hnonce, rfl⟩
      · rename_i hnonce
        intro hj
        obtain ⟨k, hk, hkn, hstarted⟩ := (h.table nonce j).mp hj
        refine ⟨k, ?_, hkn, hstarted⟩
        rw [List.getElem?_set_ne, hk]
        -- The query itself was not in the table.
        rintro rfl
        rw [hq] at hk
        cases hk
        exact hnonce hkn
    · rintro ⟨k, hk, hkn, hstarted⟩
      rcases getElem?_set_cases hk with ⟨rfl, rfl⟩ | ⟨hne, hk⟩
      · rw [if_pos hkn]
      · rw [if_neg, h.table]
        · exact ⟨k, hk, hkn, hstarted⟩
        · intro hnonce
          exact h.ne hq hnumbered j k hne hk (QueryPhase.isNumbered_of_isStarted hstarted)
            (hkn.trans hnonce.symm)
  · have hne := h.ne hq hnumbered
    exact h.apart_set { query with phase := .live } (fun _ => hne) hi hj

theorem Listed.deactivate (h : Listed s) (hq : s.queries[q]? = some query)
    (hphase : query.phase = .live) :
    Listed (s.setQuery q { query with
      cancel := { query.cancel with active := false }, phase := .ending }) := by
  have hne := h.ne hq (by rw [hphase]; rfl)
  refine ⟨h.table_set hq (.inl ⟨rfl, by rw [hphase]; rfl, rfl⟩), fun i j k k' hi hj => ?_⟩
  exact h.apart_set { query with
    cancel := { query.cancel with active := false }, phase := .ending } (fun _ => hne) hi hj

theorem Listed.remove (h : Listed s) (hq : s.queries[q]? = some query)
    (hphase : query.phase = .ending) :
    Listed { s.setQuery q { query with phase := .ended } with
      handles := s.handles.erase query.nonce } := by
  have hstarted : query.phase.isStarted = true := by rw [hphase]; rfl
  refine ⟨fun nonce j => ?_, fun i j k k' hi hj =>
    h.apart_set { query with phase := .ended } nofun hi hj⟩
  show (s.handles.erase query.nonce).get? nonce = some j ↔ ∃ k, (s.queries.set q _)[j]? = _ ∧ _
  rw [OrdMap.get?_erase]
  constructor
  · split
    · intro hj
      cases hj
    · rename_i hnonce
      intro hj
      obtain ⟨k, hk, hkn, hkstarted⟩ := (h.table nonce j).mp hj
      refine ⟨k, ?_, hkn, hkstarted⟩
      rw [List.getElem?_set_ne, hk]
      rintro rfl
      rw [hq] at hk
      cases hk
      exact hnonce hkn.symm
  · rintro ⟨k, hk, hkn, hkstarted⟩
    rcases getElem?_set_cases hk with ⟨rfl, rfl⟩ | ⟨hne, hk⟩
    · cases hkstarted
    · rw [if_neg, h.table]
      · exact ⟨k, hk, hkn, hkstarted⟩
      · intro hnonce
        exact h.ne hq (QueryPhase.isNumbered_of_isStarted hstarted) j k hne hk
          (QueryPhase.isNumbered_of_isStarted hkstarted) (hkn.trans hnonce)

theorem Listed.install (h : Listed s) (conns : Nat → Connection) (c : Nat) :
    Listed { s with conns, queries := s.queries ++ [{ conn := c }] } := by
  refine ⟨fun nonce j => ?_, fun i j k k' hi hj hk hk' heq => ?_⟩
  · show s.handles.get? nonce = some j ↔ ∃ k, (s.queries ++ [_])[j]? = _ ∧ _
    rw [h.table]
    constructor
    · rintro ⟨k, hk, hrest⟩
      exact ⟨k, getElem?_concat_of_some hk, hrest⟩
    · rintro ⟨k, hk, hrest⟩
      rcases getElem?_concat_cases hk with hk | ⟨-, rfl⟩
      · exact ⟨k, hk, hrest⟩
      · cases hrest.2
  · rcases getElem?_concat_cases hi with hi | ⟨-, rfl⟩
    · rcases getElem?_concat_cases hj with hj | ⟨-, rfl⟩
      · exact h.apart i j k k' hi hj hk hk' heq
      · cases hk'
    · cases hk

theorem Listed.store (h : Listed s) (q : Nat) :
    Listed { s with queries := s.queries.modify q Query.cancelled } := by
  have hsame : ∀ (j : Nat) (k : Query), (s.queries.modify q Query.cancelled)[j]? = some k →
      ∃ query, s.queries[j]? = some query ∧ k.nonce = query.nonce ∧ k.phase = query.phase := by
    intro j k hj
    obtain ⟨query, hq, rfl⟩ := getElem?_modify_cases hj
    refine ⟨query, hq, ?_⟩
    split
    · exact ⟨rfl, rfl⟩
    · exact ⟨rfl, rfl⟩
  refine ⟨fun nonce j => ?_, fun i j k k' hi hj hk hk' heq => ?_⟩
  · show s.handles.get? nonce = some j ↔ ∃ k, (s.queries.modify q Query.cancelled)[j]? = _ ∧ _
    rw [h.table]
    constructor
    · rintro ⟨k, hk, hkn, hstarted⟩
      refine ⟨if q = j then k.cancelled else k, by rw [List.getElem?_modify, hk]; rfl, ?_⟩
      split
      · exact ⟨hkn, hstarted⟩
      · exact ⟨hkn, hstarted⟩
    · rintro ⟨k, hk, hkn, hstarted⟩
      obtain ⟨query, hq, hn, hphase⟩ := hsame j k hk
      exact ⟨query, hq, hn.symm.trans hkn, hphase ▸ hstarted⟩
  · obtain ⟨query, hq, hn, hphase⟩ := hsame i k hi
    obtain ⟨query', hq', hn', hphase'⟩ := hsame j k' hj
    exact h.apart i j query query' hq hq' (hphase ▸ hk) (hphase' ▸ hk')
      (hn.symm.trans (heq.trans hn'))

theorem Listed.next (h : Listed s) (hok : FreshNonce s a) (hstep : SqliteStep s a s') : Listed s' := by
  cases hstep with
  | conns conns => exact ⟨h.table, h.apart⟩
  | install conns c => exact h.install conns c
  | number hq hphase => exact h.number hq hphase hok
  | insert hq hphase => exact h.insert hq hphase
  | deactivate hq hphase => exact h.deactivate hq hphase
  | remove hq hphase => exact h.remove hq hphase
  | cancel nonce => exact ⟨h.table, h.apart⟩
  | store hi =>
    have := h.store ‹_›
    exact ⟨this.table, this.apart⟩

/-! ## Cancels -/

/-- A cancel that found a query was called with its nonce, and a flag that is set was found. -/
structure Called (s : SqliteState) : Prop where
  cancelled : ∀ (q : Nat) (query : Query), s.queries[q]? = some query → query.cancel.cancelled = true →
    query.phase ≠ .installed ∧ query.nonce ∈ s.called
  pending : ∀ nonce q, (nonce, q) ∈ s.pending → nonce ∈ s.called ∧
    ∃ query : Query, s.queries[q]? = some query ∧ query.phase ≠ .installed ∧ query.nonce = nonce
  set : ∀ nonce q, (nonce, q) ∈ s.set →
    ∃ query : Query, s.queries[q]? = some query ∧ query.phase ≠ .installed ∧ query.nonce = nonce ∧
      query.cancel.cancelled = true

/-- A query that takes a step stays found, where it keeps its nonce once it has one. -/
theorem Called.setQuery (h : Called s) (hq : s.queries[q]? = some query)
    (hcancel : query'.cancel.cancelled = query.cancel.cancelled)
    (hphase : query'.phase ≠ .installed)
    (hnonce : query.phase ≠ .installed → query'.nonce = query.nonce) :
    Called (s.setQuery q query') := by
  obtain ⟨hlt, -⟩ := List.getElem?_eq_some_iff.mp hq
  have hget : ∀ (j : Nat) (k : Query), s.queries[j]? = some k → k.phase ≠ .installed →
      ∃ k' : Query, (s.queries.set q query')[j]? = some k' ∧ k'.phase ≠ .installed ∧
        k'.nonce = k.nonce ∧ k'.cancel.cancelled = k.cancel.cancelled := by
    intro j k hj hk
    by_cases hjq : j = q
    · subst hjq
      rw [hq] at hj
      cases hj
      exact ⟨query', by simp [hlt], hphase, hnonce hk, hcancel⟩
    · exact ⟨k, by rw [List.getElem?_set_ne (Ne.symm hjq)]; exact hj, hk, rfl, rfl⟩
  refine ⟨fun j k hj hk => ?_, fun nonce j hj => ?_, fun nonce j hj => ?_⟩
  · rcases getElem?_set_cases hj with ⟨rfl, rfl⟩ | ⟨-, hj⟩
    · obtain ⟨hinstalled, hmem⟩ := h.cancelled j query hq (hcancel.symm.trans hk)
      exact ⟨hphase, by rw [hnonce hinstalled]; exact hmem⟩
    · exact h.cancelled j k hj hk
  · obtain ⟨hmem, k, hk, hkphase, hkn⟩ := h.pending nonce j hj
    obtain ⟨k', hk', hk'phase, hn, -⟩ := hget j k hk hkphase
    exact ⟨hmem, k', hk', hk'phase, hn.trans hkn⟩
  · obtain ⟨k, hk, hkphase, hkn, hkc⟩ := h.set nonce j hj
    obtain ⟨k', hk', hk'phase, hn, hc⟩ := hget j k hk hkphase
    exact ⟨k', hk', hk'phase, hn.trans hkn, hc.trans hkc⟩

theorem Called.install (h : Called s) (conns : Nat → Connection) (c : Nat) :
    Called { s with conns, queries := s.queries ++ [{ conn := c }] } := by
  refine ⟨fun j k hj hk => ?_, fun nonce j hj => ?_, fun nonce j hj => ?_⟩
  · rcases getElem?_concat_cases hj with hj | ⟨-, rfl⟩
    · exact h.cancelled j k hj hk
    · cases hk
  · obtain ⟨hmem, k, hk, hrest⟩ := h.pending nonce j hj
    exact ⟨hmem, k, getElem?_concat_of_some hk, hrest⟩
  · obtain ⟨k, hk, hrest⟩ := h.set nonce j hj
    exact ⟨k, getElem?_concat_of_some hk, hrest⟩

theorem Called.cancel (h : Called s) (hlisted : Listed s) (nonce : Nat) :
    Called { s with
      called := nonce :: s.called
      pending := s.pending ++ (s.handles.get? nonce).toList.map fun q => (nonce, q) } := by
  refine ⟨fun j k hj hk => ?_, fun n j hj => ?_, h.set⟩
  · obtain ⟨hphase, hmem⟩ := h.cancelled j k hj hk
    exact ⟨hphase, List.mem_cons_of_mem _ hmem⟩
  · rcases List.mem_append.mp hj with hj | hj
    · obtain ⟨hmem, hrest⟩ := h.pending n j hj
      exact ⟨List.mem_cons_of_mem _ hmem, hrest⟩
    · obtain ⟨q, hq, heq⟩ := List.mem_map.mp hj
      cases heq
      obtain ⟨query, hq, hn, hstarted⟩ := (hlisted.table nonce j).mp (Option.mem_toList.mp hq)
      refine ⟨List.mem_cons_self, query, hq, ?_, hn⟩
      intro hphase
      rw [hphase] at hstarted
      cases hstarted

theorem Called.store (h : Called s) {i nonce : Nat} (hi : s.pending[i]? = some (nonce, q)) :
    Called { s with
      queries := s.queries.modify q Query.cancelled
      pending := s.pending.eraseIdx i
      set := (nonce, q) :: s.set } := by
  obtain ⟨hmem, query, hq, hphase, hn⟩ := h.pending nonce q (List.mem_of_getElem? hi)
  have hget : ∀ (j : Nat) (k : Query), s.queries[j]? = some k →
      ∃ k' : Query, (s.queries.modify q Query.cancelled)[j]? = some k' ∧ k'.phase = k.phase ∧
        k'.nonce = k.nonce ∧ k'.cancel.cancelled = (k.cancel.cancelled || q = j) := by
    intro j k hj
    refine ⟨if q = j then k.cancelled else k, by rw [List.getElem?_modify, hj]; rfl, ?_⟩
    by_cases hqj : q = j
    · simp [hqj, Query.cancelled]
    · simp [hqj]
  refine ⟨fun j k hj hk => ?_, fun n j hj => ?_, fun n j hj => ?_⟩
  · obtain ⟨k₀, hk₀, rfl⟩ := getElem?_modify_cases hj
    split
    · rename_i hjq
      subst hjq
      rw [hq] at hk₀
      cases hk₀
      exact ⟨hphase, by rw [show query.cancelled.nonce = query.nonce from rfl, hn]; exact hmem⟩
    · rename_i hjq
      rw [if_neg hjq] at hk
      exact h.cancelled j k₀ hk₀ hk
  · obtain ⟨hcalled, k, hk, hkphase, hkn⟩ := h.pending n j (List.mem_of_mem_eraseIdx hj)
    obtain ⟨k', hk', hp, hn', -⟩ := hget j k hk
    exact ⟨hcalled, k', hk', by rw [hp]; exact hkphase, hn'.trans hkn⟩
  · rcases List.mem_cons.mp hj with heq | hj
    · cases heq
      obtain ⟨k', hk', hp, hn', hc⟩ := hget q query hq
      exact ⟨k', hk', by rw [hp]; exact hphase, hn'.trans hn, by simp [hc]⟩
    · obtain ⟨k, hk, hkphase, hkn, hkc⟩ := h.set n j hj
      obtain ⟨k', hk', hp, hn', hc⟩ := hget j k hk
      exact ⟨k', hk', by rw [hp]; exact hkphase, hn'.trans hkn, by simp [hc, hkc]⟩

theorem Called.next (h : Called s) (hlisted : Listed s) (hstep : SqliteStep s a s') : Called s' := by
  cases hstep with
  | conns conns => exact ⟨h.cancelled, h.pending, h.set⟩
  | install conns c => exact h.install conns c
  | @number q query hq hphase =>
    have : Called (s.setQuery q { query with nonce := s.nextHandle, phase := .numbered }) :=
      h.setQuery hq rfl nofun fun hne => absurd hphase hne
    exact ⟨this.cancelled, this.pending, this.set⟩
  | @insert _ q query hq hphase =>
    have : Called (s.setQuery q { query with phase := .live }) := h.setQuery hq rfl nofun fun _ => rfl
    exact ⟨this.cancelled, this.pending, this.set⟩
  | deactivate hq hphase => exact h.setQuery hq rfl nofun fun _ => rfl
  | @remove _ q query hq hphase =>
    have : Called (s.setQuery q { query with phase := .ended }) := h.setQuery hq rfl nofun fun _ => rfl
    exact ⟨this.cancelled, this.pending, this.set⟩
  | cancel nonce => exact h.cancel hlisted nonce
  | store hi => exact h.store hi

/-! ## Runs -/

structure SqliteInv (s : SqliteState) : Prop where
  watched : Watched s
  listed : Listed s
  called : Called s

theorem sqliteInv_of_reach (h : sqliteCancel.Reach FreshNonce s) : SqliteInv s := by
  refine h.invariant (fun h₀ => ?_) fun hok hstep hI => ?_
  · cases h₀
    exact ⟨⟨nofun, nofun, nofun, nofun, nofun⟩, ⟨fun nonce q => ⟨nofun, nofun⟩, nofun⟩,
      ⟨nofun, nofun, nofun⟩⟩
  · have hstep' := sqliteStep_of_next hstep
    exact ⟨hI.watched.next hstep, hI.listed.next hok hstep', hI.called.next hI.listed hstep'⟩

/-- In every run in which the nonces of unfinished queries differ, cancels are exact. -/
theorem cancel_exact (h : sqliteCancel.Reach FreshNonce s) : CancelExact s := by
  obtain ⟨hwatched, hlisted, hcalled⟩ := sqliteInv_of_reach h
  refine ⟨fun c holder hstatement hstops => ?_, fun nonce q hset => ?_, fun nonce => ?_⟩
  · -- The handler reads an active query, which holds the connection.
    simp only [SqliteState.stopsAt, Option.any_eq_true, Option.bind_eq_some_iff, Cancel.stops,
      Bool.and_eq_true] at hstops
    obtain ⟨query, ⟨q, hhandler, hq⟩, hactive, hcancelled⟩ := hstops
    have hholder := (hwatched.pinned q query hq hactive).1
    rw [hwatched.placed c q query hhandler hq] at hholder
    exact ⟨q, query, hwatched.own c q holder hholder hstatement, hq,
      (hcalled.cancelled q query hq hcancelled).2⟩
  · obtain ⟨query, hq, -, hn, hcancelled⟩ := hcalled.set nonce q hset
    refine ⟨query, hq, hn, fun hlive => ?_⟩
    have hactive : query.cancel.active = true := by rw [hwatched.active q query hq, hlive]; rfl
    obtain ⟨-, hhandler⟩ := hwatched.pinned q query hq hactive
    exact ⟨hhandler, by simp [SqliteState.stopsAt, hhandler, hq, Cancel.stops, hactive, hcancelled]⟩
  · rw [Option.isSome_iff_exists]
    constructor
    · rintro ⟨q, hq⟩
      obtain ⟨query, hget, hrest⟩ := (hlisted.table nonce q).mp hq
      exact ⟨query, List.mem_of_getElem? hget, hrest⟩
    · rintro ⟨query, hmem, hrest⟩
      obtain ⟨q, hget⟩ := List.mem_iff_getElem?.mp hmem
      exact ⟨q, (hlisted.table nonce q).mpr ⟨query, hget, hrest⟩⟩

/-- A query that is cancelled before its statement starts. -/
def earlyCancel : List SqliteAction :=
  [.acquire 0, .install 0, .query 0 .number, .query 0 .insert, .cancel 1, .store 0, .query 0 .run]

theorem earlyCancel_exact :
    ∃ s, Machine.run SqliteState.next {} earlyCancel = some s ∧
      (s.conns 0).statement = some (.query 0) ∧ s.stopsAt 0 ∧ CancelExact s := by
  have hrun : sqliteCancel.Reach FreshNonce _ :=
    (Machine.Reach.init rfl).along (fun _ h => h) (by decide)
      (show Machine.run SqliteState.next {} earlyCancel = _ from rfl)
  exact ⟨_, rfl, rfl, by decide, cancel_exact hrun⟩

/-! ## Nonces wrap -/

/-- A query on the connection `1`, from its start to its end. -/
def oneQuery (q : Nat) : List SqliteAction :=
  [.acquire 1, .install 1, .query q .number, .query q .insert, .query q .deactivate,
    .query q .remove, .release 1]

/-- The first query is live, and the connection `1` is free for the next one. -/
structure Outlived (s : SqliteState) (nonce : Nat) : Prop where
  reach : sqliteCancel.Reach (fun _ _ => True) s
  next : s.nextHandle = nonce
  free : (s.conns 1).holder = none ∧ (s.conns 1).statement = none
  first : ∃ query : Query, s.queries[0]? = some query ∧ query.nonce = 1 ∧ query.phase = .live

/-- The next query takes the next nonce, and takes it out of the table. -/
theorem Outlived.oneQuery {nonce : Nat} (h : Outlived s nonce) :
    ∃ s', Outlived s' ((nonce + 1) % 2 ^ 64) ∧ s'.handles.get? nonce = none := by
  obtain ⟨hreach, rfl, ⟨hholder, hstatement⟩, query, hq, hnonce, hphase⟩ := h
  have hrun : Machine.run SqliteState.next s (Driver.oneQuery s.queries.length) = some { s with
      conns := Function.update s.conns 1 { handler := some s.queries.length }
      queries := s.queries ++ [{
        conn := 1, nonce := s.nextHandle, cancel := ⟨false, false⟩, phase := .ended }]
      handles := (s.handles.insert s.nextHandle s.queries.length).erase s.nextHandle
      nextHandle := (s.nextHandle + 1) % 2 ^ 64 } := by
    simp [Driver.oneQuery, Machine.run, SqliteState.next, SqliteState.nextQuery, SqliteState.setConn,
      SqliteState.setQuery, SqliteState.hasEnded, hholder, hstatement]
  refine ⟨_, ⟨hreach.run (fun _ h => h) (fun _ _ _ => trivial) hrun, rfl, by simp,
    query, getElem?_concat_of_some hq, hnonce, hphase⟩, ?_⟩
  simp

theorem outlived_of_count (n : Nat) : ∃ s, Outlived s ((2 + n) % 2 ^ 64) := by
  induction n with
  | zero =>
    have hrun : sqliteCancel.Reach (fun _ _ => True) _ :=
      (Machine.Reach.init rfl).run (fun _ h => h) (fun _ _ _ => trivial)
        (show Machine.run SqliteState.next {}
          [.acquire 0, .install 0, .query 0 .number, .query 0 .insert] = _ from rfl)
    exact ⟨_, hrun, rfl, ⟨rfl, rfl⟩, _, rfl, rfl, rfl⟩
  | succ n ih =>
    obtain ⟨s, hs⟩ := ih
    obtain ⟨s', hs', -⟩ := hs.oneQuery
    rw [Nat.mod_add_mod] at hs'
    exact ⟨s', hs'⟩

/-- A query that is still live when `2 ^ 64` others have started has lost its entry. -/
theorem wrapped_not_exact :
    ∃ s, sqliteCancel.Reach (fun _ _ => True) s ∧ s.handles.get? 1 = none ∧
      (∃ query : Query, s.queries[0]? = some query ∧ query.nonce = 1 ∧ query.phase = .live) ∧
      ¬CancelExact s := by
  obtain ⟨s, hs⟩ := outlived_of_count (2 ^ 64 - 1)
  obtain ⟨s', hs', hnone⟩ := hs.oneQuery
  have hone : (2 + (2 ^ 64 - 1)) % 2 ^ 64 = 1 := by decide
  rw [hone] at hnone
  refine ⟨s', hs'.reach, hnone, hs'.first, fun h => ?_⟩
  obtain ⟨query, hq, hn, hphase⟩ := hs'.first
  have hsome := (h.table 1).mpr ⟨query, List.mem_of_getElem? hq, hn, by rw [hphase]; rfl⟩
  rw [hnone] at hsome
  cases hsome

end McpgSql.Driver
