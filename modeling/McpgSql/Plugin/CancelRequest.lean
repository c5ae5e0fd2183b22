import McpgSql.Library.Places
import McpgSql.Plugin.InFlight

/-!
# Cancelling requests

`cancel_request` on PostgreSQL and MySQL. A call takes a connection from its pool, asks
it for its backend id, records that under the request id, and runs its statement there.
The id stays recorded until the guard of the call drops, which is after the connection
went back to the pool. `cancel_request` reads the id, finds the pool that the binding
was registered with, takes a connection from that pool for itself, and has the server
interrupt what runs under the id: the statement of a call, or that of a cancel.

`cancel_hits_own`: in every run in which each cancel acts while the connection of that id
was last taken by a call of the cancelled request, which has recorded it, what is
interrupted is a statement of that request on the server of its pool. Where another call
has taken the connection since, its statement is hit (`stale_cancel_hits_other`), and
where the cancel has, it hits itself (`cancel_hits_itself`).
-/

namespace McpgSql.Plugin

open Library

/-- Who uses a connection: a call, or a cancel. -/
inductive User where
  | call (i : Nat)
  | cancel (j : Nat)
deriving DecidableEq, Repr

/-- A connection of a server. Its backend id is no other open connection's there. -/
structure ServerConn where
  server : Nat
  id : BackendId
  isOpen : Bool := true
  held : Bool := false
  /-- Who took it last. -/
  user : Option User := none
  /-- That call has recorded its backend id. -/
  recorded : Bool := false
  /-- Whose statement the server runs. -/
  statement : Option User := none
deriving DecidableEq, Repr

def ServerConn.takenBy (conn : ServerConn) (u : User) : ServerConn :=
  { conn with held := true, user := some u, recorded := false }

structure PooledCall where
  requestId : String
  /-- The server that the pool of the call is connected to. -/
  server : Nat
  conn : Option Nat := none
  ended : Bool := false
deriving DecidableEq, Repr

/-- How far a `cancel_request` is. -/
inductive PendingCancel where
  /-- With the entry of the registry. -/
  | found (requestId backendName : String) (id : BackendId)
  /-- With the server of the registered pool. -/
  | aimed (requestId : String) (server : Nat) (id : BackendId)
  /-- With a connection of that pool. -/
  | connected (requestId : String) (server : Nat) (id : BackendId) (k : Nat)
  /-- Its statement was sent. -/
  | sent (k : Nat)
  | ended
deriving DecidableEq, Repr

/-- The connection that a cancel holds. -/
def PendingCancel.conn : PendingCancel → Option Nat
  | .connected _ _ _ k | .sent k => some k
  | .found .. | .aimed .. | .ended => none

/-- Whose statement the cancel of a request interrupted. -/
structure Interrupt where
  requestId : String
  server : Nat
  victim : User
deriving DecidableEq, Repr

structure CancelState where
  /-- The servers of the registered pools, by binding. -/
  profiles : OrdMap String Nat := .empty
  conns : List ServerConn := []
  calls : List PooledCall := []
  registry : InFlightRegistry := .empty
  cancels : List PendingCancel := []
  interrupts : List Interrupt := []

/-- Calls, connections and cancels are named by their places. -/
inductive CancelAction where
  | registerProfile (backendName : String) (server : Nat)
  | connect (server : Nat) (id : BackendId)
  | disconnect (k : Nat)
  /-- A call enters itself and picks its pool: the registered one or one of credentials. -/
  | execute (requestId backendName : String) (driver : DriverKind) (server : Nat)
  | acquire (i k : Nat)
  /-- The backend id of the connection is asked for and recorded. -/
  | record (i : Nat)
  | run (i : Nat)
  /-- The server is done with a statement. -/
  | done (k : Nat)
  /-- The connection goes back to its pool; the call goes on, and may take another. -/
  | release (i : Nat)
  /-- The guard of the call drops. -/
  | finish (i : Nat)
  | cancelRequest (requestId : String)
  | findProfile (j : Nat)
  /-- The cancel takes a connection of the registered pool. -/
  | connectCancel (j k : Nat)
  /-- `pg_cancel_backend` or `KILL QUERY`. -/
  | cancelBackend (j : Nat)
  /-- The connection of the cancel goes back to its pool. -/
  | endCancel (j : Nat)
deriving DecidableEq, Repr

namespace CancelState

variable (s : CancelState)

/-- The open connection of a backend id. -/
def connAt (server : Nat) (id : BackendId) : Option Nat :=
  s.conns.findIdx? fun conn => conn.isOpen && conn.server = server && conn.id = id

def setConn (k : Nat) (conn : ServerConn) : CancelState := { s with conns := s.conns.set k conn }

def setCall (i : Nat) (call : PooledCall) : CancelState := { s with calls := s.calls.set i call }

/-- The connection that a call or a cancel holds. -/
def connOf : User → Option Nat
  | .call i => (s.calls[i]?).bind PooledCall.conn
  | .cancel j => (s.cancels[j]?).bind PendingCancel.conn

/-- The call at `i` and the connection it has. -/
def holding (i : Nat) : Option (PooledCall × Nat × ServerConn) := do
  let call ← s.calls[i]?
  let k ← call.conn
  let conn ← s.conns[k]?
  pure (call, k, conn)

/-- The statement of a cancel runs on its connection. -/
def send (j k : Nat) (conn : ServerConn) : CancelState :=
  { s.setConn k { conn with statement := some (.cancel j) } with
    cancels := s.cancels.set j (.sent k) }

/-- The server interrupts what runs under the id. -/
def interrupt (requestId : String) (server : Nat) (id : BackendId) : CancelState :=
  match s.connAt server id with
  | none => s
  | some k => match s.conns[k]? with
    | none => s
    | some conn => match conn.statement with
      | none => s
      | some victim => { s.setConn k { conn with statement := none } with
          interrupts := s.interrupts ++ [⟨requestId, server, victim⟩] }

def next : CancelAction → Option CancelState
  | .registerProfile backendName server =>
    some { s with profiles := s.profiles.insert backendName server }
  | .connect server id =>
    if s.connAt server id = none then some { s with conns := s.conns ++ [{ server, id }] } else none
  | .disconnect k => (s.conns[k]?).bind fun conn =>
    if conn.held then none else some (s.setConn k { conn with isOpen := false, statement := none })
  | .execute requestId backendName driver server => some { s with
      registry := s.registry.insert requestId { backendName, driver }
      calls := s.calls ++ [{ requestId, server }] }
  | .acquire i k => do
    let call ← s.calls[i]?
    let conn ← s.conns[k]?
    if call.conn = none ∧ ¬call.ended ∧ conn.isOpen ∧ ¬conn.held ∧ conn.server = call.server then
      some ((s.setConn k (conn.takenBy (.call i))).setCall i
        { call with conn := some k })
    else none
  | .record i => do
    let (call, k, conn) ← s.holding i
    if conn.statement = none then
      some { s.setConn k { conn with recorded := true } with
        registry := s.registry.setBackendId call.requestId conn.id }
    else none
  | .run i => do
    let (_, k, conn) ← s.holding i
    if conn.recorded ∧ conn.statement = none then
      some (s.setConn k { conn with statement := some (.call i) })
    else none
  | .done k => (s.conns[k]?).map fun conn => s.setConn k { conn with statement := none }
  | .release i => do
    let (call, k, conn) ← s.holding i
    some ((s.setConn k { conn with held := false }).setCall i { call with conn := none })
  | .finish i => (s.calls[i]?).bind fun call =>
    if call.conn = none ∧ ¬call.ended then
      some { s.setCall i { call with ended := true } with registry := s.registry.erase call.requestId }
    else none
  | .cancelRequest requestId => match s.registry.get? requestId with
    | some { backendName, backendId := some id, .. } =>
      some { s with cancels := s.cancels ++ [.found requestId backendName id] }
    | _ => some s
  | .findProfile j => match s.cancels[j]? with
    | some (.found requestId backendName id) => match s.profiles.get? backendName with
      | some server => some { s with cancels := s.cancels.set j (.aimed requestId server id) }
      | none => some { s with cancels := s.cancels.set j .ended }
    | _ => none
  | .connectCancel j k => match s.cancels[j]? with
    | some (.aimed requestId server id) => (s.conns[k]?).bind fun conn =>
      if conn.isOpen ∧ ¬conn.held ∧ conn.server = server then
        some { s.setConn k (conn.takenBy (.cancel j)) with
          cancels := s.cancels.set j (.connected requestId server id k) }
      else none
    | _ => none
  | .cancelBackend j => match s.cancels[j]? with
    | some (.connected requestId server id k) => (s.conns[k]?).map fun conn =>
      (s.send j k conn).interrupt requestId server id
    | _ => none
  | .endCancel j => match s.cancels[j]? with
    | some (.sent k) => (s.conns[k]?).map fun conn =>
      { s.setConn k { conn with held := false } with cancels := s.cancels.set j .ended }
    | _ => none

end CancelState

/-- Calls over pooled connections and cancels, from the plugin's creation on. -/
def cancelRequests : Machine CancelState CancelAction where
  init s := s = {}
  step s a s' := s.next a = some s'

/-- What a cancel interrupts is a statement of its request, on the server of its pool. -/
def HitsOwn (s : CancelState) : Prop :=
  ∀ hit ∈ s.interrupts, ∃ i call, hit.victim = .call i ∧ s.calls[i]? = some call ∧
    call.requestId = hit.requestId ∧ call.server = hit.server

/-- The last call that took the connection, and recorded its id, is one of the request. -/
def CancelState.usedBy (s : CancelState) (k : Nat) (requestId : String) : Bool :=
  (s.conns[k]?).any fun conn => conn.recorded &&
    match conn.user with
    | some (.call i) => (s.calls[i]?).any fun call => call.requestId = requestId
    | _ => false

/-- The request that a cancel is of, and the connection that it acts on. -/
def CancelState.aim (s : CancelState) (j : Nat) : Option (String × Nat) :=
  match s.cancels[j]? with
  | some (.connected requestId server id _) => (s.connAt server id).map fun k => (requestId, k)
  | _ => none

/-- A cancel acts on a connection that neither a call of another request nor a cancel has
taken since. -/
def NotTaken (s : CancelState) : CancelAction → Prop
  | .cancelBackend j => ∀ aim ∈ s.aim j, s.usedBy aim.2 aim.1 = true
  | _ => True

instance (s : CancelState) : (a : CancelAction) → Decidable (NotTaken s a)
  | .cancelBackend j => inferInstanceAs (Decidable (∀ aim ∈ s.aim j, s.usedBy aim.2 aim.1 = true))
  | .registerProfile .. | .connect .. | .disconnect _ | .execute .. | .acquire .. | .record _ | .run _
  | .done _ | .release _ | .finish _ | .cancelRequest _ | .findProfile _ | .connectCancel ..
  | .endCancel _ => isTrue trivial

/-! ## Connections and who uses them -/

variable {s s' : CancelState} {a : CancelAction} {i j k : Nat} {call call' : PooledCall}
  {conn conn' : ServerConn} {u : User}

theorem holding_eq_some : s.holding i = some (call, k, conn) ↔
    s.calls[i]? = some call ∧ call.conn = some k ∧ s.conns[k]? = some conn := by
  unfold CancelState.holding
  constructor
  · intro h
    obtain ⟨call₁, hcall, h⟩ := Option.bind_eq_some_iff.mp h
    obtain ⟨k₁, hk, h⟩ := Option.bind_eq_some_iff.mp h
    obtain ⟨conn₁, hconn, h⟩ := Option.bind_eq_some_iff.mp h
    cases h
    exact ⟨hcall, hk, hconn⟩
  · rintro ⟨hcall, hk, hconn⟩
    simp [hcall, hk, hconn]

/-- Who holds a connection after a call changed. -/
theorem connOf_set_calls (h : s'.connOf u = some k) (hcalls : s'.calls = s.calls.set i call')
    (hcancels : s'.cancels = s.cancels) :
    (u = .call i ∧ call'.conn = some k) ∨ (u ≠ .call i ∧ s.connOf u = some k) := by
  cases u with
  | call i' =>
    obtain ⟨c, hc, hk⟩ := Option.bind_eq_some_iff.mp h
    rw [hcalls] at hc
    rcases getElem?_set_cases hc with ⟨rfl, rfl⟩ | ⟨hne, hc⟩
    · exact .inl ⟨rfl, hk⟩
    · exact .inr ⟨by simpa using hne, Option.bind_eq_some_iff.mpr ⟨c, hc, hk⟩⟩
  | cancel j =>
    rw [CancelState.connOf, hcancels] at h
    exact .inr ⟨by simp, h⟩

/-- Who holds a connection after a cancel went on. -/
theorem connOf_set_cancels {c' : PendingCancel} (h : s'.connOf u = some k)
    (hcalls : s'.calls = s.calls) (hcancels : s'.cancels = s.cancels.set j c') :
    (u = .cancel j ∧ c'.conn = some k) ∨ (u ≠ .cancel j ∧ s.connOf u = some k) := by
  cases u with
  | call i =>
    rw [CancelState.connOf, hcalls] at h
    exact .inr ⟨by simp, h⟩
  | cancel j' =>
    obtain ⟨c, hc, hk⟩ := Option.bind_eq_some_iff.mp h
    rw [hcancels] at hc
    rcases getElem?_set_cases hc with ⟨rfl, rfl⟩ | ⟨hne, hc⟩
    · exact .inl ⟨rfl, hk⟩
    · exact .inr ⟨by simpa using hne, Option.bind_eq_some_iff.mpr ⟨c, hc, hk⟩⟩

theorem connOf_same (hcalls : s'.calls = s.calls) (hcancels : s'.cancels = s.cancels) :
    s'.connOf u = s.connOf u := by
  cases u <;> simp only [CancelState.connOf, hcalls, hcancels]

/-- Calls keep their request id and their server. -/
def Continues (s s' : CancelState) : Prop :=
  ∀ (i : Nat) (call : PooledCall), s.calls[i]? = some call →
    ∃ call' : PooledCall, s'.calls[i]? = some call' ∧ call'.requestId = call.requestId ∧
      call'.server = call.server

theorem Continues.refl (h : s'.calls = s.calls) : Continues s s' :=
  fun _ call hi => ⟨call, by rw [h]; exact hi, rfl, rfl⟩

theorem continues_setCall (hi : s.calls[i]? = some call) (hcalls : s'.calls = s.calls.set i call')
    (hid : call'.requestId = call.requestId) (hserver : call'.server = call.server) :
    Continues s s' := by
  obtain ⟨hlt, -⟩ := List.getElem?_eq_some_iff.mp hi
  intro j d hj
  rw [hcalls]
  by_cases hji : j = i
  · subst hji
    rw [hi] at hj
    cases hj
    exact ⟨call', by simp [hlt], hid, hserver⟩
  · exact ⟨d, by rw [List.getElem?_set_ne (Ne.symm hji)]; exact hj, rfl, rfl⟩

/-- Who holds a connection took it last; where a call has recorded the id no other statement
runs; and the last call that took a connection is on its server. -/
structure Pinned (s : CancelState) : Prop where
  holds : ∀ (u : User) (k : Nat), s.connOf u = some k →
    ∃ conn : ServerConn, s.conns[k]? = some conn ∧ conn.user = some u ∧ conn.held = true
  own : ∀ (k : Nat) (conn : ServerConn), s.conns[k]? = some conn → conn.recorded = true →
    ∀ u, conn.statement = some u → conn.user = some u
  pool : ∀ (k : Nat) (conn : ServerConn) (i : Nat), s.conns[k]? = some conn →
    conn.user = some (.call i) →
    ∃ call : PooledCall, s.calls[i]? = some call ∧ call.server = conn.server

/-- A step that leaves the connections alone. -/
theorem Pinned.keep (h : Pinned s) (hconns : s'.conns = s.conns) (hcalls : Continues s s')
    (hof : ∀ u k, s'.connOf u = some k → s.connOf u = some k) : Pinned s' := by
  refine ⟨fun u k hu => ?_, fun k c hc => ?_, fun k c i hc hi => ?_⟩
  · rw [hconns]
    exact h.holds u k (hof u k hu)
  · rw [hconns] at hc
    exact h.own k c hc
  · rw [hconns] at hc
    obtain ⟨call, hcall, hserver⟩ := h.pool k c i hc hi
    obtain ⟨call', hcall', -, hsame⟩ := hcalls i call hcall
    exact ⟨call', hcall', hsame.trans hserver⟩

/-- A step that changes one connection. -/
theorem Pinned.set (h : Pinned s) (hk : s.conns[k]? = some conn)
    (hconns : s'.conns = s.conns.set k conn') (hcalls : Continues s s')
    (hof : ∀ u k', s'.connOf u = some k' →
      (k' = k ∧ conn'.user = some u ∧ conn'.held = true) ∨ (k' ≠ k ∧ s.connOf u = some k'))
    (hown : conn'.recorded = true → ∀ u, conn'.statement = some u → conn'.user = some u)
    (hpool : ∀ i, conn'.user = some (.call i) →
      ∃ call : PooledCall, s.calls[i]? = some call ∧ call.server = conn'.server) : Pinned s' := by
  obtain ⟨hlt, -⟩ := List.getElem?_eq_some_iff.mp hk
  refine ⟨fun u k' hu => ?_, fun k' c hc => ?_, fun k' c i hc hi => ?_⟩
  · rw [hconns]
    rcases hof u k' hu with ⟨rfl, huser, hheld⟩ | ⟨hne, hu⟩
    · exact ⟨conn', by simp [hlt], huser, hheld⟩
    · obtain ⟨c, hc, hrest⟩ := h.holds u k' hu
      exact ⟨c, by rw [List.getElem?_set_ne (Ne.symm hne)]; exact hc, hrest⟩
  · rw [hconns] at hc
    rcases getElem?_set_cases hc with ⟨rfl, rfl⟩ | ⟨-, hc⟩
    · exact hown
    · exact h.own k' c hc
  · rw [hconns] at hc
    obtain ⟨call, hcall, hserver⟩ : ∃ call : PooledCall, s.calls[i]? = some call ∧
        call.server = c.server := by
      rcases getElem?_set_cases hc with ⟨rfl, rfl⟩ | ⟨-, hc⟩
      · exact hpool i hi
      · exact h.pool k' c i hc hi
    obtain ⟨call', hcall', -, hsame⟩ := hcalls i call hcall
    exact ⟨call', hcall', hsame.trans hserver⟩

/-- A connection changes that keeps who took it, and whether it is held. -/
theorem Pinned.setConn (h : Pinned s) (hk : s.conns[k]? = some conn)
    (hconns : s'.conns = s.conns.set k conn') (hcalls : Continues s s')
    (hof : ∀ u k', s'.connOf u = some k' → s.connOf u = some k') (huser : conn'.user = conn.user)
    (hserver : conn'.server = conn.server) (hheld : conn.held = true → conn'.held = true)
    (hown : conn'.recorded = true → ∀ u, conn'.statement = some u → conn'.user = some u) :
    Pinned s' := by
  refine h.set hk hconns hcalls (fun u k' hu => ?_) hown fun i hi => ?_
  · have hu := hof u k' hu
    by_cases hkk : k' = k
    · subst hkk
      obtain ⟨c, hc, hcuser, hcheld⟩ := h.holds u k' hu
      rw [hk] at hc
      cases hc
      exact .inl ⟨rfl, huser.trans hcuser, hheld hcheld⟩
    · exact .inr ⟨hkk, hu⟩
  · obtain ⟨call, hcall, hsame⟩ := h.pool k conn i hk (huser.symm.trans hi)
    exact ⟨call, hcall, hsame.trans hserver.symm⟩

/-- A connection that nobody holds is taken. -/
theorem Pinned.take (h : Pinned s) (hk : s.conns[k]? = some conn) (hfree : conn.held = false)
    (hconns : s'.conns = s.conns.set k (conn.takenBy u)) (hcalls : Continues s s')
    (hof : ∀ u' k', s'.connOf u' = some k' → (u' = u ∧ k' = k) ∨ s.connOf u' = some k')
    (hpool : ∀ i, u = .call i →
      ∃ call : PooledCall, s.calls[i]? = some call ∧ call.server = conn.server) : Pinned s' := by
  refine h.set hk hconns hcalls (fun u' k' hu' => ?_) (by intro hrec; cases hrec) fun i hi => ?_
  · rcases hof u' k' hu' with ⟨rfl, rfl⟩ | hu'
    · exact .inl ⟨rfl, rfl, rfl⟩
    · refine .inr ⟨?_, hu'⟩
      rintro rfl
      obtain ⟨c, hc, -, hheld⟩ := h.holds u' k' hu'
      rw [hk] at hc
      cases hc
      rw [hfree] at hheld
      cases hheld
  · exact hpool i (Option.some.inj hi)

/-- Who holds a connection gives it back. -/
theorem Pinned.give (h : Pinned s) (hk : s.conns[k]? = some conn) (hu : s.connOf u = some k)
    (hconns : s'.conns = s.conns.set k { conn with held := false }) (hcalls : Continues s s')
    (hof : ∀ u' k', s'.connOf u' = some k' → u' ≠ u ∧ s.connOf u' = some k') : Pinned s' := by
  obtain ⟨c, hc, huser, -⟩ := h.holds u k hu
  rw [hk] at hc
  cases hc
  refine h.set hk hconns hcalls (fun u' k' hu' => ?_) (h.own k conn hk) (h.pool k conn · hk)
  obtain ⟨hne, hu'⟩ := hof u' k' hu'
  refine .inr ⟨?_, hu'⟩
  -- The connection is the last user's, and that has given it up.
  rintro rfl
  obtain ⟨c, hc, huser', -⟩ := h.holds u' k' hu'
  rw [hk] at hc
  cases hc
  rw [huser] at huser'
  exact hne (Option.some.inj huser').symm

theorem Pinned.connect (h : Pinned s) (server : Nat) (id : BackendId) :
    Pinned { s with conns := s.conns ++ [{ server, id }] } := by
  refine ⟨fun u k hu => ?_, fun k c hc hrec => ?_, fun k c i hc hi => ?_⟩
  · obtain ⟨c, hc, hrest⟩ := h.holds u k ((connOf_same rfl rfl).symm.trans hu)
    exact ⟨c, getElem?_concat_of_some hc, hrest⟩
  · rcases getElem?_concat_cases hc with hc | ⟨-, rfl⟩
    · exact h.own k c hc hrec
    · cases hrec
  · rcases getElem?_concat_cases hc with hc | ⟨-, rfl⟩
    · exact h.pool k c i hc hi
    · cases hi

/-- A call or a cancel that joins has no connection. -/
theorem connOf_concat {c : PendingCancel} (h : s'.connOf u = some k) (hcall : call.conn = none)
    (hc : c.conn = none) (hcalls : s'.calls = s.calls ∨ s'.calls = s.calls ++ [call])
    (hcancels : s'.cancels = s.cancels ∨ s'.cancels = s.cancels ++ [c]) : s.connOf u = some k := by
  cases u with
  | call i =>
    obtain ⟨d, hd, hk⟩ := Option.bind_eq_some_iff.mp h
    rcases hcalls with hcalls | hcalls
    · rw [hcalls] at hd
      exact Option.bind_eq_some_iff.mpr ⟨d, hd, hk⟩
    · rw [hcalls] at hd
      rcases getElem?_concat_cases hd with hd | ⟨-, rfl⟩
      · exact Option.bind_eq_some_iff.mpr ⟨d, hd, hk⟩
      · rw [hcall] at hk
        cases hk
  | cancel j =>
    obtain ⟨d, hd, hk⟩ := Option.bind_eq_some_iff.mp h
    rcases hcancels with hcancels | hcancels
    · rw [hcancels] at hd
      exact Option.bind_eq_some_iff.mpr ⟨d, hd, hk⟩
    · rw [hcancels] at hd
      rcases getElem?_concat_cases hd with hd | ⟨-, rfl⟩
      · exact Option.bind_eq_some_iff.mpr ⟨d, hd, hk⟩
      · rw [hc] at hk
        cases hk

/-- What a server interrupts under an id: what runs on the open connection that has it. -/
theorem interrupt_cases (s : CancelState) (requestId : String) (server : Nat) (id : BackendId) :
    s.interrupt requestId server id = s ∨ ∃ k conn victim, s.connAt server id = some k ∧
      s.conns[k]? = some conn ∧ conn.statement = some victim ∧
      s.interrupt requestId server id = { s.setConn k { conn with statement := none } with
        interrupts := s.interrupts ++ [⟨requestId, server, victim⟩] } := by
  cases hk : s.connAt server id with
  | none => exact .inl (by simp [CancelState.interrupt, hk])
  | some k =>
    cases hconn : s.conns[k]? with
    | none => exact .inl (by simp [CancelState.interrupt, hk, hconn])
    | some conn =>
      cases hstatement : conn.statement with
      | none => exact .inl (by simp [CancelState.interrupt, hk, hconn, hstatement])
      | some victim =>
        refine .inr ⟨k, conn, victim, rfl, hconn, hstatement, ?_⟩
        simp [CancelState.interrupt, hk, hconn, hstatement]

theorem Pinned.interrupt (h : Pinned s) (requestId : String) (server : Nat) (id : BackendId) :
    Pinned (s.interrupt requestId server id) := by
  rcases interrupt_cases s requestId server id with heq | ⟨k, conn, victim, -, hconn, -, heq⟩
  · rw [heq]
    exact h
  · rw [heq]
    exact h.setConn hconn rfl (.refl rfl) (fun u k hu => (connOf_same rfl rfl).symm.trans hu) rfl rfl
      (by intro hheld; exact hheld) (by intro _ u hu; cases hu)

theorem Pinned.next (h : Pinned s) (hstep : s.next a = some s') : Pinned s' := by
  have hkeep : ∀ {s' : CancelState}, s'.calls = s.calls → s'.cancels = s.cancels →
      ∀ u k, s'.connOf u = some k → s.connOf u = some k := by
    intro s' hcalls hcancels u k hu
    rwa [connOf_same hcalls hcancels] at hu
  cases a with
  | registerProfile backendName server =>
    cases hstep
    exact h.keep rfl (.refl rfl) (hkeep rfl rfl)
  | connect server id =>
    obtain ⟨-, hstep⟩ := Option.ite_none_right_eq_some.mp hstep
    cases hstep
    exact h.connect server id
  | disconnect k =>
    obtain ⟨conn, hk, hstep⟩ := Option.bind_eq_some_iff.mp hstep
    obtain ⟨-, hstep⟩ := Option.ite_none_left_eq_some.mp hstep
    cases hstep
    exact h.setConn hk rfl (.refl rfl) (hkeep rfl rfl) rfl rfl id (by intro _ u hu; cases hu)
  | execute requestId backendName driver server =>
    cases hstep
    refine h.keep rfl (fun i call hi => ⟨call, getElem?_concat_of_some hi, rfl, rfl⟩) fun u k hu => ?_
    exact connOf_concat (c := .ended) hu rfl rfl (.inr rfl) (.inl rfl)
  | acquire i k =>
    obtain ⟨call, hi, hstep⟩ := Option.bind_eq_some_iff.mp hstep
    obtain ⟨conn, hk, hstep⟩ := Option.bind_eq_some_iff.mp hstep
    obtain ⟨⟨-, -, -, hfree, hserver⟩, hstep⟩ := Option.ite_none_right_eq_some.mp hstep
    cases hstep
    refine h.take hk (by simpa using hfree) rfl (continues_setCall hi rfl rfl rfl) (fun u k' hu => ?_)
      fun i' hi' => ?_
    · rcases connOf_set_calls (s := s) hu rfl rfl with ⟨rfl, hk'⟩ | ⟨-, hu⟩
      · exact .inl ⟨rfl, (Option.some.inj hk').symm⟩
      · exact .inr hu
    · cases hi'
      exact ⟨call, hi, hserver.symm⟩
  | record i =>
    obtain ⟨⟨call, k, conn⟩, hholding, hstep⟩ := Option.bind_eq_some_iff.mp hstep
    obtain ⟨hidle, hstep⟩ := Option.ite_none_right_eq_some.mp hstep
    obtain ⟨-, -, hk⟩ := holding_eq_some.mp hholding
    cases hstep
    refine h.setConn hk rfl (.refl rfl) (hkeep rfl rfl) rfl rfl id fun _ u hu => ?_
    rw [hidle] at hu
    cases hu
  | run i =>
    obtain ⟨⟨call, k, conn⟩, hholding, hstep⟩ := Option.bind_eq_some_iff.mp hstep
    obtain ⟨-, hstep⟩ := Option.ite_none_right_eq_some.mp hstep
    obtain ⟨hi, hcall, hk⟩ := holding_eq_some.mp hholding
    obtain ⟨d, hd, hduser, -⟩ := h.holds (.call i) k (Option.bind_eq_some_iff.mpr ⟨call, hi, hcall⟩)
    rw [hk] at hd
    cases hd
    cases hstep
    refine h.setConn hk rfl (.refl rfl) (hkeep rfl rfl) rfl rfl id fun _ u hu => ?_
    cases hu
    exact hduser
  | done k =>
    obtain ⟨conn, hk, rfl⟩ := Option.map_eq_some_iff.mp hstep
    exact h.setConn hk rfl (.refl rfl) (hkeep rfl rfl) rfl rfl id (by intro _ u hu; cases hu)
  | release i =>
    obtain ⟨⟨call, k, conn⟩, hholding, hstep⟩ := Option.bind_eq_some_iff.mp hstep
    obtain ⟨hi, hcall, hk⟩ := holding_eq_some.mp hholding
    cases hstep
    refine h.give hk (u := .call i) (Option.bind_eq_some_iff.mpr ⟨call, hi, hcall⟩) rfl
      (continues_setCall hi rfl rfl rfl) fun u k' hu => ?_
    exact (connOf_set_calls (s := s) hu rfl rfl).resolve_left (by rintro ⟨-, hk'⟩; cases hk')
  | finish i =>
    obtain ⟨call, hi, hstep⟩ := Option.bind_eq_some_iff.mp hstep
    obtain ⟨⟨hconn, -⟩, hstep⟩ := Option.ite_none_right_eq_some.mp hstep
    cases hstep
    refine h.keep rfl (continues_setCall hi rfl rfl rfl) fun u k hu => ?_
    rcases connOf_set_calls (s := s) hu rfl rfl with ⟨-, hk⟩ | ⟨-, hu⟩
    · cases hconn.symm.trans hk
    · exact hu
  | cancelRequest requestId =>
    simp only [CancelState.next] at hstep
    split at hstep
    · cases hstep
      refine h.keep rfl (.refl rfl) fun u k hu => ?_
      exact connOf_concat (c := .found _ _ _) hu
        (rfl : (PooledCall.mk requestId 0 none false).conn = none) rfl (.inl rfl) (.inr rfl)
    · cases hstep
      exact h
  | findProfile j =>
    simp only [CancelState.next] at hstep
    split at hstep
    · split at hstep
      · cases hstep
        refine h.keep rfl (.refl rfl) fun u k hu => ?_
        exact ((connOf_set_cancels (s := s) hu rfl rfl).resolve_left
          (by rintro ⟨-, hk⟩; cases hk)).2
      · cases hstep
        refine h.keep rfl (.refl rfl) fun u k hu => ?_
        exact ((connOf_set_cancels (s := s) hu rfl rfl).resolve_left
          (by rintro ⟨-, hk⟩; cases hk)).2
    · cases hstep
  | connectCancel j k =>
    simp only [CancelState.next] at hstep
    split at hstep
    · obtain ⟨conn, hk, hstep⟩ := Option.bind_eq_some_iff.mp hstep
      obtain ⟨⟨-, hfree, -⟩, hstep⟩ := Option.ite_none_right_eq_some.mp hstep
      cases hstep
      refine h.take hk (by simpa using hfree) rfl (.refl rfl) (fun u k' hu => ?_)
        (by intro i hi; cases hi)
      rcases connOf_set_cancels (s := s) hu rfl rfl with ⟨rfl, hk'⟩ | ⟨-, hu⟩
      · exact .inl ⟨rfl, (Option.some.inj hk').symm⟩
      · exact .inr hu
    · cases hstep
  | cancelBackend j =>
    simp only [CancelState.next] at hstep
    split at hstep
    · rename_i requestId server id k hj
      obtain ⟨conn, hk, rfl⟩ := Option.map_eq_some_iff.mp hstep
      have hu : s.connOf (.cancel j) = some k := Option.bind_eq_some_iff.mpr ⟨_, hj, rfl⟩
      obtain ⟨d, hd, hduser, -⟩ := h.holds _ k hu
      rw [hk] at hd
      cases hd
      have hsend : Pinned (s.send j k conn) := by
        refine h.setConn hk rfl (.refl rfl) (fun u k' hu' => ?_) rfl rfl
          (by intro hheld; exact hheld) fun _ u hu => ?_
        · rcases connOf_set_cancels (s := s) hu' rfl rfl with ⟨rfl, hk'⟩ | ⟨-, hu'⟩
          · rwa [← hk']
          · exact hu'
        · cases hu
          exact hduser
      exact hsend.interrupt _ _ _
    · cases hstep
  | endCancel j =>
    simp only [CancelState.next] at hstep
    split at hstep
    · rename_i k hj
      obtain ⟨conn, hk, rfl⟩ := Option.map_eq_some_iff.mp hstep
      refine h.give hk (u := .cancel j) (Option.bind_eq_some_iff.mpr ⟨_, hj, rfl⟩) rfl (.refl rfl)
        fun u k' hu => ?_
      exact (connOf_set_cancels (s := s) hu rfl rfl).resolve_left (by rintro ⟨-, hk'⟩; cases hk')
    · cases hstep

/-! ## Interrupts -/

/-- A connection keeps its place under its id while its statement changes. -/
theorem connAt_set {statement : Option User} (hk : s.conns[k]? = some conn)
    (hconns : s'.conns = s.conns.set k { conn with statement }) (server : Nat) (id : BackendId) :
    s'.connAt server id = s.connAt server id := by
  have hmatch : ∀ (p : ServerConn → Bool), p { conn with statement } = p conn →
      (s.conns.set k { conn with statement }).map p = s.conns.map p := by
    intro p hp
    rw [List.map_set, hp]
    refine List.ext_getElem? fun n => ?_
    rw [List.getElem?_set]
    split
    · rename_i hn
      subst hn
      split <;> simp_all
    · rfl
  have hfind : ∀ (p : ServerConn → Bool) (l : List ServerConn),
      l.findIdx? p = (l.map p).findIdx? fun b => b := by
    intro p l
    rw [List.findIdx?_map]
    rfl
  rw [CancelState.connAt, CancelState.connAt, hconns, hfind, hfind _ s.conns]
  exact congrArg _ (hmatch _ rfl)

/-- What a cancel interrupts: the statement on the connection of the id, which is its own
statement where it has taken that connection itself. -/
inductive Interrupts (s : CancelState) : CancelAction → CancelState → Prop
  | none {a : CancelAction} {s' : CancelState} (hsame : s'.interrupts = s.interrupts)
      (hcalls : Continues s s') : Interrupts s a s'
  | hit {j k k' : Nat} {requestId : String} {server : Nat} {id : BackendId} {conn : ServerConn}
      {victim : User} {s' : CancelState}
      (hj : s.cancels[j]? = some (.connected requestId server id k'))
      (hk : s.connAt server id = some k) (hconn : s.conns[k]? = some conn)
      (hvictim : victim = .cancel j ∧ k = k' ∨ conn.statement = some victim)
      (hcalls : s'.calls = s.calls)
      (hinterrupts : s'.interrupts = s.interrupts ++ [⟨requestId, server, victim⟩]) :
      Interrupts s (.cancelBackend j) s'

theorem interrupts_of_next (hstep : s.next a = some s') : Interrupts s a s' := by
  cases a with
  | registerProfile backendName server => cases hstep; exact .none rfl (.refl rfl)
  | connect server id =>
    obtain ⟨-, hstep⟩ := Option.ite_none_right_eq_some.mp hstep
    cases hstep
    exact .none rfl (.refl rfl)
  | disconnect k =>
    obtain ⟨conn, -, hstep⟩ := Option.bind_eq_some_iff.mp hstep
    obtain ⟨-, hstep⟩ := Option.ite_none_left_eq_some.mp hstep
    cases hstep
    exact .none rfl (.refl rfl)
  | execute requestId backendName driver server =>
    cases hstep
    exact .none rfl fun i call hi => ⟨call, getElem?_concat_of_some hi, rfl, rfl⟩
  | acquire i k =>
    obtain ⟨call, hi, hstep⟩ := Option.bind_eq_some_iff.mp hstep
    obtain ⟨conn, -, hstep⟩ := Option.bind_eq_some_iff.mp hstep
    obtain ⟨-, hstep⟩ := Option.ite_none_right_eq_some.mp hstep
    cases hstep
    exact .none rfl (continues_setCall hi rfl rfl rfl)
  | record i =>
    obtain ⟨⟨call, k, conn⟩, -, hstep⟩ := Option.bind_eq_some_iff.mp hstep
    obtain ⟨-, hstep⟩ := Option.ite_none_right_eq_some.mp hstep
    cases hstep
    exact .none rfl (.refl rfl)
  | run i =>
    obtain ⟨⟨call, k, conn⟩, -, hstep⟩ := Option.bind_eq_some_iff.mp hstep
    obtain ⟨-, hstep⟩ := Option.ite_none_right_eq_some.mp hstep
    cases hstep
    exact .none rfl (.refl rfl)
  | done k =>
    obtain ⟨conn, -, rfl⟩ := Option.map_eq_some_iff.mp hstep
    exact .none rfl (.refl rfl)
  | release i =>
    obtain ⟨⟨call, k, conn⟩, hholding, hstep⟩ := Option.bind_eq_some_iff.mp hstep
    obtain ⟨hi, -, -⟩ := holding_eq_some.mp hholding
    cases hstep
    exact .none rfl (continues_setCall hi rfl rfl rfl)
  | finish i =>
    obtain ⟨call, hi, hstep⟩ := Option.bind_eq_some_iff.mp hstep
    obtain ⟨-, hstep⟩ := Option.ite_none_right_eq_some.mp hstep
    cases hstep
    exact .none rfl (continues_setCall hi rfl rfl rfl)
  | cancelRequest requestId =>
    simp only [CancelState.next] at hstep
    split at hstep
    · cases hstep; exact .none rfl (.refl rfl)
    · cases hstep; exact .none rfl (.refl rfl)
  | findProfile j =>
    simp only [CancelState.next] at hstep
    split at hstep
    · split at hstep
      · cases hstep; exact .none rfl (.refl rfl)
      · cases hstep; exact .none rfl (.refl rfl)
    · cases hstep
  | connectCancel j k =>
    simp only [CancelState.next] at hstep
    split at hstep
    · obtain ⟨conn, -, hstep⟩ := Option.bind_eq_some_iff.mp hstep
      obtain ⟨-, hstep⟩ := Option.ite_none_right_eq_some.mp hstep
      cases hstep
      exact .none rfl (.refl rfl)
    · cases hstep
  | cancelBackend j =>
    simp only [CancelState.next] at hstep
    split at hstep
    · rename_i requestId server id k' hj
      obtain ⟨own, hown, rfl⟩ := Option.map_eq_some_iff.mp hstep
      rcases interrupt_cases _ requestId server id with heq | ⟨k, conn, victim, hk, hconn, hstatement, heq⟩
      · rw [heq]
        exact .none rfl (.refl rfl)
      · rw [heq]
        rw [connAt_set (s := s) hown rfl] at hk
        rcases getElem?_set_cases hconn with ⟨rfl, rfl⟩ | ⟨-, hconn⟩
        · exact .hit hj hk hown (.inl ⟨(Option.some.inj hstatement).symm, rfl⟩) rfl rfl
        · exact .hit hj hk hconn (.inr hstatement) rfl rfl
    · cases hstep
  | endCancel j =>
    simp only [CancelState.next] at hstep
    split at hstep
    · obtain ⟨conn, -, rfl⟩ := Option.map_eq_some_iff.mp hstep
      exact .none rfl (.refl rfl)
    · cases hstep

/-- The last call that took a connection, and recorded its id, by its request. -/
theorem usedBy_eq_true {requestId : String} (hk : s.conns[k]? = some conn)
    (h : s.usedBy k requestId = true) : conn.recorded = true ∧
      ∃ i call, conn.user = some (.call i) ∧ s.calls[i]? = some call ∧
        call.requestId = requestId := by
  rw [CancelState.usedBy, hk, Option.any_some, Bool.and_eq_true] at h
  obtain ⟨hrecorded, h⟩ := h
  refine ⟨hrecorded, ?_⟩
  split at h
  · rename_i i huser
    obtain ⟨call, hi, hid⟩ := (Option.any_eq_true _ _).mp h
    exact ⟨i, call, huser, hi, of_decide_eq_true hid⟩
  · cases h

theorem HitsOwn.next (h : HitsOwn s) (hpinned : Pinned s) (hok : NotTaken s a)
    (hstep : Interrupts s a s') : HitsOwn s' := by
  cases hstep with
  | none hsame hcalls =>
    intro hit hmem
    rw [hsame] at hmem
    obtain ⟨i, call, hvictim, hi, hid, hserver⟩ := h hit hmem
    obtain ⟨call', hi', hid', hserver'⟩ := hcalls i call hi
    exact ⟨i, call', hvictim, hi', hid'.trans hid, hserver'.trans hserver⟩
  | @hit j k k' requestId server id conn victim s' hj hk hconn hvictim hcalls hinterrupts =>
    intro hit hmem
    rw [hinterrupts] at hmem
    rw [hcalls]
    rcases List.mem_append.mp hmem with hmem | hmem
    · exact h hit hmem
    · rw [List.mem_singleton.mp hmem]
      have haim : s.aim j = some (requestId, k) := by simp [CancelState.aim, hj, hk]
      obtain ⟨hrecorded, i, call, huser, hcall, hid⟩ := usedBy_eq_true hconn (hok _ haim)
      have hrun : conn.statement = some victim := by
        rcases hvictim with ⟨-, rfl⟩ | hrun
        · -- The connection that the cancel holds was taken last by no call.
          obtain ⟨c, hc, hcuser, -⟩ :=
            hpinned.holds (.cancel j) k (Option.bind_eq_some_iff.mpr ⟨_, hj, rfl⟩)
          rw [hconn] at hc
          cases hc
          rw [huser] at hcuser
          cases hcuser
        · exact hrun
      -- The statement there is the last call's, which is on the server of the connection.
      have hown := hpinned.own k conn hconn hrecorded victim hrun
      rw [huser] at hown
      cases hown
      obtain ⟨call', hcall', hserver⟩ := hpinned.pool k conn i hconn huser
      rw [hcall] at hcall'
      cases hcall'
      refine ⟨i, call, rfl, hcall, hid, hserver.trans ?_⟩
      obtain ⟨hlt, hmatch, -⟩ := List.findIdx?_eq_some_iff_getElem.mp hk
      rw [(List.getElem?_eq_some_iff.mp hconn).2] at hmatch
      simp only [Bool.and_eq_true, decide_eq_true_eq] at hmatch
      exact hmatch.1.2

theorem pinned_of_reach {ok : CancelState → CancelAction → Prop} (h : cancelRequests.Reach ok s) :
    Pinned s := by
  refine h.invariant (fun h₀ => ?_) fun _ hstep hI => hI.next hstep
  cases h₀
  refine ⟨fun u k hu => ?_, nofun, nofun⟩
  cases u <;> cases hu

/-- In every run in which no cancel acts on a connection that another request or a cancel has
taken since, cancels interrupt statements of their own requests. -/
theorem cancel_hits_own (h : cancelRequests.Reach NotTaken s) : HitsOwn s := by
  refine h.invariant_of pinned_of_reach (fun h₀ => ?_) fun hok hstep hJ hI =>
    hI.next hJ hok (interrupts_of_next hstep)
  cases h₀
  exact nofun

/-- A call of `r1` that is cancelled while its statement runs. -/
def cancelRunning : List CancelAction :=
  [.registerProfile "orders" 0, .connect 0 (.postgres 41), .connect 0 (.postgres 42),
    .execute "r1" "orders" .postgres 0, .acquire 0 0, .record 0, .run 0, .cancelRequest "r1",
    .findProfile 0, .connectCancel 0 1, .cancelBackend 0, .done 1, .endCancel 0]

theorem cancelRunning_hits_own :
    ∃ s, Machine.run CancelState.next {} cancelRunning = some s ∧
      s.interrupts = [⟨"r1", 0, .call 0⟩] ∧ HitsOwn s := by
  have hrun : cancelRequests.Reach NotTaken _ :=
    (Machine.Reach.init rfl).along (fun _ h => h) (by decide)
      (show Machine.run CancelState.next {} cancelRunning = _ from rfl)
  exact ⟨_, rfl, by decide, cancel_hits_own hrun⟩

/-! ## Stale ids -/

/-- A cancel that acts on its own connection hits its own statement. -/
theorem cancel_hits_itself {requestId : String} {server : Nat} {id : BackendId}
    (hj : s.cancels[j]? = some (.connected requestId server id k))
    (hk : s.connAt server id = some k) (hconn : s.conns[k]? = some conn) :
    ∃ s', s.next (.cancelBackend j) = some s' ∧ ¬HitsOwn s' := by
  obtain ⟨hlt, -⟩ := List.getElem?_eq_some_iff.mp hconn
  refine ⟨(s.send j k conn).interrupt requestId server id, by simp [CancelState.next, hj, hconn],
    fun h => ?_⟩
  have hk' : (s.send j k conn).connAt server id = some k := (connAt_set hconn rfl server id).trans hk
  have hsent : (s.send j k conn).conns[k]? = some { conn with statement := some (.cancel j) } := by
    simp [CancelState.send, CancelState.setConn, hlt]
  obtain ⟨i, call, hvictim, -⟩ := h ⟨requestId, server, .cancel j⟩ (by
    simp [CancelState.interrupt, hk', hsent])
  cases hvictim

/-- A cancel that acts where a call of another request runs its statement by now hits that. -/
theorem stale_cancel_hits_other {requestId : String} {server : Nat} {id : BackendId}
    {k' : Nat} (hj : s.cancels[j]? = some (.connected requestId server id k'))
    (hown : s.conns[k']? = some conn') (hne : k ≠ k') (hk : s.connAt server id = some k)
    (hconn : s.conns[k]? = some conn) (hstatement : conn.statement = some (.call i))
    (hi : s.calls[i]? = some call) (hother : call.requestId ≠ requestId) :
    ∃ s', s.next (.cancelBackend j) = some s' ∧ ¬HitsOwn s' := by
  refine ⟨(s.send j k' conn').interrupt requestId server id, by simp [CancelState.next, hj, hown],
    fun h => ?_⟩
  have hk' : (s.send j k' conn').connAt server id = some k := (connAt_set hown rfl server id).trans hk
  have hsent : (s.send j k' conn').conns[k]? = some conn := by
    show (s.conns.set k' _)[k]? = some conn
    rwa [List.getElem?_set_ne (Ne.symm hne)]
  obtain ⟨i', call', hvictim, hcall', hid, -⟩ := h ⟨requestId, server, .call i⟩ (by
    simp [CancelState.interrupt, hk', hsent, hstatement])
  cases hvictim
  simp only [CancelState.interrupt, hk', hsent, hstatement] at hcall'
  cases hi.symm.trans hcall'
  exact hother hid

/-- The connection of `r1` is back in the pool and taken by `r2` when `r1`, which still has
its guard, is cancelled. -/
def cancelTaken : List CancelAction :=
  [.registerProfile "orders" 0, .connect 0 (.postgres 41), .connect 0 (.postgres 42),
    .execute "r1" "orders" .postgres 0, .acquire 0 0, .record 0, .run 0, .done 0, .release 0,
    .execute "r2" "orders" .postgres 0, .acquire 1 0, .record 1, .run 1, .cancelRequest "r1",
    .findProfile 0, .connectCancel 0 1, .cancelBackend 0]

theorem cancelTaken_hits_other :
    ∃ s, cancelRequests.Reach (fun _ _ => True) s ∧ s.interrupts = [⟨"r1", 0, .call 1⟩] ∧
      s.calls.map PooledCall.requestId = ["r1", "r2"] ∧ ¬HitsOwn s := by
  have hrun : cancelRequests.Reach (fun _ _ => True) _ :=
    (Machine.Reach.init rfl).run (fun _ h => h) (fun _ _ _ => trivial)
      (show Machine.run CancelState.next {} cancelTaken = _ from rfl)
  refine ⟨_, hrun, by decide, by decide, fun h => ?_⟩
  obtain ⟨i, call, hvictim, hcall, hid, -⟩ := h ⟨"r1", 0, .call 1⟩ (by decide)
  cases hvictim
  cases hcall
  exact absurd hid (by decide)

end McpgSql.Plugin
