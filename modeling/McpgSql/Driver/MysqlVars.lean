import McpgSql.Execute.Calls

/-!
# Session variables on MySQL

A MySQL user variable belongs to its connection and outlives transactions. The calls
that take session variables set them one by one on their connection, each with an early
return where a `SET` fails, run their statement, and set them to NULL again. A call
waits at each of these and may be dropped there (the query timeout drops it).

`vars_cleared_iff`: a connection goes back with the variables that the call set at NULL
exactly where, if the first `SET` takes effect, all of them succeed and the call is not
dropped before it issues its last clearing `SET`. A clearing `SET` that is issued is
taken to succeed.
-/

namespace McpgSql.Driver

open Library McpgSql.Cache McpgSql.Execute

/-! ## Calls -/

/-- What a stream of result sets yields: a row, or the end of a set. -/
inductive StreamItem where
  | row (row : Value)
  | boundary
deriving DecidableEq

/-- What a call waits for. -/
inductive MysqlQuestion where
  | acquire
  /-- `SELECT CONNECTION_ID()`. -/
  | connectionId
  /-- `SET @k = ?`. -/
  | set (k v : String)
  /-- The statement of the call, for its rows or the number of rows it changes. -/
  | statement (how : Submit)
  /-- `fetch_many`, to the end of the stream. -/
  | stream
  /-- `SET @k = NULL`. -/
  | clear (k : String)

/-- A stream may fail after some of its items. -/
@[reducible] def MysqlAnswer : MysqlQuestion → Type
  | .acquire | .set .. | .clear _ => Except SqlError Unit
  | .connectionId => Except SqlError Nat
  | .statement how => Except SqlError how.Reply
  | .stream => List StreamItem × Except SqlError Unit

abbrev MysqlCall := Prog MysqlQuestion MysqlAnswer SqlError

def await (q : MysqlQuestion) : MysqlCall (MysqlAnswer q) := .query q

def setVars : List (String × String) → MysqlCall Unit
  | [] => pure ()
  | (k, v) :: vars => do
    let reply : Except SqlError Unit ← await (.set k v)
    Prog.ofExcept reply
    setVars vars

/-- Errors are left aside. -/
def clearVars : List (String × String) → MysqlCall Unit
  | [] => pure ()
  | (k, _) :: vars => do
    let _reply : Except SqlError Unit ← await (.clear k)
    clearVars vars

/-- A statement between the variables it needs and their end. -/
def setRunClear {α : Type} (session : SessionVars) (statement : MysqlCall (Except SqlError α)) :
    MysqlCall α := do
  setVars session.values.entries
  let reply ← statement
  clearVars session.values.entries
  Prog.ofExcept reply

def runStatement (how : Submit) : MysqlCall (Except SqlError how.Reply) := await (.statement how)

/-- The rows between boundaries; an empty set at a boundary is left out. -/
def resultSets : List StreamItem → List Value → List (List Value)
  | [], current => if current.isEmpty then [] else [current]
  | .row row :: items, current => resultSets items (current ++ [row])
  | .boundary :: items, current =>
    if current.isEmpty then resultSets items [] else current :: resultSets items []

def runStream : MysqlCall (Except SqlError (List (List Value))) := do
  let reply : List StreamItem × Except SqlError Unit ← await .stream
  pure (reply.2.map fun _ => resultSets reply.1 [])

/-- A connection of the pool. -/
def acquire : MysqlCall Unit := do
  let reply : Except SqlError Unit ← await .acquire
  Prog.ofExcept reply

/-- A connection of the pool whose id the registry of calls in flight gets. -/
def acquireWithId : MysqlCall Unit := do
  acquire
  let reply : Except SqlError Nat ← await .connectionId
  let _id ← Prog.ofExcept reply

/-- Without variables the pool runs the statement on any connection. -/
def executeOn (how : Submit) (session : SessionVars) : MysqlCall how.Reply :=
  if session.values.entries.isEmpty then do
    let reply ← runStatement how
    Prog.ofExcept reply
  else do
    acquire
    setRunClear session (runStatement how)

def executeWithId (how : Submit) (session : SessionVars) : MysqlCall how.Reply := do
  acquireWithId
  setRunClear session (runStatement how)

/-- `MysqlTxHandle`: the connection is the one of the transaction, where that is there. -/
def executeInTx (inner : Bool) (how : Submit) (session : SessionVars) : MysqlCall how.Reply :=
  if inner then setRunClear session (runStatement how)
  else .fail (.invalidSpec "transaction already closed")

/-- The calls that take session variables. -/
inductive MysqlPath where
  | execute
  | executeAffected
  | executeWithCtx
  | executeAffectedWithCtx
  | executeMultiResult
  /-- On a transaction handle that has its transaction or not. -/
  | txExecute (inner : Bool)
  | txExecuteAffected (inner : Bool)
deriving DecidableEq, Repr

def MysqlPath.Reply : MysqlPath → Type
  | .execute | .executeWithCtx | .txExecute _ => RowBatch
  | .executeAffected | .executeAffectedWithCtx | .txExecuteAffected _ => Nat
  | .executeMultiResult => List (List Value)

def MysqlPath.call (session : SessionVars) : (path : MysqlPath) → MysqlCall path.Reply
  | .execute => executeOn .execute session
  | .executeAffected => executeOn .executeAffected session
  | .executeWithCtx => executeWithId .execute session
  | .executeAffectedWithCtx => executeWithId .executeAffected session
  | .executeMultiResult => acquire >>= fun _ => setRunClear session runStream
  | .txExecute inner => executeInTx inner .execute session
  | .txExecuteAffected inner => executeInTx inner .executeAffected session

/-! ## Variables -/

/-- What a statement does to the variables of its connection. -/
inductive VarEffect where
  | set (k v : String)
  | clear (k : String)
deriving DecidableEq, Repr

def VarEffect.apply (vars : String → Option String) : VarEffect → String → Option String
  | .set k v => Function.update vars k (some v)
  | .clear k => Function.update vars k none

/-- The effect of a statement that is over. -/
def effectOf : Sigma MysqlAnswer → Option VarEffect
  | ⟨.set k v, answer⟩ => match (answer : Except SqlError Unit) with
    | .ok _ => some (.set k v)
    | .error _ => none
  | ⟨.clear k, _⟩ => some (.clear k)
  | _ => none

/-- The effect of a statement that the call did not wait for to the end; a `SET` may take
effect or not. -/
def pendingEffect (took : Bool) : MysqlQuestion → Option VarEffect
  | .set k v => if took then some (.set k v) else none
  | .clear k => some (.clear k)
  | _ => none

/-- The effects of a call that is dropped while it waits for the answer of question
`drop`, or runs to its end. -/
def effects {α : Type} (env : Nat → (q : MysqlQuestion) → MysqlAnswer q) (drop : Option Nat)
    (took : Bool) (n : Nat) (call : MysqlCall α) : List VarEffect :=
  (Prog.cut env drop n call).1.filterMap effectOf ++
    ((Prog.cut env drop n call).2.bind (pendingEffect took)).toList

/-- The variables of the connection when it goes back. -/
def varsAfter (vars : String → Option String) (effects : List VarEffect) : String → Option String :=
  effects.foldl VarEffect.apply vars

/-- Every variable that the call set is NULL. -/
def Cleared (vars : String → Option String) (effects : List VarEffect) : Prop :=
  ∀ k v, .set k v ∈ effects → varsAfter vars effects k = none

section

variable (env : Nat → (q : MysqlQuestion) → MysqlAnswer q) (drop : Option Nat) (took : Bool)

/-- How many answers a call waits for before its first `SET`. -/
def MysqlPath.before : MysqlPath → Nat
  | .execute | .executeAffected | .executeMultiResult => 1
  | .executeWithCtx | .executeAffectedWithCtx => 2
  | .txExecute _ | .txExecuteAffected _ => 0

/-- The call has a connection, and is not dropped before its first `SET`. -/
def MysqlPath.Reaches : MysqlPath → Prop
  | .execute | .executeAffected | .executeMultiResult =>
    drop ≠ some 0 ∧ (env 0 .acquire : Except SqlError Unit) = .ok ()
  | .executeWithCtx | .executeAffectedWithCtx =>
    drop ≠ some 0 ∧ drop ≠ some 1 ∧ (env 0 .acquire : Except SqlError Unit) = .ok () ∧
      ∃ id, (env 1 .connectionId : Except SqlError Nat) = .ok id
  | .txExecute inner | .txExecuteAffected inner => inner = true

/-- The first `SET`, which is question `n`, takes effect. -/
def FirstTakes (n : Nat) : List (String × String) → Prop
  | [] => False
  | (k, v) :: _ =>
    if drop = some n then took = true else (env n (.set k v) : Except SqlError Unit) = .ok ()

/-- Every `SET` from question `n` on succeeds. -/
def SetsSucceed : Nat → List (String × String) → Prop
  | _, [] => True
  | n, (k, v) :: vars =>
    (env n (.set k v) : Except SqlError Unit) = .ok () ∧ SetsSucceed (n + 1) vars

/-- If the first `SET` takes effect, all succeed, and the call is not dropped before its last
clearing `SET` is issued. -/
def ClearsWhatItSets (session : SessionVars) (path : MysqlPath) : Prop :=
  path.Reaches env drop → FirstTakes env drop took path.before session.values.entries →
    SetsSucceed env path.before session.values.entries ∧
      ∀ m ∈ drop, path.before + 2 * session.values.entries.length ≤ m

end

/-! ## Effects on the variables -/

section

variable {vars : List (String × String)} {init : String → Option String} {k v : String}

/-- The effect of a `SET`, and of its end. -/
def setEffect (var : String × String) : VarEffect := .set var.1 var.2

def clearEffect (var : String × String) : VarEffect := .clear var.1

theorem varsAfter_append (a b : List VarEffect) :
    varsAfter init (a ++ b) = varsAfter (varsAfter init a) b :=
  List.foldl_append

theorem varsAfter_set_of_not_mem (h : k ∉ vars.map Prod.fst) :
    varsAfter init (vars.map setEffect) k = init k := by
  induction vars generalizing init with
  | nil => rfl
  | cons var vars ih =>
    rw [List.map_cons, List.mem_cons, not_or] at h
    show varsAfter (Function.update init var.1 (some var.2)) (vars.map setEffect) k = _
    rw [ih h.2, Function.update_of_ne h.1]

theorem varsAfter_set (hnodup : (vars.map Prod.fst).Nodup) (h : (k, v) ∈ vars) :
    varsAfter init (vars.map setEffect) k = some v := by
  induction vars generalizing init with
  | nil => simp at h
  | cons var vars ih =>
    rw [List.map_cons, List.nodup_cons] at hnodup
    show varsAfter (Function.update init var.1 (some var.2)) (vars.map setEffect) k = _
    rcases List.mem_cons.mp h with rfl | h
    · rw [varsAfter_set_of_not_mem hnodup.1, Function.update_self]
    · exact ih hnodup.2 h

theorem varsAfter_clear (k : String) :
    varsAfter init (vars.map clearEffect) k = if k ∈ vars.map Prod.fst then none else init k := by
  induction vars generalizing init with
  | nil => rfl
  | cons var vars ih =>
    show varsAfter (Function.update init var.1 none) (vars.map clearEffect) k = _
    rw [ih]
    by_cases hk : k = var.1
    · simp [hk]
    · rw [List.map_cons, Function.update_of_ne hk]
      simp only [List.mem_cons, hk, false_or]

theorem set_mem_sets : .set k v ∈ vars.map setEffect ↔ (k, v) ∈ vars := by
  constructor
  · intro h
    obtain ⟨⟨k', v'⟩, hmem, heq⟩ := List.mem_map.mp h
    obtain ⟨rfl, rfl⟩ := VarEffect.set.inj heq
    exact hmem
  · exact fun h => List.mem_map.mpr ⟨(k, v), h, rfl⟩

theorem set_not_mem_clears : .set k v ∉ vars.map clearEffect := by
  intro h
  obtain ⟨var, -, heq⟩ := List.mem_map.mp h
  exact absurd heq nofun

/-- Of variables that were only set none is cleared. -/
theorem cleared_sets_iff (hnodup : (vars.map Prod.fst).Nodup) :
    Cleared init (vars.map setEffect) ↔ vars = [] := by
  constructor
  · intro h
    rw [List.eq_nil_iff_forall_not_mem]
    rintro ⟨k, v⟩ hmem
    have := h k v (set_mem_sets.mpr hmem)
    rw [varsAfter_set hnodup hmem] at this
    exact absurd this nofun
  · rintro rfl
    exact nofun

/-- Variables that were all set are cleared where the last of them was. -/
theorem cleared_iff (hnodup : (vars.map Prod.fst).Nodup) {d : Nat} (hd : d ≤ vars.length) :
    Cleared init (vars.map setEffect ++ (vars.take d).map clearEffect) ↔ d = vars.length := by
  constructor
  · intro h
    by_contra hne
    have hlt : d < vars.length := by omega
    obtain ⟨⟨k, v⟩, hvar⟩ : ∃ var, vars[d]? = some var := ⟨_, List.getElem?_eq_getElem hlt⟩
    have hmem := List.mem_of_getElem? hvar
    have hclear := h k v (List.mem_append_left _ (set_mem_sets.mpr hmem))
    rw [varsAfter_append, varsAfter_clear, if_neg, varsAfter_set hnodup hmem] at hclear
    · exact absurd hclear nofun
    · -- The keys before `d` are others.
      intro hkey
      rw [List.map_take] at hkey
      obtain ⟨i, hi⟩ := List.mem_iff_getElem?.mp hkey
      rw [List.getElem?_take] at hi
      split at hi
      · have hkd : (vars.map Prod.fst)[d]? = some k := by simp [hvar]
        have hid := (List.getElem?_inj (List.getElem?_eq_some_iff.mp hi).1 hnodup).mp
          (hi.trans hkd.symm)
        omega
      · exact absurd hi nofun
  · rintro rfl k v hset
    rw [List.take_length] at hset ⊢
    rcases List.mem_append.mp hset with hset | hset
    · rw [varsAfter_append, varsAfter_clear, if_pos]
      exact List.mem_map.mpr ⟨(k, v), set_mem_sets.mp hset, rfl⟩
    · exact absurd hset set_not_mem_clears

end

/-! ## Effects of a call -/

section

variable {α β : Type} {env : Nat → (q : MysqlQuestion) → MysqlAnswer q} {drop : Option Nat}
  {took : Bool} {n : Nat}

/-- The part of a call that is over, and its question that is open. -/
def Goes (env : Nat → (q : MysqlQuestion) → MysqlAnswer q) (drop : Option Nat) (n : Nat)
    (call : MysqlCall α) (a : α) (len : Nat) : Prop :=
  (Prog.cut env drop n call).2 = none ∧ Prog.result env n call = .ok a ∧
    (Prog.cut env drop n call).1.length = len

/-- A call that ends or is dropped there. -/
def Stops (env : Nat → (q : MysqlQuestion) → MysqlAnswer q) (drop : Option Nat) (n : Nat)
    (call : MysqlCall α) : Prop :=
  (∃ q, (Prog.cut env drop n call).2 = some q) ∨ ∃ e, Prog.result env n call = .error e

theorem effects_bind_goes {p : MysqlCall α} {f : α → MysqlCall β} {a : α} {len : Nat}
    (h : Goes env drop n p a len) :
    effects env drop took n (p >>= f) =
      effects env drop took n p ++ effects env drop took (n + len) (f a) := by
  obtain ⟨hopen, hresult, hlen⟩ := h
  unfold effects
  rw [Prog.cut_bind, hopen, hresult]
  simp [hlen]

theorem effects_bind_stops {p : MysqlCall α} {f : α → MysqlCall β} (h : Stops env drop n p) :
    effects env drop took n (p >>= f) = effects env drop took n p := by
  have hcut : Prog.cut env drop n (p >>= f) = Prog.cut env drop n p := by
    rw [Prog.cut_bind]
    rcases h with ⟨q, hq⟩ | ⟨e, he⟩
    · rw [hq]
    · rw [he]
      cases (Prog.cut env drop n p).2 <;> rfl
  unfold effects
  rw [hcut]

/-- A call that begins with a question it is dropped at. -/
theorem cut_ask_drop {q : MysqlQuestion} {k : MysqlAnswer q → MysqlCall α} (h : drop = some n) :
    Prog.cut env drop n (.ask q k) = ([], some q) :=
  if_pos h

/-- A call that begins with a question it is not dropped at. -/
theorem cut_ask {q : MysqlQuestion} {k : MysqlAnswer q → MysqlCall α} (h : drop ≠ some n) :
    Prog.cut env drop n (.ask q k) = (⟨q, env n q⟩ :: (Prog.cut env drop (n + 1) (k (env n q))).1,
      (Prog.cut env drop (n + 1) (k (env n q))).2) :=
  if_neg h

/-- The rest of the variables, by the answer to the first `SET`. -/
def afterSet (vars : List (String × String)) (reply : Except SqlError Unit) : MysqlCall Unit :=
  Prog.ofExcept reply >>= fun _ => setVars vars

theorem setVars_cons (k v : String) (vars : List (String × String)) :
    setVars ((k, v) :: vars) = .ask (.set k v) (afterSet vars) := rfl

/-- Either all variables are set, or some of them from the first on and the call stops. -/
theorem setVars_cases (took : Bool) (vars : List (String × String)) (hdrop : ∀ m ∈ drop, n ≤ m) :
    (SetsSucceed env n vars ∧ (∀ m ∈ drop, n + vars.length ≤ m) ∧
      Goes env drop n (setVars vars) () vars.length ∧
      effects env drop took n (setVars vars) = vars.map setEffect) ∨
    (¬(SetsSucceed env n vars ∧ ∀ m ∈ drop, n + vars.length ≤ m) ∧ Stops env drop n (setVars vars) ∧
      ∃ c ≤ vars.length, effects env drop took n (setVars vars) = (vars.take c).map setEffect ∧
        (0 < c ↔ FirstTakes env drop took n vars)) := by
  induction vars generalizing n with
  | nil => exact .inl ⟨trivial, by simpa using hdrop, ⟨rfl, rfl, rfl⟩, rfl⟩
  | cons var vars ih =>
    obtain ⟨k, v⟩ := var
    rw [setVars_cons]
    by_cases hn : drop = some n
    · -- The call is dropped at this `SET`.
      refine .inr ⟨fun h => ?_, .inl ⟨.set k v, by rw [cut_ask_drop hn]⟩, if took then 1 else 0, ?_, ?_, ?_⟩
      · have := h.2 n hn
        rw [List.length_cons] at this
        omega
      · split <;> simp
      · unfold effects
        rw [cut_ask_drop hn]
        cases took <;> rfl
      · show _ ↔ if drop = some n then took = true else _
        rw [if_pos hn]
        cases took <;> simp
    · have hnext : ∀ m ∈ drop, n + 1 ≤ m := by
        intro m hm
        have := hdrop m hm
        have : m ≠ n := by
          rintro rfl
          exact hn hm
        omega
      have hfirst : FirstTakes env drop took n ((k, v) :: vars) ↔
          (env n (.set k v) : Except SqlError Unit) = .ok () := by
        show (if drop = some n then took = true else _) ↔ _
        rw [if_neg hn]
      cases hset : (env n (.set k v) : Except SqlError Unit) with
      | error e =>
        refine .inr ⟨fun h => ?_, .inr ⟨e, ?_⟩, 0, Nat.zero_le _, ?_, ?_⟩
        · have := h.1.1
          rw [hset] at this
          exact absurd this nofun
        · show Prog.result env (n + 1) (afterSet vars (env n (.set k v))) = _
          rw [hset]
          rfl
        · unfold effects
          rw [cut_ask hn, hset]
          rfl
        · rw [hfirst, hset]
          simp
      | ok u =>
        have hcut : Prog.cut env drop n (.ask (.set k v) (afterSet vars)) =
            (⟨.set k v, env n (.set k v)⟩ :: (Prog.cut env drop (n + 1) (setVars vars)).1,
              (Prog.cut env drop (n + 1) (setVars vars)).2) := by
          rw [cut_ask hn, hset]
          rfl
        have hresult : Prog.result env n (.ask (.set k v) (afterSet vars)) =
            Prog.result env (n + 1) (setVars vars) := by
          show Prog.result env (n + 1) (afterSet vars (env n (.set k v))) = _
          rw [hset]
          rfl
        have heffects : effects env drop took n (.ask (.set k v) (afterSet vars)) =
            setEffect (k, v) :: effects env drop took (n + 1) (setVars vars) := by
          unfold effects
          rw [hcut]
          have : effectOf ⟨.set k v, env n (.set k v)⟩ = some (setEffect (k, v)) := by
            show (match (env n (.set k v) : Except SqlError Unit) with
              | .ok _ => some (VarEffect.set k v)
              | .error _ => none) = _
            rw [hset]
            rfl
          rw [List.filterMap_cons_some this, List.cons_append]
        have hlen : n + ((k, v) :: vars).length = n + 1 + vars.length := by
          rw [List.length_cons]
          omega
        rw [hlen]
        rcases ih hnext with ⟨hsets, hlate, ⟨hopen, hres, hl⟩, heff⟩ | ⟨hnot, hstops, c, hc, heff, -⟩
        · exact .inl ⟨⟨hset, hsets⟩, hlate, ⟨by rw [hcut]; exact hopen, hresult.trans hres,
            by rw [hcut, List.length_cons, hl, List.length_cons]⟩, by rw [heffects, heff]; rfl⟩
        · refine .inr ⟨fun h => hnot ⟨h.1.2, h.2⟩, ?_, c + 1, by rw [List.length_cons]; omega, ?_, ?_⟩
          · rcases hstops with ⟨q, hq⟩ | ⟨e, he⟩
            · exact .inl ⟨q, by rw [hcut]; exact hq⟩
            · exact .inr ⟨e, hresult.trans he⟩
          · rw [heffects, heff, List.take_succ_cons, List.map_cons]
          · rw [hfirst, hset]
            simp

/-- The variables are cleared up to where the call is dropped. -/
theorem effects_clearVars (took : Bool) (vars : List (String × String)) (x : Except SqlError α)
    (hdrop : ∀ m ∈ drop, n ≤ m) :
    ∃ d ≤ vars.length,
      effects env drop took n (clearVars vars >>= fun _ => Prog.ofExcept x) =
        (vars.take d).map clearEffect ∧
      (d = vars.length ↔ ∀ m ∈ drop, n + vars.length ≤ m + 1) := by
  induction vars generalizing n with
  | nil =>
    refine ⟨0, Nat.le_refl _, ?_, fun _ m hm => ?_, fun _ => rfl⟩
    · unfold effects
      rw [show (clearVars [] >>= fun _ => Prog.ofExcept x : MysqlCall α) = Prog.ofExcept x from rfl,
        Prog.cut_ofExcept]
      rfl
    · have := hdrop m hm
      simp only [List.length_nil]
      omega
  | cons var vars ih =>
    obtain ⟨k, v⟩ := var
    have hcall : (clearVars ((k, v) :: vars) >>= fun _ => Prog.ofExcept x : MysqlCall α) =
        .ask (.clear k) fun _ => clearVars vars >>= fun _ => Prog.ofExcept x := rfl
    by_cases hn : drop = some n
    · refine ⟨1, by simp, ?_, fun h m hm => ?_, fun h => ?_⟩
      · unfold effects
        rw [hcall, cut_ask_drop hn]
        rfl
      · rw [hn] at hm
        obtain rfl := Option.some.inj hm
        omega
      · have := h n hn
        rw [List.length_cons] at this ⊢
        omega
    · have hnext : ∀ m ∈ drop, n + 1 ≤ m := by
        intro m hm
        have := hdrop m hm
        have : m ≠ n := by
          rintro rfl
          exact hn hm
        omega
      obtain ⟨d, hd, heff, hiff⟩ := ih hnext
      refine ⟨d + 1, by rw [List.length_cons]; omega, ?_, ?_⟩
      · have hcut : effects env drop took n (.ask (.clear k) fun _ => clearVars vars >>= fun _ =>
            Prog.ofExcept x : MysqlCall α) = clearEffect (k, v) ::
              effects env drop took (n + 1) (clearVars vars >>= fun _ => Prog.ofExcept x) := by
          unfold effects
          rw [cut_ask hn]
          rfl
        rw [hcall, hcut, heff, List.take_succ_cons, List.map_cons]
      · rw [List.length_cons]
        constructor
        · intro h m hm
          have := hiff.mp (by omega) m hm
          omega
        · intro h
          have := hiff.mpr fun m hm => by have := h m hm; omega
          omega

/-- A statement is one question, which leaves the variables alone. -/
structure OneStatement (env : Nat → (q : MysqlQuestion) → MysqlAnswer q) (drop : Option Nat)
    (took : Bool) (call : MysqlCall α) : Prop where
  quiet : ∀ n, effects env drop took n call = []
  stops : ∀ n, drop = some n → Stops env drop n call
  goes : ∀ n, drop ≠ some n → ∃ a, Goes env drop n call a 1

theorem oneStatement_runStatement (how : Submit) : OneStatement env drop took (runStatement how) := by
  have hcall : runStatement how = .ask (.statement how) .pure := rfl
  refine ⟨fun n => ?_, fun n hn => .inl ⟨_, by rw [hcall, cut_ask_drop hn]⟩,
    fun n hn => ⟨env n (.statement how), by rw [hcall, cut_ask hn]; rfl, rfl,
      by rw [hcall, cut_ask hn]; rfl⟩⟩
  unfold effects
  by_cases hn : drop = some n
  · rw [hcall, cut_ask_drop hn]
    rfl
  · rw [hcall, cut_ask hn]
    rfl

theorem oneStatement_runStream : OneStatement env drop took runStream := by
  have hcall : runStream = .ask .stream fun reply =>
      .pure (reply.2.map fun _ => resultSets reply.1 []) := rfl
  refine ⟨fun n => ?_, fun n hn => .inl ⟨_, by rw [hcall, cut_ask_drop hn]⟩,
    fun n hn => ⟨_, by rw [hcall, cut_ask hn]; rfl, rfl, by rw [hcall, cut_ask hn]; rfl⟩⟩
  unfold effects
  by_cases hn : drop = some n
  · rw [hcall, cut_ask_drop hn]
    rfl
  · rw [hcall, cut_ask hn]
    rfl

/-- Where the call is not dropped before, the first variable is set. -/
theorem firstTakes_of_sets {vars : List (String × String)} (hsets : SetsSucceed env n vars)
    (hlate : ∀ m ∈ drop, n + vars.length ≤ m) (hne : vars ≠ []) : FirstTakes env drop took n vars := by
  obtain ⟨⟨k, v⟩, vars, rfl⟩ := List.exists_cons_of_ne_nil hne
  show if drop = some n then took = true else _
  rw [if_neg]
  · exact hsets.1
  · intro hn
    have := hlate n hn
    rw [List.length_cons] at this
    omega

theorem cleared_setRunClear {session : SessionVars} {statement : MysqlCall (Except SqlError α)}
    (hstatement : OneStatement env drop took statement) (hdrop : ∀ m ∈ drop, n ≤ m)
    (init : String → Option String) :
    Cleared init (effects env drop took n (setRunClear session statement)) ↔
      (FirstTakes env drop took n session.values.entries → SetsSucceed env n session.values.entries ∧
        ∀ m ∈ drop, n + 2 * session.values.entries.length ≤ m) := by
  have hnodup : (session.values.entries.map Prod.fst).Nodup := Assoc.nodup_keys session.values.sorted
  rw [setRunClear]
  generalize session.values.entries = vars at hnodup ⊢
  rcases setVars_cases took vars hdrop with
    ⟨hsets, hlate, hgoes, heff⟩ | ⟨hnot, hstops, c, hc, heff, hfirst⟩
  · -- The variables are set; how far are they cleared?
    have hrest : ∃ d ≤ vars.length, effects env drop took (n + vars.length)
        (statement >>= fun reply => clearVars vars >>= fun _ => Prog.ofExcept reply) =
          (vars.take d).map clearEffect ∧
        (d = vars.length ↔ vars = [] ∨ ∀ m ∈ drop, n + 2 * vars.length ≤ m) := by
      by_cases hn : drop = some (n + vars.length)
      · refine ⟨0, Nat.zero_le _, ?_, ?_⟩
        · rw [effects_bind_stops (hstatement.stops _ hn), hstatement.quiet]
          rfl
        · rw [← List.length_eq_zero_iff]
          constructor
          · omega
          · rintro (h | h)
            · omega
            · have := h _ hn
              omega
      · obtain ⟨reply, hreply⟩ := hstatement.goes _ hn
        have hnext : ∀ m ∈ drop, n + vars.length + 1 ≤ m := by
          intro m hm
          have := hlate m hm
          have : m ≠ n + vars.length := by
            rintro rfl
            exact hn hm
          omega
        obtain ⟨d, hd, hclear, hiff⟩ := effects_clearVars took vars reply hnext
        refine ⟨d, hd, ?_, ?_⟩
        · rw [effects_bind_goes hreply, hstatement.quiet, hclear]
          rfl
        · rw [hiff]
          constructor
          · intro h
            exact .inr fun m hm => by have := h m hm; omega
          · rintro (h | h) m hm
            · have := hnext m hm
              rw [h, List.length_nil] at this ⊢
              omega
            · have := h m hm
              omega
    obtain ⟨d, hd, hclear, hiff⟩ := hrest
    rw [effects_bind_goes hgoes, heff, hclear, cleared_iff hnodup hd, hiff]
    constructor
    · rintro (rfl | h) hfirst
      · exact hfirst.elim
      · exact ⟨hsets, h⟩
    · intro h
      by_cases hne : vars = []
      · exact .inl hne
      · exact .inr (h (firstTakes_of_sets hsets hlate hne)).2
  · -- The call stops before it clears anything.
    rw [effects_bind_stops hstops, heff, cleared_sets_iff]
    · have hlen : (vars.take c).length = c := by rw [List.length_take]; omega
      rw [← List.length_eq_zero_iff, hlen]
      constructor
      · intro h hf
        have := hfirst.mpr hf
        omega
      · intro h
        by_contra hne
        obtain ⟨hs, hl⟩ := h (hfirst.mp (by omega))
        exact hnot ⟨hs, fun m hm => by have := hl m hm; omega⟩
    · rw [List.map_take]
      exact hnodup.sublist (List.take_sublist ..)

/-! ## All paths -/

variable {session : SessionVars} (init : String → Option String)

/-- A call that has a connection goes on with its variables. -/
theorem cleared_of_goes {first : MysqlCall Unit} {statement : MysqlCall (Except SqlError α)} {len : Nat}
    (hquiet : effects env drop took 0 first = []) (hgoes : Goes env drop 0 first () len)
    (hstatement : OneStatement env drop took statement) (hdrop : ∀ m ∈ drop, len ≤ m) :
    Cleared init (effects env drop took 0 (first >>= fun _ => setRunClear session statement)) ↔
      (FirstTakes env drop took len session.values.entries →
        SetsSucceed env len session.values.entries ∧
          ∀ m ∈ drop, len + 2 * session.values.entries.length ≤ m) := by
  rw [effects_bind_goes hgoes, hquiet, Nat.zero_add]
  exact cleared_setRunClear hstatement hdrop init

/-- A call that gets no connection sets nothing. -/
theorem cleared_of_stops {first : MysqlCall Unit} {f : Unit → MysqlCall α}
    (hquiet : effects env drop took 0 first = []) (hstops : Stops env drop 0 first) :
    Cleared init (effects env drop took 0 (first >>= f)) := by
  rw [effects_bind_stops hstops, hquiet]
  exact nofun

variable (env drop took) in
theorem acquire_cases :
    effects env drop took 0 acquire = [] ∧
      ((drop ≠ some 0 ∧ (env 0 .acquire : Except SqlError Unit) = .ok () ∧
          Goes env drop 0 acquire () 1) ∨
        (¬(drop ≠ some 0 ∧ (env 0 .acquire : Except SqlError Unit) = .ok ()) ∧
          Stops env drop 0 acquire)) := by
  have hcall : acquire = .ask .acquire (Prog.ofExcept ·) := rfl
  by_cases hn : drop = some 0
  · refine ⟨?_, .inr ⟨fun h => h.1 hn, .inl ⟨_, by rw [hcall, cut_ask_drop hn]⟩⟩⟩
    unfold effects
    rw [hcall, cut_ask_drop hn]
    rfl
  · have hcut : Prog.cut env drop 0 acquire = ([⟨.acquire, env 0 .acquire⟩], none) := by
      rw [hcall, cut_ask hn, Prog.cut_ofExcept]
    refine ⟨by unfold effects; rw [hcut]; rfl, ?_⟩
    cases hacquire : (env 0 .acquire : Except SqlError Unit) with
    | ok u =>
      refine .inl ⟨hn, rfl, by rw [hcut], ?_, by rw [hcut]; rfl⟩
      show Prog.result env 1 (Prog.ofExcept (env 0 .acquire)) = _
      rw [hacquire]
      rfl
    | error e =>
      refine .inr ⟨fun h => absurd h.2 nofun, .inr ⟨e, ?_⟩⟩
      show Prog.result env 1 (Prog.ofExcept (env 0 .acquire)) = _
      rw [hacquire]
      rfl

/-- The id of the connection, once there is one. -/
def askId : MysqlCall Unit := .ask .connectionId fun reply => Prog.ofExcept reply >>= fun _ => .pure ()

theorem acquireWithId_eq : acquireWithId = acquire >>= fun _ => askId := by
  unfold acquireWithId
  exact congrArg (acquire >>= ·) (funext fun _ => rfl)

variable (env drop took) in
theorem askId_cases :
    effects env drop took 1 askId = [] ∧
      ((drop ≠ some 1 ∧ (∃ id, (env 1 .connectionId : Except SqlError Nat) = .ok id) ∧
          Goes env drop 1 askId () 1) ∨
        (¬(drop ≠ some 1 ∧ ∃ id, (env 1 .connectionId : Except SqlError Nat) = .ok id) ∧
          Stops env drop 1 askId)) := by
  by_cases hn : drop = some 1
  · refine ⟨?_, .inr ⟨fun h => h.1 hn, .inl ⟨_, by rw [askId, cut_ask_drop hn]⟩⟩⟩
    unfold effects
    rw [askId, cut_ask_drop hn]
    rfl
  · cases hid : (env 1 .connectionId : Except SqlError Nat) with
    | ok id =>
      have hcut : Prog.cut env drop 1 askId = ([⟨.connectionId, env 1 .connectionId⟩], none) := by
        rw [askId, cut_ask hn, hid]
        rfl
      refine ⟨by unfold effects; rw [hcut]; rfl, .inl ⟨hn, ⟨id, rfl⟩, by rw [hcut], ?_, by rw [hcut]; rfl⟩⟩
      show Prog.result env 2 (Prog.ofExcept (env 1 .connectionId) >>= fun _ => .pure ()) = _
      rw [hid]
      rfl
    | error e =>
      have hcut : Prog.cut env drop 1 askId = ([⟨.connectionId, env 1 .connectionId⟩], none) := by
        rw [askId, cut_ask hn, hid]
        rfl
      refine ⟨by unfold effects; rw [hcut]; rfl, .inr ⟨?_, .inr ⟨e, ?_⟩⟩⟩
      · rintro ⟨-, id, h⟩
        exact absurd h nofun
      · show Prog.result env 2 (Prog.ofExcept (env 1 .connectionId) >>= fun _ => .pure ()) = _
        rw [hid]
        rfl

/-- A call on a connection of the pool. -/
theorem cleared_acquire {statement : MysqlCall (Except SqlError α)}
    (hstatement : OneStatement env drop took statement) :
    Cleared init (effects env drop took 0 (acquire >>= fun _ => setRunClear session statement)) ↔
      (drop ≠ some 0 ∧ (env 0 .acquire : Except SqlError Unit) = .ok () →
        FirstTakes env drop took 1 session.values.entries → SetsSucceed env 1 session.values.entries ∧
          ∀ m ∈ drop, 1 + 2 * session.values.entries.length ≤ m) := by
  obtain ⟨hquiet, ⟨hn, hok, hgoes⟩ | ⟨hnot, hstops⟩⟩ := acquire_cases env drop took
  · have hdrop : ∀ m ∈ drop, 1 ≤ m := by
      intro m hm
      have : m ≠ 0 := by
        rintro rfl
        exact hn hm
      omega
    rw [cleared_of_goes init hquiet hgoes hstatement hdrop]
    exact ⟨fun h _ => h, fun h => h ⟨hn, hok⟩⟩
  · exact iff_of_true (cleared_of_stops init hquiet hstops) fun h => absurd h hnot

/-- A call on a connection whose id it asks for. -/
theorem cleared_acquireWithId (how : Submit) :
    Cleared init (effects env drop took 0 (executeWithId how session)) ↔
      (drop ≠ some 0 ∧ drop ≠ some 1 ∧ (env 0 .acquire : Except SqlError Unit) = .ok () ∧
          (∃ id, (env 1 .connectionId : Except SqlError Nat) = .ok id) →
        FirstTakes env drop took 2 session.values.entries → SetsSucceed env 2 session.values.entries ∧
          ∀ m ∈ drop, 2 + 2 * session.values.entries.length ≤ m) := by
  have hcall : executeWithId how session = acquire >>= fun _ => askId >>= fun _ =>
      setRunClear session (runStatement how) := by
    rw [executeWithId, acquireWithId_eq, Prog.bind_assoc]
  rw [hcall]
  obtain ⟨hquiet, ⟨hn, hok, hgoes⟩ | ⟨hnot, hstops⟩⟩ := acquire_cases env drop took
  · rw [effects_bind_goes hgoes, hquiet]
    obtain ⟨hquiet', ⟨hn', hid, hgoes'⟩ | ⟨hnot, hstops⟩⟩ := askId_cases env drop took
    · have hdrop : ∀ m ∈ drop, 2 ≤ m := by
        intro m hm
        have h0 : m ≠ 0 := by
          rintro rfl
          exact hn hm
        have h1 : m ≠ 1 := by
          rintro rfl
          exact hn' hm
        omega
      rw [show 0 + 1 = 1 from rfl, effects_bind_goes hgoes', hquiet', List.nil_append, List.nil_append,
        cleared_setRunClear (oneStatement_runStatement how) hdrop]
      exact ⟨fun h _ => h, fun h => h ⟨hn, hn', hok, hid⟩⟩
    · refine iff_of_true ?_ fun h => absurd ⟨h.2.1, h.2.2.2⟩ hnot
      rw [show 0 + 1 = 1 from rfl, effects_bind_stops hstops, hquiet']
      exact nofun
  · exact iff_of_true (cleared_of_stops init hquiet hstops) fun h => absurd ⟨h.1, h.2.2.1⟩ hnot

theorem cleared_executeOn (how : Submit) :
    Cleared init (effects env drop took 0 (executeOn how session)) ↔
      (drop ≠ some 0 ∧ (env 0 .acquire : Except SqlError Unit) = .ok () →
        FirstTakes env drop took 1 session.values.entries → SetsSucceed env 1 session.values.entries ∧
          ∀ m ∈ drop, 1 + 2 * session.values.entries.length ≤ m) := by
  rw [executeOn]
  split
  · -- No variables: the pool runs the statement.
    rename_i hempty
    rw [List.isEmpty_iff.mp hempty]
    have hone : OneStatement env drop took (runStatement how) := oneStatement_runStatement how
    refine iff_of_true ?_ fun _ h => h.elim
    by_cases hn : drop = some 0
    · rw [effects_bind_stops (hone.stops 0 hn), hone.quiet]
      exact nofun
    · obtain ⟨reply, hreply⟩ := hone.goes 0 hn
      rw [effects_bind_goes hreply, hone.quiet]
      unfold effects
      rw [Prog.cut_ofExcept]
      exact nofun
  · exact cleared_acquire init (oneStatement_runStatement how)

theorem cleared_executeInTx (inner : Bool) (how : Submit) :
    Cleared init (effects env drop took 0 (executeInTx inner how session)) ↔
      (inner = true → FirstTakes env drop took 0 session.values.entries →
        SetsSucceed env 0 session.values.entries ∧
          ∀ m ∈ drop, 0 + 2 * session.values.entries.length ≤ m) := by
  rw [executeInTx]
  split
  · rename_i hinner
    rw [cleared_setRunClear (oneStatement_runStatement how) fun m _ => Nat.zero_le m]
    exact ⟨fun h _ => h, fun h => h hinner⟩
  · rename_i hinner
    exact iff_of_true nofun fun h => absurd h hinner

/-- Exactly when a call leaves none of its variables behind. -/
theorem vars_cleared_iff (path : MysqlPath) (session : SessionVars)
    (env : Nat → (q : MysqlQuestion) → MysqlAnswer q) (drop : Option Nat) (took : Bool)
    (init : String → Option String) :
    Cleared init (effects env drop took 0 (path.call session)) ↔
      ClearsWhatItSets env drop took session path := by
  cases path with
  | execute => exact cleared_executeOn init .execute
  | executeAffected => exact cleared_executeOn init .executeAffected
  | executeWithCtx => exact cleared_acquireWithId init .execute
  | executeAffectedWithCtx => exact cleared_acquireWithId init .executeAffected
  | executeMultiResult => exact cleared_acquire init oneStatement_runStream
  | txExecute inner => exact cleared_executeInTx init inner .execute
  | txExecuteAffected inner => exact cleared_executeInTx init inner .executeAffected

end

/-! ## A variable that stays -/

/-- A server that refuses `SET @user_id`. -/
def refusesUserId : Nat → (q : MysqlQuestion) → MysqlAnswer q
  | _, .acquire | _, .clear _ => (.ok () : Except SqlError Unit)
  | _, .set k _ => if k = "user_id" then .error (.execute "refused") else .ok ()
  | _, .connectionId => (.ok 7 : Except SqlError Nat)
  | _, .statement .execute => (.ok {} : Except SqlError RowBatch)
  | _, .statement .executeAffected => (.ok 0 : Except SqlError Nat)
  | _, .statement .executeMultiResult => (.ok [] : Except SqlError (List (List Value)))
  | _, .stream => (([], .ok ()) : List StreamItem × Except SqlError Unit)

def tenantSession : SessionVars :=
  ⟨OrdMap.empty.insert "user_id" "u1" |>.insert "tenant_id" "acme"⟩

/-- The tenant goes back to the pool with the connection. -/
theorem tenant_left_behind :
    effects refusesUserId none false 0 (MysqlPath.execute.call tenantSession) =
        [.set "tenant_id" "acme"] ∧
      ¬Cleared (fun _ => none) (effects refusesUserId none false 0 (MysqlPath.execute.call tenantSession)) := by
  have heffects : effects refusesUserId none false 0 (MysqlPath.execute.call tenantSession) =
      [.set "tenant_id" "acme"] := by decide
  refine ⟨heffects, fun h => ?_⟩
  rw [heffects] at h
  exact absurd (h "tenant_id" "acme" List.mem_cons_self) (by decide)

end McpgSql.Driver
