import Mathlib.Logic.Function.Basic
import McpgSql.Cache.Separation
import McpgSql.Changes.Plan
import McpgSql.Execute.Args
import McpgSql.Pool.Sharing

/-!
# Calls of a cached binding

What a call of a binding with `cache.enabled` and credential references does before
its query runs: its credentials are resolved for the caller, its parameters bound, and
its response is looked up under the key of the parameters and the resolved session
variables. A call that finds an entry is answered by it; a call that finds none may
store one when its query is done, after any number of other calls (`machine`).

A call is answered by an entry of another one exactly where the two have one key
(`neverCrosses_iff`).
-/

namespace McpgSql.Cache

open Library McpgSql.Pool McpgSql.Execute McpgSql.Stream

/-! ## Configuration -/

/-- The tracking query of a cache, and how often it is run. -/
structure CacheInvalidateOn where
  sql : String
  intervalMs : Nat := 1000

structure CacheSpec where
  enabled : Bool := false
  ttlSeconds : Nat := 60
  invalidateOn : Option CacheInvalidateOn := none

def CacheInvalidateOn.validate (guards : Changes.Guards) (inv : CacheInvalidateOn) :
    Except SqlError Unit := do
  if inv.sql.toList.all isWhiteSpace then
    throw (.invalidSpec "cache.invalidate_on.sql must not be empty")
  guards.rejectMultiStatement inv.sql
  guards.rejectPrivilegedDdl inv.sql
  if inv.intervalMs < 100 then
    throw (.invalidSpec ("cache.invalidate_on.interval_ms (" ++ toString inv.intervalMs ++
      " ms) is below the 100 ms floor"))

/-- Why a row mode is not cached. -/
def uncachedRowMode : RowMode → Option String
  | .single | .many | .scalar | .resourceContents => none
  | .affectedRows => some ("cache.enabled is invalid for row_mode: affected_rows — " ++
      "caching a write statement would silently skip its side effect on hits.")
  | .stream => some ("cache.enabled is invalid for row_mode: stream — streaming responses are " ++
      "paged via keyset cursor and each page would need its own cache entry; not yet supported.")
  | .resultSets => some ("cache.enabled is invalid for row_mode: result_sets — stored " ++
      "procedures may have side effects (OUT params, implicit transactions) that must run " ++
      "every call.")

/-- The checks that `validate` makes of a cache. -/
def CacheSpec.validate (guards : Changes.Guards) (query : QueryShape) (cache : CacheSpec) :
    Except SqlError Unit := do
  if cache.enabled then
    match uncachedRowMode query.rowMode with
    | some message => throw (.invalidSpec message)
    | none => pure ()
    match query.body with
    | .procedure _ => throw (.invalidSpec ("cache.enabled is invalid when query.body is a " ++
        "procedure — procedures may have side effects that must run every call."))
    | _ => pure ()
    match cache.invalidateOn with
    | some inv => inv.validate guards
    | none => pure ()

/-- The URL or a session variable carries a token. -/
def configHasCredRefs (syn : CredSyntax) (cfg : CredConfig) : Bool :=
  !(syn.credTokens cfg.url).isEmpty ||
    cfg.sessionVars.entries.any fun var => !(syn.credTokens var.2).isEmpty

/-- A registered binding with a cache and credential references. -/
structure CachedProfile (δ : Type) where
  backendName : String
  syn : CredSyntax
  cfg : CredConfig
  blake3 : List UInt8 → δ
  query : QueryShape
  cache : CacheSpec
  guards : Changes.Guards
  rt : ProfileRuntime
  enabled : cache.enabled
  validated : cache.validate guards query = .ok ()
  credRefs : configHasCredRefs syn cfg
  /-- `register_profile` makes a stream runtime in the row mode of streams. -/
  stream : rt.streamRt.isSome → query.rowMode = .stream

/-! ## Lookups -/

variable {δ : Type}

/-- A call at its `cache_get`: what it resolved, and what its key is made of. -/
structure Looked (δ : Type) where
  creds : ResolvedCreds δ
  call : Call
deriving DecidableEq

/-- The same URL and session variables, and so the same pool. -/
structure SameCreds (r r' : ResolvedCreds δ) : Prop where
  url : r.url = r'.url
  sessionVars : r.sessionVars = r'.sessionVars
  digest : r.digest = r'.digest

/-- The calls that found an entry, each with the call that stored it, and those that
found none and have not stored theirs. -/
structure CacheState (δ : Type) where
  entries : String → Option (Looked δ) := fun _ => none
  missed : List (Looked δ) := []
  served : List (Looked δ × Looked δ) := []

inductive CacheAction where
  /-- A request, with the host's answer to it, under a version of the cache. -/
  | call (request : BackendRequest)
      (resolveCredentials : Value → Except BackendHostError Value) (version : UInt64)
  /-- A call whose query is done stores its response. -/
  | put (i : Nat)
  | expire (key : String)

namespace CachedProfile

variable (p : CachedProfile δ) (redact : String → String) (cursorLib : CursorLib) (lib : Lib)

/-- What the key of a call is made of. -/
def callOf (sessionVars : OrdMap String String) (boundParams : List BoundParam)
    (version : UInt64) : Call where
  backendName := p.backendName
  sqlText := p.rt.stmt.sql
  boundParams
  sessionVars := ⟨sessionVars⟩
  version

/-- A call up to its `cache_get`; an `await` block makes none. -/
def look (request : BackendRequest)
    (resolveCredentials : Value → Except BackendHostError Value) (version : UInt64) :
    Except BackendError (Option (Looked δ)) :=
  match p.rt.awaitRt with
  | some _ => .ok none
  | none => do
    let creds ← resolveCredsFor p.syn p.cfg p.blake3 resolveCredentials
    let boundParams ← bindStmt redact cursorLib p.rt p.backendName request p.rt.stmt
    .ok (some { creds, call := p.callOf creds.sessionVars boundParams version })

/-- A call that some request makes. -/
def Looks (l : Looked δ) : Prop :=
  ∃ request resolveCredentials version,
    p.look redact cursorLib request resolveCredentials version = .ok (some l)

def next (s : CacheState δ) : CacheAction → CacheState δ
  | .call request resolveCredentials version =>
    match p.look redact cursorLib request resolveCredentials version with
    | .ok (some l) => match s.entries (l.call.key lib) with
      | some stored => { s with served := (stored, l) :: s.served }
      | none => { s with missed := l :: s.missed }
    | .ok none | .error _ => s
  | .put i => match s.missed[i]? with
    | some l => { s with
        entries := Function.update s.entries (l.call.key lib) (some l)
        missed := s.missed.eraseIdx i }
    | none => s
  | .expire key => { s with entries := Function.update s.entries key none }

/-- The runs of the binding's calls. -/
def machine : Machine (CacheState δ) CacheAction where
  init s := s = {}
  step s a s' := s' = p.next redact cursorLib lib s a

/-- In no run is a call answered by an entry that a call with other credentials
stored. -/
def NeverCrosses : Prop :=
  ∀ s, (p.machine redact cursorLib lib).Reach (fun _ _ => True) s →
    ∀ c ∈ s.served, SameCreds c.1.creds c.2.creds

/-! ## Keys of served calls -/

/-- An entry stands under the key of the call that stored it. -/
structure Inv (s : CacheState δ) : Prop where
  entries : ∀ key, ∀ l ∈ s.entries key, p.Looks redact cursorLib l ∧ l.call.key lib = key
  missed : ∀ l ∈ s.missed, p.Looks redact cursorLib l
  served : ∀ c ∈ s.served, p.Looks redact cursorLib c.1 ∧ p.Looks redact cursorLib c.2 ∧
    c.1.call.key lib = c.2.call.key lib

variable {p redact cursorLib lib} {s : CacheState δ}

/-- A call resolves its credentials, and its key is made of their variables and of what
the request binds. -/
theorem looks_iff {l : Looked δ} : p.Looks redact cursorLib l ↔
    p.rt.awaitRt = none ∧ Resolves p.syn p.cfg p.blake3 l.creds ∧
      ∃ request boundParams version,
        bindStmt redact cursorLib p.rt p.backendName request p.rt.stmt = .ok boundParams ∧
        l.call = p.callOf l.creds.sessionVars boundParams version := by
  simp only [Looks, look]
  cases p.rt.awaitRt with
  | some aw => simp
  | none =>
    constructor
    · rintro ⟨request, resolve, version, h⟩
      obtain ⟨creds, hcreds, h⟩ := bind_eq_ok.mp h
      obtain ⟨boundParams, hbound, h⟩ := bind_eq_ok.mp h
      cases h
      exact ⟨rfl, ⟨resolve, hcreds⟩, request, boundParams, version, hbound, rfl⟩
    · rintro ⟨-, ⟨resolve, hcreds⟩, request, boundParams, version, hbound, hcall⟩
      refine ⟨request, resolve, version, ?_⟩
      refine bind_eq_ok.mpr ⟨_, hcreds, bind_eq_ok.mpr ⟨_, hbound, ?_⟩⟩
      rw [← hcall]

theorem Inv.setEntry (h : p.Inv redact cursorLib lib s) {key : String} {l : Option (Looked δ)}
    (hl : ∀ l' ∈ l, p.Looks redact cursorLib l' ∧ l'.call.key lib = key) :
    p.Inv redact cursorLib lib { s with entries := Function.update s.entries key l } where
  entries := (Function.forall_update_iff s.entries (fun key l =>
    ∀ l' ∈ l, p.Looks redact cursorLib l' ∧ l'.call.key lib = key)).mpr
      ⟨hl, fun key _ => h.entries key⟩
  missed := h.missed
  served := h.served

/-- Every action keeps the invariant. -/
theorem Inv.next (h : p.Inv redact cursorLib lib s) (a : CacheAction) :
    p.Inv redact cursorLib lib (p.next redact cursorLib lib s a) := by
  cases a with
  | call request resolveCredentials version =>
    simp only [CachedProfile.next]
    split
    · rename_i l hl
      have hlooks : p.Looks redact cursorLib l := ⟨request, resolveCredentials, version, hl⟩
      split
      · rename_i stored hstored
        obtain ⟨hs, hkey⟩ := h.entries _ _ hstored
        exact ⟨h.entries, h.missed, List.forall_mem_cons.mpr ⟨⟨hs, hlooks, hkey⟩, h.served⟩⟩
      · exact ⟨h.entries, List.forall_mem_cons.mpr ⟨hlooks, h.missed⟩, h.served⟩
    · exact h
    · exact h
  | put i =>
    simp only [CachedProfile.next]
    split
    · rename_i l hl
      have hput := h.setEntry (l := some l) fun l' hl' => by
        cases hl'
        exact ⟨h.missed l (List.mem_of_getElem? hl), rfl⟩
      exact ⟨hput.entries, fun l' hl' => h.missed l' (List.mem_of_mem_eraseIdx hl'), h.served⟩
    · exact h
  | expire key => exact h.setEntry fun _ hl => by cases hl

theorem inv_of_reach (h : (p.machine redact cursorLib lib).Reach (fun _ _ => True) s) :
    p.Inv redact cursorLib lib s := by
  refine h.invariant (fun hs => ?_) (fun _ hst hI => ?_)
  · rw [show _ = _ from hs]
    exact ⟨by simp, by simp, by simp⟩
  · rw [show _ = _ from hst]
    exact hI.next _

/-- A call that follows one with its key is answered by that one's entry. -/
theorem exists_served {a b : Looked δ} (ha : p.Looks redact cursorLib a)
    (hb : p.Looks redact cursorLib b) (hkey : a.call.key lib = b.call.key lib) :
    ∃ s, (p.machine redact cursorLib lib).Reach (fun _ _ => True) s ∧ (a, b) ∈ s.served := by
  obtain ⟨requestA, resolveA, versionA, hlookA⟩ := ha
  obtain ⟨requestB, resolveB, versionB, hlookB⟩ := hb
  refine ⟨_, .step (a := .call requestB resolveB versionB) (.step (a := .put 0)
    (.step (a := .call requestA resolveA versionA) (.init rfl) trivial rfl) trivial rfl)
    trivial rfl, ?_⟩
  simp [CachedProfile.next, hlookA, hlookB, hkey]

/-- Calls of one key have the same credentials. -/
theorem neverCrosses_iff : p.NeverCrosses redact cursorLib lib ↔
    ∀ a b, p.Looks redact cursorLib a → p.Looks redact cursorLib b →
      a.call.key lib = b.call.key lib → SameCreds a.creds b.creds := by
  constructor
  · intro h a b ha hb hkey
    obtain ⟨s, hs, hmem⟩ := exists_served ha hb hkey
    exact h s hs _ hmem
  · intro h s hs c hc
    obtain ⟨ha, hb, hkey⟩ := (inv_of_reach hs).served c hc
    exact h _ _ ha hb hkey

end CachedProfile

end McpgSql.Cache
