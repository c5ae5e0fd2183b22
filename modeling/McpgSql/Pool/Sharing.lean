import McpgSql.Library.Machine
import McpgSql.Pool.Creds
import McpgSql.Pool.Registry

/-!
# Which callers share a pool

The calls of a profile with credential references, over its registry: every call
resolves its credentials and asks the registry for the pool of their digest;
revocations, secret rotations and idle sweeps come between the calls in any
order. A pool is named by its place in the order of their opening.

Calls that get one pool have one digest (`Inv`), and a call whose lines are
separate shares it with callers of the same credentials only.
-/

namespace McpgSql.Pool

open Library

variable {δ : Type} [LinearOrder δ]

/-- The registry, for which digest each pool was opened, and the calls that got a
pool with the credentials they resolved. -/
structure State (δ : Type) [LinearOrder δ] where
  pools : Pools δ Nat
  opened : List δ
  served : List (ResolvedCreds δ × Nat)

/-- What happens to the registry: a call, with the host's answer to it and
whether a connection can be opened; a revocation; a rotation; a sweep. -/
inductive Action where
  | call (now : Nat) (resolveCredentials : Value → Except BackendHostError Value)
      (connect : Except SqlError Unit)
  | revoke (pluginId target : String)
  | rotate
  | sweep (now : Nat)

/-- What is fixed for a profile. -/
structure Profile (δ : Type) where
  syn : CredSyntax
  cfg : CredConfig
  config : PoolRegistryConfig
  blake3 : List UInt8 → δ

namespace Profile

variable (profile : Profile δ)

/-- `build_pool_with_url`: the next pool, where the driver connects. -/
def build (s : State δ) (connect : Except SqlError Unit) : Unit → Except SqlError Nat :=
  fun _ => connect.map fun _ => s.opened.length

/-- A call with these credentials. -/
def serve (s : State δ) (now : Nat) (connect : Except SqlError Unit) (r : ResolvedCreds δ) :
    State δ :=
  match getOrBuild profile.config now r.digest r.credKeys (build s connect) s.pools with
  | (.ok n, pools) =>
    { pools
      opened := if n = s.opened.length then s.opened ++ [r.digest] else s.opened
      served := (r, n) :: s.served }
  | (.error _, pools) => { s with pools }

/-- The state after an action; a call whose credentials do not resolve changes
nothing. -/
def next (s : State δ) : Action → State δ
  | .call now resolveCredentials connect =>
    match resolveCredsFor profile.syn profile.cfg profile.blake3 resolveCredentials with
    | .ok r => profile.serve s now connect r
    | .error _ => s
  | .revoke pluginId target => { s with pools := (evictFor pluginId target s.pools).2 }
  | .rotate => { s with pools := (evictForSecret s.pools).2 }
  | .sweep now => { s with pools := (sweepIdle profile.config now s.pools).2 }

/-- The runs of the profile. -/
def machine : Machine (State δ) Action where
  init s := s = ⟨OrdMap.empty, [], []⟩
  step s a s' := s' = profile.next s a

/-! ## Digests of pools -/

/-- Every entry stands under the digest its pool was opened for, and every call
got a pool opened for its digest. -/
structure Inv (s : State δ) : Prop where
  entry : ∀ d e, s.pools.get? d = some e → s.opened[e.pool]? = some d
  served : ∀ c ∈ s.served, s.opened[c.2]? = some c.1.digest
  resolves : ∀ c ∈ s.served, Resolves profile.syn profile.cfg profile.blake3 c.1

variable {profile} {s : State δ}

/-- Dropping pools keeps the invariant. -/
theorem Inv.drop (h : Inv profile s) {pools : Pools δ Nat}
    (hp : ∀ d e, pools.get? d = some e → s.pools.get? d = some e) :
    Inv profile { s with pools } :=
  ⟨fun d e he => h.entry d e (hp d e he), h.served, h.resolves⟩

/-- A call keeps the invariant. -/
theorem Inv.serve (h : Inv profile s) {now : Nat} {connect : Except SqlError Unit}
    {r : ResolvedCreds δ} (hr : Resolves profile.syn profile.cfg profile.blake3 r) :
    Inv profile (profile.serve s now connect r) := by
  rw [Profile.serve]
  cases hg : getOrBuild profile.config now r.digest r.credKeys (build s connect) s.pools with
  | mk answer pools =>
    cases answer with
    | error e =>
      obtain ⟨rfl, -⟩ := getOrBuild_error hg
      exact h
    | ok n =>
      obtain ⟨hn, hpools⟩ := getOrBuild_ok hg
      have hresolves : ∀ c ∈ (r, n) :: s.served,
          Resolves profile.syn profile.cfg profile.blake3 c.1 := fun c hc => by
        rcases List.mem_cons.mp hc with rfl | hc
        · exact hr
        · exact h.resolves c hc
      -- The pools opened before keep their digests, and pool `n` has the one of the call.
      have hkeep : ∀ (m : Nat) (d : δ), s.opened[m]? = some d →
          (if n = s.opened.length then s.opened ++ [r.digest] else s.opened)[m]? = some d := by
        intro m d hm
        split
        · rw [List.getElem?_append_left (List.getElem?_eq_some_iff.mp hm).1]
          exact hm
        · exact hm
      have hnew : (if n = s.opened.length then s.opened ++ [r.digest] else s.opened)[n]? =
          some r.digest := by
        rcases hn with ⟨e, he, rfl⟩ | ⟨-, hb⟩
        · exact hkeep _ _ (h.entry _ _ he)
        · obtain rfl : s.opened.length = n := by
            cases connect with
            | error e => cases hb
            | ok u => exact Except.ok.inj hb
          simp
      refine ⟨fun d e he => ?_, fun c hc => ?_, hresolves⟩
      · rcases hpools d e he with ⟨rfl, hpool⟩ | ⟨-, he⟩
        · exact hpool ▸ hnew
        · exact hkeep _ _ (h.entry d e he)
      · rcases List.mem_cons.mp hc with rfl | hc
        · exact hnew
        · exact hkeep _ _ (h.served c hc)

/-- Every action keeps the invariant. -/
theorem Inv.next (h : Inv profile s) (a : Action) : Inv profile (profile.next s a) := by
  cases a with
  | call now resolveCredentials connect =>
    rw [Profile.next]
    cases hr : resolveCredsFor profile.syn profile.cfg profile.blake3 resolveCredentials with
    | error e => exact h
    | ok r => exact h.serve ⟨resolveCredentials, hr⟩
  | revoke pluginId target =>
    refine h.drop fun d e he => ?_
    rw [evictFor, OrdMap.get?_filter] at he
    exact (Option.filter_eq_some_iff.mp he).1
  | rotate => exact h.drop fun d e he => by simp [evictForSecret] at he
  | sweep now =>
    refine h.drop fun d e he => ?_
    rw [sweepIdle, OrdMap.get?_filter] at he
    exact (Option.filter_eq_some_iff.mp he).1

/-- The invariant holds along every run. -/
theorem inv_reach {ok : State δ → Action → Prop} (h : profile.machine.Reach ok s) :
    Inv profile s := by
  refine h.invariant (fun hs => ?_) (fun _ hst hI => ?_)
  · rw [show _ = _ from hs]
    exact ⟨by simp, by simp, by simp⟩
  · rw [show _ = _ from hst]
    exact hI.next _

/-- A call whose lines are separate shares its pool with calls of the same URL
and session variables only. -/
theorem shared_pool_same_creds (hinj : Function.Injective profile.blake3)
    {ok : State δ → Action → Prop} (h : profile.machine.Reach ok s) {r r' : ResolvedCreds δ}
    {n : Nat} (hr : (r, n) ∈ s.served) (hr' : (r', n) ∈ s.served)
    (hsep : SeparateLines (r.pairs profile.syn profile.cfg)) :
    r.url = r'.url ∧ r.sessionVars = r'.sessionVars := by
  have hI := inv_reach h
  have hres : Resolves profile.syn profile.cfg profile.blake3 r := hI.resolves _ hr
  have hres' : Resolves profile.syn profile.cfg profile.blake3 r' := hI.resolves _ hr'
  have hdigest : r.digest = r'.digest :=
    Option.some.inj ((hI.served _ hr).symm.trans (hI.served _ hr'))
  rw [hres.digest_eq, hres'.digest_eq] at hdigest
  have hown := (digest_own_among_iff hinj (pairs_distinct hres) (pairs_plain hres)).mpr hsep
  refine creds_eq_of_pairs hres hres' ((hown _ ?_).mp hdigest)
  show ((r'.pairs profile.syn profile.cfg).map Prod.fst).Perm _
  rw [digestPairs_names hres, digestPairs_names hres']

end Profile

/-- A bundle has a digest of its own exactly when it is one pair at most and has no
`=` in it; among bundles of the same plain fields, exactly when its lines are
separate; and in every run of a profile, a call with such a bundle shares its
pool with calls of the same URL and session variables only. -/
theorem digest_separates {blake3 : List UInt8 → δ} (hinj : Function.Injective blake3) :
    (∀ a, Distinct a →
      (OwnDigest blake3 Distinct a ↔ a.length ≤ 1 ∧ ∀ p ∈ a, NoMark p)) ∧
    (∀ a, Distinct a → (∀ p ∈ a, Plain '=' '\n' p.1.toList) →
      (OwnDigest blake3 (fun b => (b.map Prod.fst).Perm (a.map Prod.fst)) a ↔ SeparateLines a)) ∧
    ∀ (profile : Profile δ) (s : State δ), profile.blake3 = blake3 →
      profile.machine.Reach (fun _ _ => True) s →
      ∀ r r' n, (r, n) ∈ s.served → (r', n) ∈ s.served →
        SeparateLines (r.pairs profile.syn profile.cfg) →
        r.url = r'.url ∧ r.sessionVars = r'.sessionVars := by
  refine ⟨fun a ha => digest_own_iff hinj ha,
    fun a ha hplain => digest_own_among_iff hinj ha hplain, fun profile s hb h r r' n hr hr' hsep => ?_⟩
  subst hb
  exact Profile.shared_pool_same_creds hinj h hr hr' hsep

/-! ## Two callers -/

/-- The URI of a text that is one token. -/
def wholeToken (s : String) : Option String :=
  if "$\x7bcred://".toList <+: s.toList ∧ s.toList.getLast? = some '}' then
    some (String.ofList ((s.toList.drop 2).dropLast))
  else none

/-- References in texts that are one token each. -/
def wholeSyntax : CredSyntax where
  credTokens s := (wholeToken s).toList
  substituteCredTokens s creds := ((wholeToken s).bind (Assoc.get? creds)).getD s
  parseCredRef _ := none

/-- A profile with a role and a tenant that the issuer `idp` resolves. -/
def idpProfile : Profile String where
  syn := wholeSyntax
  cfg :=
    { url := "postgres://app@db/orders"
      sessionVars := (OrdMap.empty.insert "app.role" "$\x7bcred://idp/role\x7d").insert
        "app.tenant" "$\x7bcred://idp/tenant\x7d"
      identifiers := by decide }
  config := {}
  blake3 bytes := String.ofList (bytes.map Char.ofUInt8)

theorem idpProfile_injective : Function.Injective idpProfile.blake3 := latin1_injective

/-- A call of a caller with this role and tenant. -/
def idpCall (role tenant : String) : Action :=
  .call 0 (fun _ => .ok (.object [("cred://idp/role", .str role), ("cred://idp/tenant", .str tenant)]))
    (.ok ())

/-- The run of two callers. -/
def twoCallers (a b : Action) : State String :=
  idpProfile.next (idpProfile.next ⟨OrdMap.empty, [], []⟩ a) b

theorem twoCallers_reach (a b : Action) :
    idpProfile.machine.Reach (fun _ _ => True) (twoCallers a b) :=
  .step (.step (.init rfl) trivial rfl) trivial rfl

/-- The bundle of a caller with this role and tenant. -/
def idpBundle (role tenant : String) : List (String × String) :=
  [("url", "postgres://app@db/orders"), ("session_vars.app.role", role),
    ("session_vars.app.tenant", tenant)]

/-- Callers of two tenants, without line breaks: each bundle has its own digest
among those of the profile's fields, and each caller its own pool. -/
theorem tenants_have_own_pools :
    OwnDigest idpProfile.blake3
        (fun b => (b.map Prod.fst).Perm ((idpBundle "ro" "acme").map Prod.fst))
        (idpBundle "ro" "acme") ∧
      (twoCallers (idpCall "ro" "acme") (idpCall "ro" "bravo")).served.map Prod.snd = [1, 0] ∧
      ∀ r r' n, (r, n) ∈ (twoCallers (idpCall "ro" "acme") (idpCall "ro" "bravo")).served →
        (r', n) ∈ (twoCallers (idpCall "ro" "acme") (idpCall "ro" "bravo")).served →
        SeparateLines (r.pairs idpProfile.syn idpProfile.cfg) →
        r.url = r'.url ∧ r.sessionVars = r'.sessionVars := by
  have h := digest_separates idpProfile_injective
  refine ⟨(h.2.1 _ (by decide) (by decide)).mpr (by decide), by decide, ?_⟩
  exact h.2.2 idpProfile _ rfl (twoCallers_reach _ _)

/-- A role with a line break reads as a role and a tenant: two bundles have one
digest, and the second caller gets the pool of the first. -/
theorem callers_share_pool :
    Distinct (idpBundle "x\nsession_vars.app.tenant=y" "z") ∧
      Distinct (idpBundle "x" "y\nsession_vars.app.tenant=z") ∧
      (∀ blake3 : List UInt8 → String,
        digestCredentialBundle blake3 (idpBundle "x\nsession_vars.app.tenant=y" "z") =
          digestCredentialBundle blake3 (idpBundle "x" "y\nsession_vars.app.tenant=z")) ∧
      ¬(idpBundle "x\nsession_vars.app.tenant=y" "z").Perm
        (idpBundle "x" "y\nsession_vars.app.tenant=z") ∧
      (twoCallers (idpCall "x\nsession_vars.app.tenant=y" "z")
          (idpCall "x" "y\nsession_vars.app.tenant=z")).served.map
        (fun c => (c.1.sessionVars.get? "app.tenant", c.2)) =
        [(some "y\nsession_vars.app.tenant=z", 0), (some "z", 0)] := by
  refine ⟨by decide, by decide, fun blake3 => congrArg blake3 ?_, by decide, by decide⟩
  decide

end McpgSql.Pool
