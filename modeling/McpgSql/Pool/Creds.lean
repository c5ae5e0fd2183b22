import McpgSql.Library.Except
import McpgSql.Pool.Digest
import McpgSql.Protocol

/-!
# Resolved credentials

`resolve_creds_for`: the `${cred://…}` tokens in a profile's URL and session
variables are resolved by the host for one caller, put in their place, and the
URL and the variables that had tokens make the bundle whose digest names the
caller's pool.

The bundles of one profile have the same fields (`digestPairs_names`), and two
of them with the same pairs have the same URL and session variables
(`creds_eq_of_pairs`).
-/

namespace McpgSql.Pool

open Library

variable {δ : Type}

/-- The credential references of the protocol: the URIs in the tokens of a text,
a text with the tokens replaced by what they resolve to, and the plugin and
target that a URI names. -/
structure CredSyntax where
  credTokens : String → List String
  substituteCredTokens : String → List (String × String) → String
  parseCredRef : String → Option (String × String)

/-- The parts of a profile's configuration that carry credentials. The names of
the variables have passed its validation. -/
structure CredConfig where
  url : String
  sessionVars : OrdMap String String
  identifiers : ∀ var ∈ sessionVars.entries, isSafeSqlIdentifier var.1

theorem CredConfig.identifiers_empty :
    ∀ var ∈ (OrdMap.empty : OrdMap String String).entries, isSafeSqlIdentifier var.1 := by
  intro var hvar
  cases hvar

/-- What the credentials of one call resolve to. -/
structure ResolvedCreds (δ : Type) where
  url : String
  sessionVars : OrdMap String String
  digest : δ
  credKeys : List (String × String)
deriving DecidableEq

variable (syn : CredSyntax) (cfg : CredConfig)

/-- The variables whose value has a token. -/
def sessionVarsKeys : List String :=
  (cfg.sessionVars.entries.filter fun var => !(syn.credTokens var.2).isEmpty).map Prod.fst

/-- What the host is asked to resolve: every URI under its own name. -/
def credSnapshot : Value :=
  .object ((syn.credTokens cfg.url ++
    cfg.sessionVars.entries.flatMap fun var => syn.credTokens var.2).map fun uri => (uri, .str uri))

/-- What the host has left under each URI; only texts count. -/
def credMap : Value → Option (List (String × String))
  | .obj members => some (members.filterMap fun m => m.2.asStr.map fun s => (m.1, s))
  | _ => none

/-- The session variables with their tokens replaced. -/
def resolvedSessionVars (creds : List (String × String)) : OrdMap String String :=
  (sessionVarsKeys syn cfg).foldl (fun vars key =>
    match cfg.sessionVars.get? key with
    | some v => vars.insert key (syn.substituteCredTokens v creds)
    | none => vars) cfg.sessionVars

/-- The pairs that name the pool: the URL and the variables that had a token. -/
def digestPairs (url : String) (vars : OrdMap String String) : List (String × String) :=
  ("url", url) :: (sessionVarsKeys syn cfg).filterMap fun key =>
    (vars.get? key).map fun v => ("session_vars." ++ key, v)

/-- The plugins and targets of the tokens in a text. -/
def collectCredRefs (s : String) : Option (List (String × String)) :=
  let out := (syn.credTokens s).filterMap syn.parseCredRef
  if out.isEmpty then none else some out

/-- The plugins and targets of a profile, in order and each once. -/
def profileCredKeys : List (String × String) :=
  let refs := (collectCredRefs syn cfg.url).getD [] ++
    cfg.sessionVars.entries.flatMap fun var => (collectCredRefs syn var.2).getD []
  (refs.insertionSort fun a b => a.1 < b.1 ∨ (a.1 = b.1 ∧ a.2 ≤ b.2)).destutter (· ≠ ·)

/-- The credentials of one call, with the host's answer to the snapshot. -/
def resolveCredsFor (blake3 : List UInt8 → δ)
    (resolveCredentials : Value → Except BackendHostError Value) :
    Except BackendError (ResolvedCreds δ) :=
  match resolveCredentials (credSnapshot syn cfg) with
  | .error (.backend cause) => .error cause
  | .error (.other text) => .error (.transport ("credential resolution: " ++ text))
  | .ok snapshot => match credMap snapshot with
    | none => .error (.transport "credential resolver mutated snapshot to non-object")
    | some creds =>
      let url := syn.substituteCredTokens cfg.url creds
      let sessionVars := resolvedSessionVars syn cfg creds
      .ok { url, sessionVars
            digest := digestCredentialBundle blake3 (digestPairs syn cfg url sessionVars)
            credKeys := profileCredKeys syn cfg }

/-! ## Bundles of one profile -/

/-- The pairs of resolved credentials. -/
def ResolvedCreds.pairs (r : ResolvedCreds δ) : List (String × String) :=
  digestPairs syn cfg r.url r.sessionVars

/-- The credentials that a host may resolve for the profile. -/
def Resolves (blake3 : List UInt8 → δ) (r : ResolvedCreds δ) : Prop :=
  ∃ resolveCredentials, resolveCredsFor syn cfg blake3 resolveCredentials = .ok r

variable {syn cfg} {blake3 : List UInt8 → δ}

/-- The variables that have a token are replaced, the others stay. -/
theorem get?_foldl_insert {keys : List String} {subst : String → String}
    {base vars : OrdMap String String} (k : String) :
    (keys.foldl (fun vars key => match base.get? key with
      | some v => vars.insert key (subst v)
      | none => vars) vars).get? k =
      if k ∈ keys ∧ (base.get? k).isSome then (base.get? k).map subst else vars.get? k := by
  induction keys generalizing vars with
  | nil => simp
  | cons key keys ih =>
    rw [List.foldl_cons, ih]
    by_cases hk : k ∈ keys ∧ (base.get? k).isSome
    · rw [if_pos hk, if_pos ⟨List.mem_cons_of_mem _ hk.1, hk.2⟩]
    · rw [if_neg hk]
      cases hb : base.get? key with
      | none =>
        simp only
        refine (if_neg ?_).symm
        rintro ⟨hmem, hsome⟩
        rcases List.mem_cons.mp hmem with rfl | hmem
        · simp [hb] at hsome
        · exact hk ⟨hmem, hsome⟩
      | some v =>
        simp only [OrdMap.get?_insert]
        by_cases he : key = k
        · subst he
          simp [hb]
        · rw [if_neg he, if_neg]
          rintro ⟨hmem, hsome⟩
          rcases List.mem_cons.mp hmem with rfl | hmem
          · exact he rfl
          · exact hk ⟨hmem, hsome⟩

theorem get?_resolvedSessionVars (creds : List (String × String)) (k : String) :
    (resolvedSessionVars syn cfg creds).get? k =
      if k ∈ sessionVarsKeys syn cfg ∧ (cfg.sessionVars.get? k).isSome
      then (cfg.sessionVars.get? k).map (syn.substituteCredTokens · creds)
      else cfg.sessionVars.get? k :=
  get?_foldl_insert k

/-- The URL, the variables and the digest are of one answer of the host. -/
theorem Resolves.exists_creds {r : ResolvedCreds δ} (h : Resolves syn cfg blake3 r) :
    ∃ creds, r.url = syn.substituteCredTokens cfg.url creds ∧
      r.sessionVars = resolvedSessionVars syn cfg creds ∧
      r.digest = digestCredentialBundle blake3 (r.pairs syn cfg) := by
  obtain ⟨resolveCredentials, h⟩ := h
  simp only [resolveCredsFor] at h
  split at h
  · cases h
  · cases h
  · split at h
    · cases h
    · rename_i creds _
      cases h
      exact ⟨creds, rfl, rfl, rfl⟩

/-- A variable that had a token has a value, and it is replaced; the others are
those of the configuration. -/
theorem Resolves.vars {r : ResolvedCreds δ} (h : Resolves syn cfg blake3 r) :
    (∀ k ∈ sessionVarsKeys syn cfg, (r.sessionVars.get? k).isSome) ∧
      ∀ k, k ∉ sessionVarsKeys syn cfg → r.sessionVars.get? k = cfg.sessionVars.get? k := by
  obtain ⟨creds, -, hvars, -⟩ := h.exists_creds
  constructor
  · intro k hk
    have hsome : (cfg.sessionVars.get? k).isSome := by
      obtain ⟨var, hvar, rfl⟩ := List.mem_map.mp hk
      have := Assoc.get?_of_mem cfg.sessionVars.sorted (List.mem_of_mem_filter hvar)
      exact Option.isSome_iff_exists.mpr ⟨var.2, this⟩
    rw [hvars, get?_resolvedSessionVars, if_pos ⟨hk, hsome⟩, Option.isSome_map]
    exact hsome
  · intro k hk
    rw [hvars, get?_resolvedSessionVars, if_neg fun h => hk h.1]

/-- The digest of the credentials is that of their pairs. -/
theorem Resolves.digest_eq {r : ResolvedCreds δ} (h : Resolves syn cfg blake3 r) :
    r.digest = digestCredentialBundle blake3 (r.pairs syn cfg) :=
  h.exists_creds.choose_spec.2.2

/-- The fields of every bundle of the profile. -/
theorem digestPairs_names {r : ResolvedCreds δ} (h : Resolves syn cfg blake3 r) :
    (r.pairs syn cfg).map Prod.fst =
      "url" :: (sessionVarsKeys syn cfg).map ("session_vars." ++ ·) := by
  rw [ResolvedCreds.pairs, digestPairs, List.map_cons]
  congr 1
  have hsome := h.vars.1
  generalize sessionVarsKeys syn cfg = keys at hsome ⊢
  induction keys with
  | nil => rfl
  | cons k keys ih =>
    obtain ⟨v, hv⟩ := Option.isSome_iff_exists.mp (hsome k List.mem_cons_self)
    rw [List.filterMap_cons, hv]
    simp [ih fun k hk => hsome k (List.mem_cons_of_mem _ hk)]

theorem sessionVarsKeys_nodup : (sessionVarsKeys syn cfg).Nodup :=
  Assoc.nodup_keys (List.Pairwise.filter _ cfg.sessionVars.sorted)

theorem url_ne_sessionVar (k : String) : "url" ≠ "session_vars." ++ k := by
  intro h
  have := congrArg (fun s : String => s.toList.head?) h
  simp at this

/-- The fields of a bundle of the profile are distinct. -/
theorem pairs_distinct {r : ResolvedCreds δ} (h : Resolves syn cfg blake3 r) :
    Distinct (r.pairs syn cfg) := by
  rw [Distinct, digestPairs_names h, List.nodup_cons]
  constructor
  · intro hmem
    obtain ⟨k, -, hk⟩ := List.mem_map.mp hmem
    exact url_ne_sessionVar k hk.symm
  · exact sessionVarsKeys_nodup.map fun a b hab => (String.append_right_inj _).mp hab

theorem identifier_chars {s : String} (h : isSafeSqlIdentifier s) :
    Plain '=' '\n' s.toList := by
  simp only [isSafeSqlIdentifier, Bool.and_eq_true, List.all_eq_true] at h
  exact ⟨fun hc => absurd (h.1.2 _ hc) (by decide), fun hc => absurd (h.1.2 _ hc) (by decide)⟩

/-- No field name of a bundle of the profile holds a `=` or a line break. -/
theorem pairs_plain {r : ResolvedCreds δ} (h : Resolves syn cfg blake3 r) :
    ∀ p ∈ r.pairs syn cfg, Plain '=' '\n' p.1.toList := by
  intro p hp
  have hname := List.mem_map_of_mem (f := Prod.fst) hp
  rw [digestPairs_names h] at hname
  rcases List.mem_cons.mp hname with hurl | hvar
  · rw [hurl]
    exact ⟨by decide, by decide⟩
  · obtain ⟨k, hk, hk'⟩ := List.mem_map.mp hvar
    obtain ⟨var, hvar, rfl⟩ := List.mem_map.mp hk
    have hplain := identifier_chars (cfg.identifiers var (List.mem_of_mem_filter hvar))
    rw [← hk', String.toList_append]
    constructor
    · rw [List.mem_append, not_or]
      exact ⟨by decide, hplain.1⟩
    · rw [List.mem_append, not_or]
      exact ⟨by decide, hplain.2⟩

theorem mem_pairs_var {r : ResolvedCreds δ} {k v : String} :
    ("session_vars." ++ k, v) ∈ r.pairs syn cfg ↔
      k ∈ sessionVarsKeys syn cfg ∧ r.sessionVars.get? k = some v := by
  simp only [ResolvedCreds.pairs, digestPairs, List.mem_cons, Prod.mk.injEq, List.mem_filterMap,
    Option.map_eq_some_iff, String.append_right_inj, (url_ne_sessionVar k).symm, false_and, false_or]
  constructor
  · rintro ⟨j, hj, w, hw, rfl, rfl⟩
    exact ⟨hj, hw⟩
  · rintro ⟨hk, hv⟩
    exact ⟨k, hk, v, hv, rfl, rfl⟩

/-- Two bundles of the profile with the same pairs are of the same URL and
session variables. -/
theorem creds_eq_of_pairs {r r' : ResolvedCreds δ} (h : Resolves syn cfg blake3 r)
    (h' : Resolves syn cfg blake3 r') (hp : (r.pairs syn cfg).Perm (r'.pairs syn cfg)) :
    r.url = r'.url ∧ r.sessionVars = r'.sessionVars := by
  constructor
  · have hmem : ("url", r.url) ∈ r'.pairs syn cfg := hp.mem_iff.mp List.mem_cons_self
    have hmem' : ("url", r'.url) ∈ r'.pairs syn cfg := List.mem_cons_self
    exact congrArg Prod.snd (List.inj_on_of_nodup_map (pairs_distinct h') hmem hmem' rfl)
  · refine OrdMap.ext_get? fun k => ?_
    by_cases hk : k ∈ sessionVarsKeys syn cfg
    · obtain ⟨v, hv⟩ := Option.isSome_iff_exists.mp (h.vars.1 k hk)
      have := mem_pairs_var.mp (hp.mem_iff.mp (mem_pairs_var.mpr ⟨hk, hv⟩))
      rw [hv, this.2]
    · rw [h.vars.2 k hk, h'.vars.2 k hk]

end McpgSql.Pool
