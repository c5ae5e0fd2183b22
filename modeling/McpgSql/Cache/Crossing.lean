import McpgSql.Cache.Lookup
import McpgSql.Execute.Managed
import McpgSql.Library.Template

/-!
# Responses of other callers

The key of a response has the resolved session variables in it, but not the resolved
URL: two callers whose databases are told apart by the URL share their entries
(`databases_cross`). The texts of parameters and variables are not told apart either
where they hold delimiters.

`creds_apart_iff`: calls with clean texts are answered by calls of the same URL
exactly where the URL depends on nothing that the key has not; and a binding with no
parameter, no token in its URL and one variable with tokens never answers a caller
with the response of another one. Where every token is used once and the callers
give the parameters, no other binding is like that.
-/

namespace McpgSql.Cache

open Library Template McpgSql.Pool McpgSql.Execute McpgSql.Stream

/-! ## Texts of the configuration -/

/-- Texts are templates over their tokens: where every token of a text has a value, the
values are put in its place. -/
structure Follows (syn : CredSyntax) (template : String → List Piece) : Prop where
  mem_credTokens : ∀ s uri, uri ∈ syn.credTokens s ↔ uri ∈ tokens (template s)
  substitute : ∀ s creds f, (∀ uri ∈ tokens (template s), Assoc.get? creds uri = some (f uri)) →
    syn.substituteCredTokens s creds = fill f (template s)

section

variable (syn : CredSyntax) (cfg : CredConfig) (template : String → List Piece)

/-- A session value as a template. -/
def valueTemplate (v : String) : List Piece :=
  if (syn.credTokens v).isEmpty then [.text v] else template v

/-- Session variables as they are written to a key. -/
def varsTemplate (vars : List (String × String)) : List Piece :=
  vars.flatMap fun var => .text (var.1 ++ "=") :: (valueTemplate syn template var.2 ++ [.text ";"])

/-- The session variables where every token `t` resolves to `f t`. -/
def filledVars (f : String → String) : OrdMap String String where
  entries := cfg.sessionVars.entries.map fun var =>
    (var.1, fill f (valueTemplate syn template var.2))
  sorted := by
    rw [Assoc.Sorted, List.pairwise_map]
    exact cfg.sessionVars.sorted

/-- The URIs that the host is asked for. -/
def credUris : List String :=
  syn.credTokens cfg.url ++ cfg.sessionVars.entries.flatMap fun var => syn.credTokens var.2

/-- A host that resolves every URI `t` to `f t`. -/
def answer (f : String → String) : Value → Except BackendHostError Value
  | .obj members => .ok (.obj (members.map fun m => (m.1, .str (f m.1))))
  | snapshot => .ok snapshot

end

variable {syn : CredSyntax} {cfg : CredConfig} {template : String → List Piece} {δ : Type}
  {blake3 : List UInt8 → δ} {f g : String → String}

theorem tokens_valueTemplate (hsyn : Follows syn template) (v uri : String) :
    uri ∈ tokens (valueTemplate syn template v) ↔ uri ∈ syn.credTokens v := by
  rw [valueTemplate]
  split
  · rename_i h
    simp [tokens, List.isEmpty_iff.mp h]
  · exact (hsyn.mem_credTokens v uri).symm

theorem tokens_varsTemplate (vars : List (String × String)) :
    tokens (varsTemplate syn template vars) =
      vars.flatMap fun var => tokens (valueTemplate syn template var.2) := by
  rw [varsTemplate]
  induction vars with
  | nil => rfl
  | cons var vars ih =>
    rw [List.flatMap_cons, List.flatMap_cons, tokens_append, ih]
    simp [tokens]

theorem fill_eq_of_filledVars (h : filledVars syn cfg template f = filledVars syn cfg template g) :
    ∀ var ∈ cfg.sessionVars.entries,
      fill f (valueTemplate syn template var.2) = fill g (valueTemplate syn template var.2) := by
  intro var hvar
  have hmap := List.map_inj_left.mp (congrArg OrdMap.entries h) var hvar
  exact (Prod.mk.inj hmap).2

theorem writeSessionVars_filledVars (f : String → String) :
    writeSessionVars (filledVars syn cfg template f) =
      utf8 (fill f (varsTemplate syn template cfg.sessionVars.entries)) := by
  show (cfg.sessionVars.entries.map _).flatMap _ = _
  rw [varsTemplate]
  induction cfg.sessionVars.entries with
  | nil => rfl
  | cons var vars ih =>
    simp only [List.map_cons, List.flatMap_cons, ih, List.cons_append, fill, fill_append,
      utf8_append, List.append_assoc]
    simp [show utf8 "=" = ['='.toUInt8] by decide, show utf8 ";" = [';'.toUInt8] by decide,
      show utf8 "" = [] by decide]

/-- The host has given every URI its value. -/
theorem credMap_answer (syn : CredSyntax) (cfg : CredConfig) (f : String → String) :
    ∃ snapshot creds, answer f (credSnapshot syn cfg) = .ok snapshot ∧
      credMap snapshot = some creds ∧
      ∀ uri ∈ credUris syn cfg, Assoc.get? creds uri = some (f uri) := by
  have hmem : ∀ uri ∈ credUris syn cfg, uri ∈
      (Assoc.ofList ((credUris syn cfg).map fun uri => (uri, Value.str uri))).map Prod.fst := by
    intro uri huri
    have hne := Assoc.get?_ne_none
      (m := ((credUris syn cfg).map fun uri => (uri, Value.str uri)).reverse) (k := uri)
      (by simpa [Function.comp_def] using huri)
    rw [← Assoc.get?_ofList] at hne
    obtain ⟨v, hv⟩ := Option.ne_none_iff_exists'.mp hne
    exact List.mem_map_of_mem (f := Prod.fst) (Assoc.mem_of_get? hv)
  rw [show credSnapshot syn cfg = .obj (Assoc.ofList ((credUris syn cfg).map fun uri =>
    (uri, Value.str uri))) from rfl]
  generalize Assoc.ofList ((credUris syn cfg).map fun uri => (uri, Value.str uri)) = members
    at hmem ⊢
  refine ⟨_, members.map fun m => (m.1, f m.1), rfl, ?_, fun uri huri => ?_⟩
  · simp [credMap, List.filterMap_map, Value.asStr]
  · refine Assoc.get?_of_forall ?_ (by simpa [Function.comp_def] using hmem uri huri)
    rintro e he rfl
    obtain ⟨m, -, rfl⟩ := List.mem_map.mp he
    rfl

/-- A variable carries a token where it is one of those that are replaced. -/
theorem mem_sessionVarsKeys {k v : String} (h : cfg.sessionVars.get? k = some v) :
    k ∈ sessionVarsKeys syn cfg ↔ (syn.credTokens v).isEmpty = false := by
  rw [sessionVarsKeys, List.mem_map]
  constructor
  · rintro ⟨var, hvar, rfl⟩
    obtain ⟨hmem, htokens⟩ := List.mem_filter.mp hvar
    have : cfg.sessionVars.get? var.1 = some var.2 := Assoc.get?_of_mem cfg.sessionVars.sorted hmem
    rw [h] at this
    cases this
    simpa using htokens
  · intro htokens
    exact ⟨(k, v), List.mem_filter.mpr ⟨Assoc.mem_of_get? h, by simp [htokens]⟩, rfl⟩

/-- Where every token of the variables has a value, it is put in its place. -/
theorem resolvedSessionVars_eq_filledVars (hsyn : Follows syn template)
    {creds : List (String × String)}
    (hget : ∀ var ∈ cfg.sessionVars.entries, ∀ uri ∈ syn.credTokens var.2,
      Assoc.get? creds uri = some (f uri)) :
    resolvedSessionVars syn cfg creds = filledVars syn cfg template f := by
  refine OrdMap.ext_get? fun k => ?_
  have hfilled : (filledVars syn cfg template f).get? k =
      (cfg.sessionVars.get? k).map fun v => fill f (valueTemplate syn template v) :=
    Assoc.get?_map (fun v => fill f (valueTemplate syn template v)) _ k
  rw [get?_resolvedSessionVars, hfilled]
  cases hv : cfg.sessionVars.get? k with
  | none => simp
  | some v =>
    by_cases hk : k ∈ sessionVarsKeys syn cfg
    · rw [if_pos ⟨hk, rfl⟩, Option.map_some, Option.map_some, valueTemplate,
        if_neg (by simp [(mem_sessionVarsKeys hv).mp hk])]
      refine congrArg some (hsyn.substitute _ _ f fun uri huri => ?_)
      exact hget (k, v) (Assoc.mem_of_get? hv) uri ((hsyn.mem_credTokens _ uri).mpr huri)
    · have htokens : (syn.credTokens v).isEmpty = true := by
        simpa [mem_sessionVarsKeys hv] using hk
      rw [if_neg fun h => hk h.1, Option.map_some, valueTemplate, if_pos htokens, fill, fill,
        String.append_empty]

/-- What the credentials are with a host that resolves every URI. -/
theorem resolve_answer (hsyn : Follows syn template) (f : String → String) :
    ∃ r, resolveCredsFor syn cfg blake3 (answer f) = .ok r ∧ r.url = fill f (template cfg.url) ∧
      r.sessionVars = filledVars syn cfg template f := by
  obtain ⟨snapshot, creds, hsnap, hcreds, hget⟩ := credMap_answer syn cfg f
  refine ⟨_, by simp only [resolveCredsFor, hsnap, hcreds]; rfl, ?_, ?_⟩
  · refine hsyn.substitute _ _ f fun uri huri => hget uri (List.mem_append_left _ ?_)
    exact (hsyn.mem_credTokens _ uri).mpr huri
  · refine resolvedSessionVars_eq_filledVars hsyn fun var hvar uri huri => hget uri ?_
    exact List.mem_append_right _ (List.mem_flatMap.mpr ⟨var, hvar, huri⟩)

namespace CachedProfile

variable {p : CachedProfile δ} {redact : String → String} {cursorLib : CursorLib} {lib : Lib}

/-- A cached binding is no stream. -/
theorem streamRt_eq_none (p : CachedProfile δ) : p.rt.streamRt = none := by
  cases hstream : p.rt.streamRt with
  | none => rfl
  | some streamRt =>
    have hmode := p.stream (by simp [hstream])
    have hvalid := p.validated
    rw [CacheSpec.validate, if_pos p.enabled, hmode] at hvalid
    cases hvalid

/-- The values of a request's parameters. -/
def bound (p : CachedProfile δ) (value : String → Value) : List BoundParam :=
  p.rt.stmt.paramOrder.map fun name => ⟨name, value name⟩

/-- Without computed parameters, callers give the parameters any values. -/
theorem bindStmt_bound (hawait : p.rt.awaitRt = none) (hexprs : p.rt.paramExprs = [])
    (value : String → Value) :
    ∃ request, bindStmt redact cursorLib p.rt p.backendName request p.rt.stmt =
      .ok (p.bound value) := by
  let args := Assoc.ofList (p.rt.stmt.paramOrder.map fun name => (name, value name))
  have hget : ∀ name ∈ p.rt.stmt.paramOrder, Assoc.get? args name = some (value name) := by
    intro name hname
    rw [Assoc.get?_ofList]
    refine Assoc.get?_of_forall ?_ (by simpa [Function.comp_def] using hname)
    rintro e he rfl
    obtain ⟨name', -, rfl⟩ := List.mem_map.mp (List.mem_reverse.mp he)
    rfl
  refine ⟨{ payload := some (.ok (.obj args)) }, ?_⟩
  have hargs : callArgs redact cursorLib p.rt p.backendName { payload := some (.ok (.obj args)) } =
      .ok (.obj args) := by
    simp [callArgs, derivedArgs, hawait, hexprs, positionedArgs, p.streamRt_eq_none, parseArgs,
      evaluateWithClient, injectIdempotency, bind_eq_ok, mapError_eq_ok]
  refine bind_eq_ok.mpr ⟨_, hargs, mapError_eq_ok.mpr (collectBoundParams_obj.mpr ⟨?_, ?_⟩)⟩
  · intro name hname
    simp [hget name hname]
  · refine List.map_congr_left fun name hname => ?_
    rw [hget name hname]
    rfl

/-- The calls of the binding with these values of its parameters and tokens. -/
theorem exists_looks (hsyn : Follows p.syn template) (hawait : p.rt.awaitRt = none)
    (hexprs : p.rt.paramExprs = []) (value : String → Value) (f : String → String) :
    ∃ l, p.Looks redact cursorLib l ∧ l.creds.url = fill f (template p.cfg.url) ∧
      l.creds.sessionVars = filledVars p.syn p.cfg template f ∧
      l.call = p.callOf (filledVars p.syn p.cfg template f) (p.bound value) 0 := by
  obtain ⟨request, hbound⟩ := bindStmt_bound hawait hexprs value
  obtain ⟨r, hr, hurl, hvars⟩ := resolve_answer hsyn f
  refine ⟨⟨r, p.callOf r.sessionVars (p.bound value) 0⟩, looks_iff.mpr ?_, hurl, hvars, ?_⟩
  · exact ⟨hawait, ⟨answer f, hr⟩, request, _, 0, hbound, rfl⟩
  · rw [← hvars]

/-- Values of the parameters and tokens that are written alike give the same URL and
variables. -/
theorem NeverCrosses.filled (h : p.NeverCrosses redact cursorLib lib)
    (hsyn : Follows p.syn template) (hawait : p.rt.awaitRt = none) (hexprs : p.rt.paramExprs = [])
    (value value' : String → Value) (f g : String → String)
    (hbytes : writeCanonicalParams lib 0 (p.bound value) ++
        0 :: utf8 (fill f (varsTemplate p.syn template p.cfg.sessionVars.entries)) =
      writeCanonicalParams lib 0 (p.bound value') ++
        0 :: utf8 (fill g (varsTemplate p.syn template p.cfg.sessionVars.entries))) :
    fill f (template p.cfg.url) = fill g (template p.cfg.url) ∧
      filledVars p.syn p.cfg template f = filledVars p.syn p.cfg template g := by
  obtain ⟨a, ha, hurla, hvarsa, hcalla⟩ := exists_looks hsyn hawait hexprs value f
  obtain ⟨b, hb, hurlb, hvarsb, hcallb⟩ := exists_looks hsyn hawait hexprs value' g
  have hkey : a.call.key lib = b.call.key lib := by
    rw [← writeSessionVars_filledVars, ← writeSessionVars_filledVars] at hbytes
    rw [hcalla, hcallb]
    simp only [Call.key, buildCacheKey, keyBytes, callOf]
    simpa only [List.append_assoc, List.cons_append] using
      congrArg (fun bytes => lib.blake3Hex (utf8 "sql\x00" ++ (utf8 p.backendName ++ 0 ::
        (utf8 p.rt.stmt.sql ++ 0 :: (bytes ++ 0 :: le64 0))))) hbytes
  have hsame := neverCrosses_iff.mp h a b ha hb hkey
  rw [← hurla, ← hurlb, ← hvarsa, ← hvarsb]
  exact ⟨hsame.url, hsame.sessionVars⟩

/-! ## Bindings that cross -/

/-- No token has a value. -/
def blank (_ : String) : String := ""

theorem length_blank_le (t x u : String) :
    (blank u).length ≤ (Function.update blank t x u).length := by
  exact Nat.zero_le _

/-- A value makes a text longer that has its token. -/
theorem fill_blank_ne {t x : String} {ps : List Piece} (ht : t ∈ tokens ps) (hx : x ≠ "") :
    fill (Function.update blank t x) ps ≠ fill blank ps := by
  intro h
  have hlt := length_fill_lt (length_blank_le t x) ht (by
    rw [Function.update_self]
    exact Nat.pos_of_ne_zero fun h => hx (String.length_eq_zero_iff.mp h))
  rw [h] at hlt
  exact lt_irrefl _ hlt

/-- What ends the value of the last parameter, and the parameters. -/
def valueEnd : String := "\";\x00"

theorem writeCanonicalParams_append (i : Nat) (ps qs : List BoundParam) :
    writeCanonicalParams lib i (ps ++ qs) =
      writeCanonicalParams lib i ps ++ writeCanonicalParams lib (i + ps.length) qs := by
  induction ps generalizing i with
  | nil => rfl
  | cons p ps ih =>
    simp only [List.cons_append, writeCanonicalParams, ih, List.length_cons, List.append_assoc]
    rw [show i + 1 + ps.length = i + (ps.length + 1) by omega]

/-- The text of the last parameter and of the session variables follow each other. -/
theorem writeCanonicalParams_last {names : List String} {last : String}
    (horder : p.rt.stmt.paramOrder = names ++ [last]) (hlast : last ∉ names) :
    ∃ bytes, ∀ s text, writeCanonicalParams lib 0
        (p.bound fun name => if name = last then .str s else .null) ++ 0 :: utf8 text =
      bytes ++ utf8 (s ++ (valueEnd ++ text)) := by
  have hbound : ∀ s, p.bound (fun name => if name = last then .str s else .null) =
      names.map (fun name => ⟨name, .null⟩) ++ [⟨last, .str s⟩] := by
    intro s
    rw [bound, horder, List.map_append, List.map_singleton, if_pos rfl]
    congr 1
    exact List.map_congr_left fun name hname => by rw [if_neg (ne_of_mem_of_not_mem hname hlast)]
  refine ⟨writeCanonicalParams lib 0 (names.map fun name => ⟨name, .null⟩) ++
    (le32 names.length ++ utf8 last ++ ['='.toUInt8, '"'.toUInt8]), fun s text => ?_⟩
  rw [hbound, writeCanonicalParams_append]
  simp [writeCanonicalParams, writeValue, utf8_append,
    show utf8 valueEnd = ['"'.toUInt8, ';'.toUInt8, 0] by decide]

section

variable (hsyn : Follows p.syn template) (hawait : p.rt.awaitRt = none)
  (hexprs : p.rt.paramExprs = [])

include hsyn hawait hexprs

/-- A token of the URL that no session variable carries is not in the key. -/
theorem not_neverCrosses_url {t : String} (ht : t ∈ tokens (template p.cfg.url))
    (hvars : t ∉ tokens (varsTemplate p.syn template p.cfg.sessionVars.entries)) :
    ¬p.NeverCrosses redact cursorLib lib := by
  intro h
  have hurl := (h.filled hsyn hawait hexprs (fun _ => .null) (fun _ => .null)
    (Function.update blank t "x") blank (by rw [fill_update_of_notMem hvars])).1
  exact fill_blank_ne ht (by decide) hurl

/-- Two variables with tokens share the text between them. -/
theorem not_neverCrosses_vars
    (hnodup : (tokens (varsTemplate p.syn template p.cfg.sessionVars.entries)).Nodup)
    {x y : String × String} {l₁ l₂ l₃ : List (String × String)}
    (hentries : p.cfg.sessionVars.entries = l₁ ++ x :: (l₂ ++ y :: l₃)) {t u : String}
    (ht : t ∈ tokens (valueTemplate p.syn template x.2))
    (hu : u ∈ tokens (valueTemplate p.syn template y.2)) :
    ¬p.NeverCrosses redact cursorLib lib := by
  intro h
  obtain ⟨a, b, hx, -⟩ := eq_append_of_mem ht
  obtain ⟨c, d, hy, -⟩ := eq_append_of_mem hu
  let between : List Piece :=
    b ++ .text ";" :: (varsTemplate p.syn template l₂ ++ .text (y.1 ++ "=") :: c)
  have hW : varsTemplate p.syn template p.cfg.sessionVars.entries =
      (varsTemplate p.syn template l₁ ++ .text (x.1 ++ "=") :: a) ++ .token t ::
        (between ++ .token u :: (d ++ .text ";" :: varsTemplate p.syn template l₃)) := by
    simp [hentries, varsTemplate, hx, hy, between]
  have hswap := fill_swap (f := blank) (t := t) (u := u) rfl rfl (hW ▸ hnodup)
  rw [← hW] at hswap
  have hvars := (h.filled hsyn hawait hexprs (fun _ => .null) (fun _ => .null) _ _
    (congrArg (fun text => _ ++ 0 :: utf8 text) hswap)).2
  have hfill := fill_eq_of_filledVars hvars x (by simp [hentries])
  -- `u` is a token of `y` alone.
  have hux : u ∉ tokens (valueTemplate p.syn template x.2) := by
    intro hux
    rw [tokens_varsTemplate, hentries] at hnodup
    simp only [List.flatMap_append, List.flatMap_cons, List.nodup_append, List.mem_append] at hnodup
    exact hnodup.2.1.2.2 u hux u (.inr (.inl hu)) rfl
  have hne : fill blank between ≠ "" := by
    intro hempty
    have := congrArg String.length hempty
    simp [between, fill] at this
  rw [fill_update_of_notMem hux] at hfill
  exact fill_blank_ne ht hne hfill

/-- The text of a caller's last parameter and of a variable with tokens are shared. -/
theorem not_neverCrosses_params {names : List String} {last : String}
    (horder : p.rt.stmt.paramOrder = names ++ [last]) (hlast : last ∉ names)
    (htokens : tokens (varsTemplate p.syn template p.cfg.sessionVars.entries) ≠ []) :
    ¬p.NeverCrosses redact cursorLib lib := by
  intro h
  obtain ⟨a, t, b, hW, hb⟩ := eq_append_of_last htokens
  obtain ⟨bytes, hbytes⟩ := writeCanonicalParams_last horder hlast
  let x := valueEnd ++ fill blank a
  have hne : x ≠ "" := by
    intro hempty
    have := congrArg String.length hempty
    simp [x, valueEnd] at this
  have hb' : fill (Function.update blank t x) b = fill blank b :=
    fill_update_of_notMem (by simp [hb])
  -- The value of `t` holds the end of the parameters and the variables before it.
  have htext : valueEnd ++ fill (Function.update blank t x) a ++
      (valueEnd ++ fill blank (a ++ .token t :: b)) =
      "" ++ (valueEnd ++ fill (Function.update blank t x) (a ++ .token t :: b)) := by
    simp [fill, hb', x, blank, String.append_assoc]
  have hvars := (h.filled hsyn hawait hexprs _ _ blank (Function.update blank t x) (by
    rw [hW, hbytes, hbytes, htext])).2
  have ht : t ∈ tokens (varsTemplate p.syn template p.cfg.sessionVars.entries) := by
    simp [hW, tokens]
  rw [tokens_varsTemplate] at ht
  obtain ⟨var, hvar, ht⟩ := List.mem_flatMap.mp ht
  exact fill_blank_ne ht hne (fill_eq_of_filledVars hvars var hvar).symm

end

/-! ## Bindings that do not -/

/-- The credentials of a host's answers, with one URL and the same variables. -/
theorem sameCreds_of_resolves {r r' : ResolvedCreds δ} (h : Resolves syn cfg blake3 r)
    (h' : Resolves syn cfg blake3 r') (hurl : r.url = r'.url)
    (hvars : r.sessionVars = r'.sessionVars) : SameCreds r r' := by
  refine ⟨hurl, hvars, ?_⟩
  rw [h.digest_eq, h'.digest_eq, ResolvedCreds.pairs, ResolvedCreds.pairs, hurl, hvars]

/-- A URL without tokens is the same for every caller. -/
theorem url_eq_of_no_token (hsyn : Follows syn template) (hno : syn.credTokens cfg.url = [])
    {r r' : ResolvedCreds δ} (h : Resolves syn cfg blake3 r) (h' : Resolves syn cfg blake3 r') :
    r.url = r'.url := by
  obtain ⟨creds, hurl, -⟩ := h.exists_creds
  obtain ⟨creds', hurl', -⟩ := h'.exists_creds
  have hnone : ∀ uri, uri ∉ tokens (template cfg.url) := by
    intro uri huri
    have := (hsyn.mem_credTokens cfg.url uri).mpr huri
    simp [hno] at this
  rw [hurl, hurl', hsyn.substitute _ creds blank fun uri huri => absurd huri (hnone uri),
    hsyn.substitute _ creds' blank fun uri huri => absurd huri (hnone uri)]

/-- One variable with tokens is read in one way. -/
theorem sessionVars_eq_of_one (hone : (sessionVarsKeys syn cfg).length ≤ 1)
    {r r' : ResolvedCreds δ} (h : Resolves syn cfg blake3 r) (h' : Resolves syn cfg blake3 r')
    (hbytes : writeSessionVars r.sessionVars = writeSessionVars r'.sessionVars) :
    r.sessionVars = r'.sessionVars := by
  obtain ⟨creds, -, hvars, -⟩ := h.exists_creds
  obtain ⟨creds', -, hvars', -⟩ := h'.exists_creds
  rw [hvars, hvars'] at hbytes ⊢
  match hkeys : sessionVarsKeys syn cfg with
  | [] => simp [resolvedSessionVars, hkeys]
  | [k] =>
    simp only [resolvedSessionVars, hkeys, List.foldl_cons, List.foldl_nil] at hbytes ⊢
    cases hv : cfg.sessionVars.get? k with
    | none => rfl
    | some v =>
      simp only [hv] at hbytes ⊢
      obtain ⟨l₁, l₂, hinsert⟩ := Assoc.exists_insert_eq cfg.sessionVars.entries k
      simp only [writeSessionVars, OrdMap.insert, hinsert, List.flatMap_append,
        List.flatMap_cons] at hbytes
      have hvalue := List.append_cancel_right (List.append_cancel_left hbytes)
      have hvalue := List.append_cancel_right (List.cons.inj (List.append_cancel_left hvalue)).2
      rw [utf8_inj.mp hvalue]
  | _ :: _ :: _ => simp [hkeys] at hone

/-- No parameter, no token in the URL, and one variable with tokens at most; or no
response of the binding is cached, as of an `await` block. -/
def Guarded (p : CachedProfile δ) : Prop :=
  p.rt.awaitRt.isSome ∨ p.rt.stmt.paramOrder = [] ∧ p.syn.credTokens p.cfg.url = [] ∧
    (sessionVarsKeys p.syn p.cfg).length ≤ 1

instance (p : CachedProfile δ) : Decidable p.Guarded := inferInstanceAs (Decidable (_ ∨ _ ∧ _ ∧ _))

/-- The callers give the parameters, the last of them under a name of its own, and
every token is used once. -/
structure Plain (p : CachedProfile δ) (template : String → List Piece) : Prop where
  paramExprs : p.rt.paramExprs = []
  last : ∀ names last, p.rt.stmt.paramOrder = names ++ [last] → last ∉ names
  once : (tokens (template p.cfg.url ++
    varsTemplate p.syn template p.cfg.sessionVars.entries)).Nodup

/-- The parameters and variables of calls with one key are written alike. -/
theorem bytes_of_key (hlib : lib.Lawful) {a b : Looked δ} (ha : p.Looks redact cursorLib a)
    (hb : p.Looks redact cursorLib b) (hkey : a.call.key lib = b.call.key lib) :
    a.call.backendName = b.call.backendName ∧ a.call.sqlText = b.call.sqlText ∧
      a.call.version = b.call.version ∧
      writeCanonicalParams lib 0 a.call.boundParams ++ 0 :: writeSessionVars a.creds.sessionVars =
        writeCanonicalParams lib 0 b.call.boundParams ++
          0 :: writeSessionVars b.creds.sessionVars := by
  obtain ⟨-, -, -, boundsa, versiona, -, hcalla⟩ := looks_iff.mp ha
  obtain ⟨-, -, -, boundsb, versionb, -, hcallb⟩ := looks_iff.mp hb
  have hname : a.call.backendName = b.call.backendName := by rw [hcalla, hcallb]; rfl
  have hsql : a.call.sqlText = b.call.sqlText := by rw [hcalla, hcallb]; rfl
  obtain ⟨hversion, hbytes⟩ := parts_of_key hlib hname hsql hkey
  rw [show a.call.sessionVars.values = a.creds.sessionVars by rw [hcalla]; rfl,
    show b.call.sessionVars.values = b.creds.sessionVars by rw [hcallb]; rfl] at hbytes
  exact ⟨hname, hsql, hversion, hbytes⟩

theorem neverCrosses_of_guarded (hlib : lib.Lawful) (hsyn : Follows p.syn template)
    (h : p.Guarded) : p.NeverCrosses redact cursorLib lib := by
  refine neverCrosses_iff.mpr fun a b ha hb hkey => ?_
  obtain ⟨hawait, hresa, requesta, boundsa, versiona, hbounda, hcalla⟩ := looks_iff.mp ha
  obtain ⟨-, hresb, requestb, boundsb, versionb, hboundb, hcallb⟩ := looks_iff.mp hb
  obtain hsome | ⟨hparams, hurl, hone⟩ := h
  · simp [hawait] at hsome
  · have hnil : ∀ {request xs},
        bindStmt redact cursorLib p.rt p.backendName request p.rt.stmt = .ok xs → xs = [] := by
      intro request xs hxs
      obtain ⟨args, -, -, hall⟩ := bindStmt_ok hxs
      refine List.eq_nil_iff_forall_not_mem.mpr fun x hx => ?_
      have := (hall x hx).1
      simp [hparams] at this
    obtain ⟨-, -, -, hbytes⟩ := bytes_of_key hlib ha hb hkey
    simp only [hcalla, hcallb, callOf, hnil hbounda, hnil hboundb] at hbytes
    exact sameCreds_of_resolves hresa hresb (url_eq_of_no_token hsyn hurl hresa hresb)
      (sessionVars_eq_of_one hone hresa hresb (List.cons.inj hbytes).2)

theorem guarded_of_neverCrosses (hsyn : Follows p.syn template) (hplain : p.Plain template)
    (h : p.NeverCrosses redact cursorLib lib) : p.Guarded := by
  by_cases hawait : p.rt.awaitRt = none
  · obtain ⟨hexprs, hlast, honce⟩ := hplain
    rw [tokens_append, List.nodup_append] at honce
    obtain ⟨-, hnodup, hapart⟩ := honce
    have hurl : p.syn.credTokens p.cfg.url = [] := by
      refine List.eq_nil_iff_forall_not_mem.mpr fun t ht => ?_
      have ht := (hsyn.mem_credTokens _ t).mp ht
      exact not_neverCrosses_url hsyn hawait hexprs ht (fun hvars => hapart t ht t hvars rfl) h
    refine .inr ⟨?_, hurl, ?_⟩
    · -- A variable has a token, as the URL has none.
      have htokens : tokens (varsTemplate p.syn template p.cfg.sessionVars.entries) ≠ [] := by
        have hrefs := p.credRefs
        simp only [configHasCredRefs, hurl, List.isEmpty_nil, Bool.not_true, Bool.false_or,
          List.any_eq_true, Bool.not_eq_true', List.isEmpty_eq_false_iff_exists_mem] at hrefs
        obtain ⟨var, hvar, t, ht⟩ := hrefs
        rw [tokens_varsTemplate]
        exact List.ne_nil_of_mem (List.mem_flatMap.mpr
          ⟨var, hvar, (tokens_valueTemplate hsyn _ t).mpr ht⟩)
      cases horder : p.rt.stmt.paramOrder using List.reverseRecOn with
      | nil => rfl
      | append_singleton names last =>
        exact (not_neverCrosses_params hsyn hawait hexprs horder (hlast _ _ horder) htokens h).elim
    · match hkeys : p.cfg.sessionVars.entries.filter fun var =>
        !(p.syn.credTokens var.2).isEmpty with
      | [] | [_] => simp [sessionVarsKeys, hkeys]
      | x :: y :: rest =>
        obtain ⟨l₁, l₂, hentries, -, hx, hrest⟩ := List.filter_eq_cons_iff.mp hkeys
        obtain ⟨l₂, l₃, rfl, -, hy, -⟩ := List.filter_eq_cons_iff.mp hrest
        simp only [Bool.not_eq_true', List.isEmpty_eq_false_iff_exists_mem] at hx hy
        obtain ⟨t, ht⟩ := hx
        obtain ⟨u, hu⟩ := hy
        exact (not_neverCrosses_vars hsyn hawait hexprs hnodup hentries
          ((tokens_valueTemplate hsyn _ t).mpr ht) ((tokens_valueTemplate hsyn _ u).mpr hu) h).elim
  · exact .inl (Option.isSome_iff_ne_none.mpr hawait)

/-- Calls with clean texts are answered by calls of the same credentials exactly where
the same parameters, variables and version come with the same URL. -/
theorem looks_apart_iff (hlib : lib.Lawful) {a b : Looked δ} (ha : p.Looks redact cursorLib a)
    (hb : p.Looks redact cursorLib b) (hca : a.call.Clean) (hcb : b.call.Clean)
    (hab : a.call.VarsApart b.call) (hba : b.call.VarsApart a.call) :
    (a.call.key lib = b.call.key lib → SameCreds a.creds b.creds) ↔
      (a.call.Same b.call → a.creds.url = b.creds.url) := by
  obtain ⟨-, hresa, requesta, boundsa, versiona, -, hcalla⟩ := looks_iff.mp ha
  obtain ⟨-, hresb, requestb, boundsb, versionb, -, hcallb⟩ := looks_iff.mp hb
  have hva : a.call.sessionVars = ⟨a.creds.sessionVars⟩ := by rw [hcalla]; rfl
  have hvb : b.call.sessionVars = ⟨b.creds.sessionVars⟩ := by rw [hcallb]; rfl
  constructor
  · intro h hsame
    exact (h (key_of_same hsame)).url
  · intro h hkey
    obtain ⟨hname, hsql, hversion, hbytes⟩ := bytes_of_key hlib ha hb hkey
    obtain ⟨hparams, hvars⟩ := hca.parts_inj hlib hcb hab hba (by rw [hva, hvb]; exact hbytes)
    refine sameCreds_of_resolves hresa hresb
      (h (Call.same_iff.mpr ⟨hname, hsql, hparams, hvars, hversion⟩)) ?_
    rw [hva, hvb] at hvars
    exact SessionVars.mk.inj hvars

/-- Calls with clean texts are kept apart exactly where the same parameters, variables
and version come with the same URL; a guarded binding never answers a caller with the
response of another one, and no other plain binding is like that. -/
theorem creds_apart_iff (hlib : lib.Lawful) (p : CachedProfile δ) (hsyn : Follows p.syn template)
    (redact : String → String) (cursorLib : CursorLib) :
    (∀ a b, p.Looks redact cursorLib a → p.Looks redact cursorLib b → a.call.Clean →
      b.call.Clean → a.call.VarsApart b.call → b.call.VarsApart a.call →
      ((a.call.key lib = b.call.key lib → SameCreds a.creds b.creds) ↔
        (a.call.Same b.call → a.creds.url = b.creds.url))) ∧
    (p.Guarded → p.NeverCrosses redact cursorLib lib) ∧
    (p.Plain template → (p.NeverCrosses redact cursorLib lib ↔ p.Guarded)) :=
  ⟨fun _ _ ha hb hca hcb hab hba => looks_apart_iff hlib ha hb hca hcb hab hba,
    neverCrosses_of_guarded hlib hsyn,
    fun hplain => ⟨guarded_of_neverCrosses hsyn hplain, neverCrosses_of_guarded hlib hsyn⟩⟩

end CachedProfile

/-! ## Two databases, two tenants -/

/-- The pieces of a text; `some` holds the characters of a token that has begun, from
the last one on. -/
def scan : Option (List Char) → List Char → List Piece
  | none, [] => []
  | some token, [] => [.text (String.ofList ('$' :: token.reverse))]
  | none, c :: cs =>
    if "$\x7bcred://".toList.isPrefixOf (c :: cs) then scan (some []) cs
    else .text (String.ofList [c]) :: scan none cs
  | some token, c :: cs =>
    if c = '\x7d' then .token (String.ofList (token.reverse.drop 1)) :: scan none cs
    else scan (some (c :: token)) cs

/-- References as they stand in texts; those without a value stay. -/
def scanSyntax : CredSyntax where
  credTokens s := tokens (scan none s.toList)
  substituteCredTokens s creds :=
    fill (fun uri => (Assoc.get? creds uri).getD ("$\x7b" ++ uri ++ "\x7d")) (scan none s.toList)
  parseCredRef _ := none

theorem scanSyntax_follows : Follows scanSyntax fun s => scan none s.toList where
  mem_credTokens _ _ := Iff.rfl
  substitute _ _ _ h := fill_congr fun uri huri => by rw [h uri huri, Option.getD_some]

/-- A cached query of all orders. -/
def ordersProfile (url : String) (sessionVars : OrdMap String String)
    (identifiers : ∀ var ∈ sessionVars.entries, isSafeSqlIdentifier var.1)
    (credRefs : configHasCredRefs scanSyntax ⟨url, sessionVars, identifiers⟩) :
    CachedProfile String where
  backendName := "orders"
  syn := scanSyntax
  cfg := ⟨url, sessionVars, identifiers⟩
  blake3 bytes := String.ofList (bytes.map Char.ofUInt8)
  query := { body := .sql "SELECT * FROM orders", rowMode := .many }
  cache := { enabled := true }
  guards := ⟨fun _ => .ok (), fun _ => .ok (), fun _ => .ok ()⟩
  rt := { stmt := ⟨"SELECT * FROM orders", [], .postgres⟩ }
  enabled := rfl
  validated := rfl
  credRefs := credRefs
  stream := nofun

/-- The callers of a profile whose tenants are told apart by a session variable. -/
def tenantProfile : CachedProfile String :=
  ordersProfile "postgres://app@db/orders"
    (OrdMap.empty.insert "app.tenant" "$\x7bcred://idp/tenant\x7d") (by decide) (by decide)

theorem tenantProfile_neverCrosses :
    tenantProfile.NeverCrosses id (sampleLib []) plainLib :=
  (tenantProfile.creds_apart_iff plainLib_lawful scanSyntax_follows id (sampleLib [])).2.1
    (by decide)

/-- The callers of a profile that have a database each. -/
def databaseProfile : CachedProfile String :=
  ordersProfile "postgres://app@db/$\x7bcred://idp/db\x7d" OrdMap.empty CredConfig.identifiers_empty (by decide)

/-- A call of a caller with this database. -/
def databaseCall (db : String) : CacheAction :=
  .call { payload := none } (fun _ => .ok (.object [("cred://idp/db", .str db)])) 0

/-- A second caller is answered by the response from the database of the first. -/
theorem databases_cross :
    (∃ s, (databaseProfile.machine id (sampleLib []) plainLib).Reach (fun _ _ => True) s ∧
      s.served.map (fun c => (c.1.creds.url, c.2.creds.url)) =
        [("postgres://app@db/acme", "postgres://app@db/bravo")]) ∧
      ¬databaseProfile.NeverCrosses id (sampleLib []) plainLib := by
  have hrun : ∃ s, (databaseProfile.machine id (sampleLib []) plainLib).Reach (fun _ _ => True) s ∧
      s.served.map (fun c => (c.1.creds.url, c.2.creds.url)) =
        [("postgres://app@db/acme", "postgres://app@db/bravo")] :=
    ⟨_, .step (a := databaseCall "bravo") (.step (a := .put 0)
      (.step (a := databaseCall "acme") (.init rfl) trivial rfl) trivial rfl) trivial rfl,
      by decide⟩
  refine ⟨hrun, fun h => ?_⟩
  obtain ⟨s, hs, hserved⟩ := hrun
  obtain ⟨c, hc, hurls⟩ := List.mem_map.mp (hserved ▸ List.mem_singleton_self _)
  have hurl := (h s hs c hc).url
  rw [(Prod.mk.inj hurls).1, (Prod.mk.inj hurls).2] at hurl
  exact absurd hurl (by decide)

end McpgSql.Cache
