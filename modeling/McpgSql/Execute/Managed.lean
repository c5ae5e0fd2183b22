import McpgSql.Execute.Args

/-!
# Placeholders that the plugin manages

`:_after_<name>`, `:idempotency_key` and `:idempotency_scope_hash` are to be bound by
the plugin alone. They need no declaration in any row mode, but the plugin writes
them over the caller's arguments only for the cursor columns of a stream, only where
the request has a hint, and not for an `await` block: elsewhere the caller's own
argument is bound (`caller_binds_managed`). A binding is guarded where every managed
placeholder of its statements is one that the call overwrites, or that the computed
parameters fix (`managed_iff`).
-/

namespace McpgSql.Execute

open Library McpgSql.Stream

/-- The call overwrites the caller's argument of this name. -/
def ProfileRuntime.overwrites (rt : ProfileRuntime) (hint : Option IdempotencyHint)
    (name : String) : Bool :=
  rt.awaitRt.isNone && (rt.streamRt.any (fun s => name ∈ s.cfg.placeholderNames) ||
    hint.isSome && isIdempotencyName name)

/-- No call of a stream binds a statement that names the token itself. -/
def ProfileRuntime.unbindable (rt : ProfileRuntime) (stmt : PreparedStmt) : Bool :=
  rt.awaitRt.isNone && rt.streamRt.isSome && "_cursor" ∈ stmt.paramOrder

/-- The computed parameters give one value under this name, whatever the arguments with one
token. -/
def ProfileRuntime.Derives (rt : ProfileRuntime) (name : String) : Prop :=
  ∀ identity client a b x y, a.get "_cursor" = b.get "_cursor" →
    evaluateWithClient a rt.paramExprs identity client = .ok x →
    evaluateWithClient b rt.paramExprs identity client = .ok y → x.get name = y.get name

/-- Every managed placeholder of the statements is overwritten, or it is one of a
stream and a computed parameter of one value. -/
def ProfileRuntime.Guarded (rt : ProfileRuntime) (hint : Option IdempotencyHint) : Prop :=
  ∀ stmt ∈ rt.statements, rt.unbindable stmt = true ∨
    ∀ name ∈ stmt.paramOrder, isManaged name = true → rt.overwrites hint name = true ∨
      (isIdempotencyName name = false ∧ rt.Derives name)

/-- Requests with this hint do not choose what managed placeholders are bound to: with
the same token they bind the same, and without a hint a statement that refers to it
is not bound. -/
structure CallerFree (redact : String → String) (lib : CursorLib) (rt : ProfileRuntime)
    (backendName : String) (hint : Option IdempotencyHint) : Prop where
  same : ∀ identity client (a b : OrdMap String Value), a.get? "_cursor" = b.get? "_cursor" →
    ∀ stmt ∈ rt.statements, ∀ xs ys,
    bindStmt redact lib rt backendName ⟨some (.ok (.obj a.entries)), identity, client, hint⟩ stmt =
      .ok xs →
    bindStmt redact lib rt backendName ⟨some (.ok (.obj b.entries)), identity, client, hint⟩ stmt =
      .ok ys →
    ∀ p ∈ xs, ∀ q ∈ ys, p.name = q.name → isManaged p.name = true → p.value = q.value
  refused : hint = none → ∀ payload identity client, ∀ stmt ∈ rt.statements,
    (∃ name ∈ stmt.paramOrder, isIdempotencyName name = true) →
    ∃ e, bindStmt redact lib rt backendName ⟨payload, identity, client, hint⟩ stmt = .error e

/-! ## What a statement is bound from -/

section

variable {redact : String → String} {lib : CursorLib} {rt : ProfileRuntime} {backendName : String}
  {request : BackendRequest} {stmt : PreparedStmt} {xs : List BoundParam}

/-- Every parameter is the argument of its name, and every placeholder has one. -/
theorem bindStmt_ok (h : bindStmt redact lib rt backendName request stmt = .ok xs) :
    ∃ args, callArgs redact lib rt backendName request = .ok args ∧
      (∀ name ∈ stmt.paramOrder, args.get name ≠ none) ∧
      ∀ p ∈ xs, p.name ∈ stmt.paramOrder ∧ args.get p.name = some p.value := by
  rw [bindStmt, bind_eq_ok] at h
  obtain ⟨args, hargs, h⟩ := h
  refine ⟨args, hargs, ?_⟩
  rw [mapError_eq_ok] at h
  cases args with
  | obj obj =>
    obtain ⟨hall, rfl⟩ := collectBoundParams_obj.mp h
    refine ⟨hall, fun p hp => ?_⟩
    obtain ⟨name, hname, rfl⟩ := List.mem_map.mp hp
    obtain ⟨v, hv⟩ := Option.ne_none_iff_exists'.mp (hall name hname)
    exact ⟨hname, by simp [Value.get, hv]⟩
  | null =>
    cases horder : stmt.paramOrder with
    | nil =>
      rw [horder] at h
      cases h
      exact ⟨nofun, nofun⟩
    | cons name order =>
      rw [horder] at h
      cases h
  | bool | num | str | arr => cases h

/-- A statement is bound where every placeholder has an argument. -/
theorem bindStmt_of_args {obj : List (String × Value)}
    (hargs : callArgs redact lib rt backendName request = .ok (.obj obj))
    (hall : ∀ name ∈ stmt.paramOrder, Assoc.get? obj name ≠ none) :
    ∃ xs, bindStmt redact lib rt backendName request stmt = .ok xs ∧
      ∀ name ∈ stmt.paramOrder, ∀ v, Assoc.get? obj name = some v → ⟨name, v⟩ ∈ xs := by
  have hcollect := mapError_eq_ok (f := BackendError.ofSql redact) |>.mpr
    (collectBoundParams_obj.mpr ⟨hall, rfl⟩)
  refine ⟨_, bind_eq_ok.mpr ⟨_, hargs, hcollect⟩, fun name hname v hv => ?_⟩
  exact List.mem_map.mpr ⟨name, hname, by rw [hv]; rfl⟩

theorem get?_hintMembers (hint : IdempotencyHint) (name : String) :
    isIdempotencyName name = false → Assoc.get? (hintMembers hint).reverse name = none := by
  intro h
  simp only [isIdempotencyName, Bool.or_eq_false_iff, decide_eq_false_iff_not] at h
  simp [hintMembers, Assoc.get?, Ne.symm h.1, Ne.symm h.2]

/-- The hint changes only the arguments of its names. -/
theorem get_injectIdempotency {hint : Option IdempotencyHint} {args : Value} {name : String}
    (h : hint = none ∨ isIdempotencyName name = false) :
    (injectIdempotency hint args).get name = args.get name := by
  cases hint with
  | none => rfl
  | some hint =>
    have hnone := get?_hintMembers hint name (h.resolve_left nofun)
    cases args with
    | null =>
      show Assoc.get? (Assoc.insertAll [] (hintMembers hint)) name = none
      rw [Assoc.get?_insertAll, hnone]
      rfl
    | obj obj =>
      show Assoc.get? (Assoc.insertAll obj (hintMembers hint)) name = Assoc.get? obj name
      rw [Assoc.get?_insertAll, hnone, Option.none_or]
    | bool | num | str | arr => rfl

/-- The hint decides the arguments of its names. -/
theorem get_injectIdempotency_hint {hint : IdempotencyHint} {args : Value} {name : String}
    {v : Value} (hname : isIdempotencyName name = true)
    (h : (injectIdempotency (some hint) args).get name = some v) :
    Assoc.get? (hintMembers hint).reverse name = some v := by
  have hsome : ∃ w, Assoc.get? (hintMembers hint).reverse name = some w := by
    simp only [isIdempotencyName, Bool.or_eq_true, decide_eq_true_eq] at hname
    rcases hname with rfl | rfl
    · exact ⟨.str hint.key, rfl⟩
    · exact ⟨.str hint.scopeHash, rfl⟩
  obtain ⟨w, hw⟩ := hsome
  have hinsert : ∀ obj, Assoc.get? (Assoc.insertAll obj (hintMembers hint)) name = some w := by
    intro obj
    rw [Assoc.get?_insertAll, hw]
    rfl
  rw [hw, ← h]
  cases args with
  | null => exact (hinsert []).symm
  | obj obj => exact (hinsert obj).symm
  | bool | num | str | arr => cases h

/-- The steps of the plain path. -/
theorem callArgs_plain {args : Value} (hplain : rt.awaitRt = none) :
    callArgs redact lib rt backendName request = .ok args ↔
      ∃ derived positioned, derivedArgs redact rt request = .ok derived ∧
        positionedArgs lib rt backendName derived = .ok positioned ∧
        args = injectIdempotency request.idempotency positioned := by
  simp only [callArgs, hplain, bind_eq_ok, mapError_eq_ok, Except.ok.injEq]
  constructor
  · rintro ⟨derived, hd, positioned, hp, rfl⟩
    exact ⟨derived, positioned, hd, hp, rfl⟩
  · rintro ⟨derived, positioned, hd, hp, rfl⟩
    exact ⟨derived, hd, positioned, hp, rfl⟩

/-- Computed parameters leave a token that is none of their names. -/
theorem derivedArgs_cursor {identity : Option PluginIdentity} {client : Option ClientInfo}
    {hint : Option IdempotencyHint} {a : OrdMap String Value} {args : Value}
    (hcursor : "_cursor" ∉ exprNames rt.paramExprs)
    (h : derivedArgs redact rt ⟨some (.ok (.obj a.entries)), identity, client, hint⟩ = .ok args) :
    args.get "_cursor" = a.get? "_cursor" := by
  simp only [derivedArgs, parseArgs, bind_eq_ok, Except.ok.injEq, exists_eq_left', mapError_eq_ok,
    evaluateWithClient_obj] at h
  cases hm : evaluateLoop (identityJson identity) (clientJson client) rt.paramExprs a.entries with
  | error e =>
    rw [hm] at h
    cases h
  | ok m =>
    rw [hm] at h
    cases h
    obtain ⟨final, rfl, hframe⟩ := evaluateLoop_frame hm
    exact hframe "_cursor" hcursor

/-- The position and the hint leave the other arguments. -/
theorem get_callArgs {args : Value} {name : String}
    (h : callArgs redact lib rt backendName request = .ok args) (hcursor : name ≠ "_cursor")
    (hidem : isIdempotencyName name = false)
    (hover : rt.overwrites request.idempotency name = false) :
    ∃ derived, derivedArgs redact rt request = .ok derived ∧ args.get name = derived.get name := by
  cases hawait : rt.awaitRt with
  | some aw =>
    rw [callArgs, hawait] at h
    exact ⟨args, h, rfl⟩
  | none =>
    obtain ⟨derived, positioned, hd, hpos, rfl⟩ := (callArgs_plain hawait).mp h
    refine ⟨derived, hd, ?_⟩
    rw [get_injectIdempotency (.inr hidem)]
    cases hstream : rt.streamRt with
    | none =>
      rw [positionedArgs, hstream] at hpos
      rw [Except.ok.inj hpos]
    | some s =>
      have hplace : name ∉ s.cfg.placeholderNames := by
        simp only [ProfileRuntime.overwrites, hawait, hstream, Option.isNone_none, Bool.true_and,
          Bool.or_eq_false_iff] at hover
        simpa using hover.1
      rw [positionedArgs, hstream] at hpos
      obtain ⟨keyset, -, hget⟩ := applyStreamCursor_ok hpos
      rw [hget, if_neg hcursor, Assoc.get?_eq_none, Option.none_or]
      intro e he hek
      obtain ⟨c, hc, rfl⟩ := List.mem_map.mp (List.mem_reverse.mp he)
      exact hplace (List.mem_map.mpr ⟨c.1, (List.of_mem_zip hc).1, hek⟩)

/-- Where the computed parameters fix a name, so are the arguments under it. -/
theorem derivedArgs_get {identity : Option PluginIdentity} {client : Option ClientInfo}
    {hint : Option IdempotencyHint} {a b x y : Value} {name : String} (hderives : rt.Derives name)
    (hab : a.get "_cursor" = b.get "_cursor")
    (hx : derivedArgs redact rt ⟨some (.ok a), identity, client, hint⟩ = .ok x)
    (hy : derivedArgs redact rt ⟨some (.ok b), identity, client, hint⟩ = .ok y) :
    x.get name = y.get name := by
  simp only [derivedArgs, parseArgs, bind_eq_ok, Except.ok.injEq, exists_eq_left',
    mapError_eq_ok] at hx hy
  exact hderives identity client a b x y hab hx hy

theorem placeholder_not_idempotency (col : String) :
    isIdempotencyName (StreamConfig.placeholder col) = false := by
  have hchars : ∀ s : String, s.toList.head? ≠ some '_' → StreamConfig.placeholder col ≠ s := by
    rintro s hs rfl
    exact hs (by simp [StreamConfig.placeholder])
  simp only [isIdempotencyName, Bool.or_eq_false_iff, decide_eq_false_iff_not]
  exact ⟨hchars _ (by decide), hchars _ (by decide)⟩

theorem not_idempotency_of_mem {cfg : StreamConfig} {name : String}
    (h : name ∈ cfg.placeholderNames) : isIdempotencyName name = false := by
  obtain ⟨col, -, rfl⟩ := List.mem_map.mp h
  exact placeholder_not_idempotency col

/-- A statement that names the token is not bound. -/
theorem not_bound_of_unbindable (h : rt.unbindable stmt = true) :
    ∃ e, bindStmt redact lib rt backendName request stmt = .error e := by
  simp only [ProfileRuntime.unbindable, Bool.and_eq_true, Option.isNone_iff_eq_none,
    decide_eq_true_eq] at h
  obtain ⟨⟨hplain, hstream⟩, hcursor⟩ := h
  obtain ⟨s, hs⟩ := Option.isSome_iff_exists.mp hstream
  cases hbind : bindStmt redact lib rt backendName request stmt with
  | error e => exact ⟨e, rfl⟩
  | ok xs =>
    obtain ⟨args, hargs, hall, -⟩ := bindStmt_ok hbind
    obtain ⟨derived, positioned, -, hpos, rfl⟩ := (callArgs_plain hplain).mp hargs
    rw [positionedArgs, hs] at hpos
    refine absurd ?_ (hall "_cursor" hcursor)
    rw [get_injectIdempotency (.inr (by decide)), get_cursor_of_apply hpos]

end

/-! ## Guarded bindings -/

section

variable {redact : String → String} {lib : CursorLib} {rt : ProfileRuntime} {backendName : String}
  {hint : Option IdempotencyHint}

/-- The caller has no say in the managed placeholders of a guarded binding. -/
theorem callerFree_of_guarded
    (hcursor : rt.streamRt = none ∨ "_cursor" ∉ exprNames rt.paramExprs) (h : rt.Guarded hint) :
    CallerFree redact lib rt backendName hint where
  same := by
    intro identity client a b hab stmt hstmt xs ys hx hy p hp q hq hname hman
    rcases h stmt hstmt with hun | hover
    · obtain ⟨e, he⟩ : ∃ e, bindStmt redact lib rt backendName
          ⟨some (.ok (.obj a.entries)), identity, client, hint⟩ stmt = .error e :=
        not_bound_of_unbindable hun
      exact absurd (hx.symm.trans he) nofun
    obtain ⟨args, hargs, -, hxs⟩ := bindStmt_ok hx
    obtain ⟨args', hargs', -, hys⟩ := bindStmt_ok hy
    obtain ⟨hmem, hpv⟩ := hxs p hp
    have hqv := (hys q hq).2
    rw [← hname] at hqv
    by_cases hfixed : rt.overwrites hint p.name = true
    case neg =>
      -- A computed parameter.
      obtain ⟨hidem, hderives⟩ := (hover p.name hmem hman).resolve_left hfixed
      have hcursor : p.name ≠ "_cursor" := fun he => absurd hman (by rw [he]; decide)
      have hover : rt.overwrites hint p.name = false := Bool.not_eq_true _ |>.mp hfixed
      obtain ⟨derived, hd, hget⟩ := get_callArgs hargs hcursor hidem hover
      obtain ⟨derived', hd', hget'⟩ := get_callArgs hargs' hcursor hidem hover
      have hsame : (Value.obj a.entries).get "_cursor" = (Value.obj b.entries).get "_cursor" := hab
      rw [hget, derivedArgs_get hderives hsame hd hd', ← hget'] at hpv
      exact Option.some.inj (hpv.symm.trans hqv)
    simp only [ProfileRuntime.overwrites, Bool.and_eq_true, Bool.or_eq_true,
      Option.isNone_iff_eq_none] at hfixed
    obtain ⟨hplain, hfixed⟩ := hfixed
    obtain ⟨derived, positioned, hd, hpos, rfl⟩ := (callArgs_plain hplain).mp hargs
    obtain ⟨derived', positioned', hd', hpos', rfl⟩ := (callArgs_plain hplain).mp hargs'
    rcases hfixed with hplace | ⟨hsome, hidem⟩
    · -- The position of a stream.
      obtain ⟨s, hs, hplace⟩ := (Option.any_eq_true _ _).mp hplace
      have hplace := of_decide_eq_true hplace
      have hnoexpr := hcursor.resolve_left (by rw [hs]; nofun)
      have hidem := not_idempotency_of_mem hplace
      rw [get_injectIdempotency (.inr hidem)] at hpv hqv
      rw [positionedArgs, hs] at hpos hpos'
      have hsame : derived.get "_cursor" = derived'.get "_cursor" := by
        rw [derivedArgs_cursor hnoexpr hd, derivedArgs_cursor hnoexpr hd', hab]
      rw [position_of_cursor hpos hpos' hsame hplace] at hpv
      exact Option.some.inj (hpv.symm.trans hqv)
    · -- The hint.
      obtain ⟨hint, rfl⟩ := Option.isSome_iff_exists.mp hsome
      have hpv := get_injectIdempotency_hint hidem hpv
      have hqv := get_injectIdempotency_hint hidem hqv
      exact Option.some.inj (hpv.symm.trans hqv)
  refused := by
    rintro rfl payload identity client stmt hstmt ⟨name, hname, hidem⟩
    rcases h stmt hstmt with hun | hover
    · exact not_bound_of_unbindable hun
    have hover := (hover name hname (by simp [isManaged, hidem])).resolve_right fun hother =>
      absurd (hidem.symm.trans hother.1) nofun
    simp only [ProfileRuntime.overwrites, Bool.and_eq_true, Bool.or_eq_true, Option.isSome_none,
      Bool.false_eq_true, false_and, or_false] at hover
    obtain ⟨s, -, hplace⟩ := (Option.any_eq_true _ _).mp hover.2
    have := not_idempotency_of_mem (of_decide_eq_true hplace)
    exact absurd (hidem.symm.trans this) nofun

/-- An argument for every placeholder. -/
def argsFor (order : List String) : OrdMap String Value :=
  order.foldl (fun args name => args.insert name .null) .empty

theorem get?_argsFor (order : List String) (k : String) :
    (argsFor order).get? k = if k ∈ order then some .null else none := by
  have hfold : ∀ args : OrdMap String Value,
      (order.foldl (fun args name => args.insert name .null) args).get? k =
        if k ∈ order then some .null else args.get? k := by
    induction order with
    | nil => simp
    | cons name order ih =>
      intro args
      rw [List.foldl_cons, ih, OrdMap.get?_insert]
      by_cases hk : k ∈ order
      · simp [hk]
      · by_cases hname : name = k
        · simp [hname]
        · simp [hk, hname, Ne.symm hname]
  exact hfold .empty

theorem derivedArgs_obj (hexprs : rt.paramExprs = []) (a : OrdMap String Value)
    (identity : Option PluginIdentity) (client : Option ClientInfo) :
    derivedArgs redact rt ⟨some (.ok (.obj a.entries)), identity, client, hint⟩ =
      .ok (.obj a.entries) := by
  simp [derivedArgs, parseArgs, hexprs, evaluateWithClient, bind_eq_ok, mapError_eq_ok]

/-- The object has every placeholder, and `name` as supplied. -/
def Supplies (order : List String) (name : String) (v : Value) (obj : List (String × Value)) : Prop :=
  (∀ k ∈ order, Assoc.get? obj k ≠ none) ∧ Assoc.get? obj name = some v

theorem get?_supplied (order : List String) (name : String) (v : Value) (k : String) :
    ((argsFor order).insert name v).get? k =
      if name = k then some v else if k ∈ order then some .null else none := by
  rw [OrdMap.get?_insert, get?_argsFor]

theorem supplies_argsFor (order : List String) (name : String) (v : Value) :
    Supplies order name v ((argsFor order).insert name v).entries := by
  refine ⟨fun k hk => ?_, (get?_supplied order name v name).trans (if_pos rfl)⟩
  show ((argsFor order).insert name v).get? k ≠ none
  rw [get?_supplied]
  split
  · nofun
  · simp

/-- The hint leaves every argument but its own, and those are there. -/
theorem Supplies.inject {order : List String} {name : String} {v : Value}
    {obj : List (String × Value)} (h : Supplies order name v obj)
    (hidem : hint = none ∨ isIdempotencyName name = false) :
    ∃ obj', injectIdempotency hint (.obj obj) = .obj obj' ∧ Supplies order name v obj' := by
  cases hint with
  | none => exact ⟨obj, rfl, h⟩
  | some hint =>
    refine ⟨_, rfl, fun k hk => ?_, ?_⟩
    · rw [Assoc.get?_insertAll]
      cases Assoc.get? (hintMembers hint).reverse k with
      | none => exact h.1 k hk
      | some w => nofun
    · rw [Assoc.get?_insertAll, get?_hintMembers hint name (hidem.resolve_left nofun),
        Option.none_or, h.2]

/-- The first position of a stream leaves every argument but its own, and those are
there. -/
theorem supplies_positioned {stmt : PreparedStmt} {name : String} (v : Value)
    (hun : ∀ s, rt.streamRt = some s → "_cursor" ∉ stmt.paramOrder) (hcursor : name ≠ "_cursor")
    (hplace : ∀ s, rt.streamRt = some s → name ∉ s.cfg.placeholderNames) :
    ∃ obj, positionedArgs lib rt backendName
        (.obj ((argsFor stmt.paramOrder).insert name v).entries) = .ok (.obj obj) ∧
      Supplies stmt.paramOrder name v obj := by
  obtain ⟨hall, hv⟩ := supplies_argsFor stmt.paramOrder name v
  cases hstream : rt.streamRt with
  | none => exact ⟨_, by rw [positionedArgs, hstream], hall, hv⟩
  | some s =>
    have hnocursor := hun s hstream
    have hstart : keysetValues lib s backendName (Assoc.get?
        ((argsFor stmt.paramOrder).insert name v).entries "_cursor") =
        .ok (s.cfg.cursorColumns.map fun col => (s.cfg.initial.get? col).getD .null) := by
      rw [show Assoc.get? ((argsFor stmt.paramOrder).insert name v).entries "_cursor" = none from
        (get?_supplied _ _ _ _).trans (by rw [if_neg hcursor, if_neg hnocursor])]
      rfl
    obtain ⟨obj, happly, hbound, hother⟩ := applyStreamCursor_obj hstart
    refine ⟨obj, by rw [positionedArgs, hstream]; exact happly, fun k hk => ?_, ?_⟩
    · by_cases hkp : k ∈ s.cfg.placeholderNames
      · obtain ⟨col, hcol, rfl⟩ := List.mem_map.mp hkp
        rw [hbound col hcol]
        nofun
      · rw [hother k hkp (by rintro rfl; exact hnocursor hk)]
        exact hall k hk
    · rw [hother name (hplace s hstream) hcursor]
      exact hv

/-- What is not overwritten is bound as the caller supplies it. -/
theorem binds_supplied (hexprs : rt.paramExprs = []) {stmt : PreparedStmt}
    (hun : rt.unbindable stmt = false) {name : String} (hname : name ∈ stmt.paramOrder)
    (hman : isManaged name = true) (hover : rt.overwrites hint name = false) (v : Value) :
    ∃ xs, bindStmt redact lib rt backendName
        ⟨some (.ok (.obj ((argsFor stmt.paramOrder).insert name v).entries)), none, none, hint⟩
        stmt = .ok xs ∧ ⟨name, v⟩ ∈ xs := by
  have hcursor : name ≠ "_cursor" := by
    rintro rfl
    exact absurd hman (by decide)
  have hd : derivedArgs redact rt
      ⟨some (.ok (.obj ((argsFor stmt.paramOrder).insert name v).entries)), none, none, hint⟩ =
        .ok (.obj ((argsFor stmt.paramOrder).insert name v).entries) :=
    derivedArgs_obj hexprs _ none none
  obtain ⟨obj, hargs, hall, hv⟩ : ∃ obj, callArgs redact lib rt backendName
      ⟨some (.ok (.obj ((argsFor stmt.paramOrder).insert name v).entries)), none, none, hint⟩ =
        .ok (.obj obj) ∧ Supplies stmt.paramOrder name v obj := by
    cases hawait : rt.awaitRt with
    | some aw => exact ⟨_, by rw [callArgs, hawait]; exact hd, supplies_argsFor _ _ v⟩
    | none =>
      simp only [ProfileRuntime.overwrites, hawait, Option.isNone_none, Bool.true_and,
        Bool.or_eq_false_iff] at hover
      obtain ⟨obj, hpos, hobj⟩ : ∃ obj, positionedArgs lib rt backendName
          (.obj ((argsFor stmt.paramOrder).insert name v).entries) = .ok (.obj obj) ∧
            Supplies stmt.paramOrder name v obj := by
        refine supplies_positioned v (fun s hs => ?_) hcursor fun s hs => ?_
        · simpa [ProfileRuntime.unbindable, hawait, hs] using hun
        · simpa [hs] using hover.1
      have hidem : hint = none ∨ isIdempotencyName name = false := by
        cases hint with
        | none => exact .inl rfl
        | some hint => exact .inr (by simpa using hover.2)
      obtain ⟨obj', hinject, hobj'⟩ := hobj.inject hidem
      exact ⟨obj', (callArgs_plain hawait).mpr ⟨_, _, hd, hpos, hinject.symm⟩, hobj'⟩
  obtain ⟨xs, hbind, hmem⟩ := bindStmt_of_args hargs hall
  exact ⟨xs, hbind, hmem name hname v hv⟩

/-- Without computed parameters, what is not guarded is chosen by the caller. -/
theorem guarded_of_callerFree (hexprs : rt.paramExprs = [])
    (h : CallerFree redact lib rt backendName hint) : rt.Guarded hint := by
  intro stmt hstmt
  by_contra hnot
  simp only [not_or, Bool.not_eq_true, not_forall] at hnot
  obtain ⟨hun, name, hname, hman, hover, -⟩ := hnot
  have hsupplied : ∀ v, ∃ xs, bindStmt redact lib rt backendName
      ⟨some (.ok (.obj ((argsFor stmt.paramOrder).insert name v).entries)), none, none, hint⟩
      stmt = .ok xs ∧ ⟨name, v⟩ ∈ xs :=
    binds_supplied hexprs hun hname hman hover
  obtain ⟨xs, hx, hp⟩ := hsupplied (.bool true)
  obtain ⟨ys, hy, hq⟩ := hsupplied (.bool false)
  have hcursor : name ≠ "_cursor" := by
    rintro rfl
    exact absurd hman (by decide)
  have := h.same none none _ _ (by simp [hcursor]) stmt hstmt xs ys hx hy _ hp _ hq rfl hman
  cases this

end

/-- A guarded binding, none of whose computed parameters is the token of its stream, is
one whose managed placeholders the caller does not choose. Without computed
parameters these are the guarded bindings only. -/
theorem managed_iff (redact : String → String) (lib : CursorLib) (rt : ProfileRuntime)
    (backendName : String) (hint : Option IdempotencyHint) :
    (rt.streamRt = none ∨ "_cursor" ∉ exprNames rt.paramExprs → rt.Guarded hint →
      CallerFree redact lib rt backendName hint) ∧
    (rt.paramExprs = [] →
      (CallerFree redact lib rt backendName hint ↔ rt.Guarded hint)) := by
  refine ⟨callerFree_of_guarded, fun hexprs => ⟨guarded_of_callerFree hexprs, fun h => ?_⟩⟩
  refine callerFree_of_guarded (.inr ?_) h
  rw [hexprs]
  exact List.not_mem_nil

/-! ## Bindings that are guarded, and not -/

/-- A request of a caller that supplies one argument. -/
def supplies (name value : String) : BackendRequest :=
  { payload := some (.ok (.obj (OrdMap.empty.insert name (.str value)).entries)) }

/-- The arguments after `id` of a query that is no stream, the key of a request without
a hint, and the key of an `await` check whatever the hint: all are registered, and
all are bound from the caller's arguments. -/
theorem caller_binds_managed :
    (∃ stmt, prepareSql "SELECT id FROM orders WHERE id > :_after_id" [] .postgres = .ok stmt ∧
      ¬ CallerFree id (sampleLib []) ⟨stmt, [], none, none⟩ "orders" none) ∧
    (∃ stmt, prepareSql "INSERT INTO seen VALUES (:idempotency_key)" [] .postgres = .ok stmt ∧
      bindStmt id (sampleLib []) ⟨stmt, [], none, none⟩ "seen" (supplies "idempotency_key" "mine")
        stmt = .ok [⟨"idempotency_key", .str "mine"⟩]) ∧
    ∃ stmt check, prepareSql "SELECT 1" [] .postgres = .ok stmt ∧
      prepareSql "SELECT done FROM jobs WHERE key = :idempotency_key" [] .postgres = .ok check ∧
      bindStmt id (sampleLib []) ⟨stmt, [], none, some ⟨none, check⟩⟩ "jobs"
        { supplies "idempotency_key" "mine" with idempotency := some ⟨"gateway", "scope"⟩ } check =
        .ok [⟨"idempotency_key", .str "mine"⟩] := by
  refine ⟨⟨_, rfl, fun h => ?_⟩, ⟨_, rfl, rfl⟩, _, _, rfl, rfl, rfl⟩
  have := h.same none none (OrdMap.empty.insert "_after_id" (.str "0"))
    (OrdMap.empty.insert "_after_id" (.str "9")) rfl _ List.mem_cons_self _ _ rfl rfl _
    List.mem_cons_self _ List.mem_cons_self rfl (by decide)
  exact absurd this (by decide)

/-- The orders after the token, under the key of the gateway's hint. -/
def guardedOrders : ProfileRuntime where
  stmt := ⟨"SELECT id FROM orders WHERE id > $1 AND key = $2", ["_after_id", "idempotency_key"],
    .postgres⟩
  streamRt := some ordersStream

theorem guardedOrders_callerFree :
    CallerFree id (sampleLib []) guardedOrders "orders" (some ⟨"gateway", "scope"⟩) := by
  refine ((managed_iff id (sampleLib []) guardedOrders "orders" _).2 rfl).mpr ?_
  intro stmt hstmt
  obtain rfl := List.mem_singleton.mp hstmt
  refine .inr fun name hname _ => .inl ?_
  rcases List.mem_cons.mp hname with rfl | hname
  · decide
  · obtain rfl := List.mem_singleton.mp hname
    decide

end McpgSql.Execute
