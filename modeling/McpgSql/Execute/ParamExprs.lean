import McpgSql.Config
import McpgSql.Json
import McpgSql.Library.Except

/-!
# Computed parameters

`param_exprs`: the expressions a binding declares, evaluated one after the other
over the arguments of a call, each result written over the argument of its name.
A compiled expression is a function of the arguments, the identity and the client.

An expression that is evaluated before another one reads the caller's value of the
other's name (`spoofed`). What a caller supplies under the names is without
influence exactly where no expression reads its own or a later name
(`unspoofable_iff`).
-/

namespace McpgSql

open Library

/-- The caller as the host verified it. -/
structure PluginIdentity where
  kind : String
  trustLevel : String
  subjectId : Option String := none
  authProvider : Option String := none
  issuer : Option String := none
  roles : List String := []
  groups : List String := []
  scopes : List String := []
  attributes : OrdMap String String := .empty

/-- The client of the call, as it names itself. -/
structure ClientInfo where
  name : String
  version : Option String := none

/-- A compiled expression, of the arguments, the identity and the client. -/
abbrev Program := Value → Value → Value → Except String Value

structure ParamExpr where
  name : String
  program : Program
  source : String

/-- Every declared expression, compiled in the order of the names. -/
def compileAll (compile : String → Except String Program) (exprs : OrdMap String String) :
    Except SqlError (List ParamExpr) :=
  exprs.entries.mapM fun (name, source) =>
    match compile source with
    | .error e => .error (.invalidSpec
        ("param_exprs['" ++ name ++ "'] does not compile as CEL: " ++ e))
    | .ok program => .ok ⟨name, program, source⟩

def optString : Option String → Value
  | some s => .str s
  | none => .null

def stringList (items : List String) : Value := .arr (items.map .str)

/-- The `identity` of an expression; a missing one is anonymous. -/
def identityJson (id : Option PluginIdentity) : Value :=
  .object [
    ("kind", .str (id.elim "anonymous" (·.kind))),
    ("trust_level", .str (id.elim "unauthenticated" (·.trustLevel))),
    ("subject_id", id.elim .null (optString ·.subjectId)),
    ("auth_provider", id.elim .null (optString ·.authProvider)),
    ("issuer", id.elim .null (optString ·.issuer)),
    ("roles", stringList (id.elim [] (·.roles))),
    ("groups", stringList (id.elim [] (·.groups))),
    ("scopes", stringList (id.elim [] (·.scopes))),
    -- The host's reserved keys are no data of the caller.
    ("attributes", .obj (id.elim [] fun i =>
      (i.attributes.entries.filter fun e => !e.1.startsWith "__mcpg_").map
        fun e => (e.1, .str e.2)))]

/-- The `client` of an expression. -/
def clientJson (client : Option ClientInfo) : Value :=
  .object [
    ("name", optString (client.map (·.name))),
    ("version", optString (client.bind (·.version)))]

/-- The loop of `evaluate_with_client`: each expression reads the arguments with the
earlier results, and its own result is written over the argument of its name. -/
def evaluateLoop (identity client : Value) :
    List ParamExpr → List (String × Value) → Except SqlError (List (String × Value))
  | [], obj => .ok obj
  | expr :: exprs, obj =>
    match expr.program (.obj obj) identity client with
    | .error e => .error (.invalidSpec
        ("param_exprs['" ++ expr.name ++ "'] failed: " ++ e ++ " (source: " ++ expr.source ++ ")"))
    | .ok out => evaluateLoop identity client exprs (Assoc.insert obj expr.name out)

/-- `evaluate_with_client`, with the arguments it leaves. -/
def evaluateWithClient (args : Value) (exprs : List ParamExpr) (identity : Option PluginIdentity)
    (client : Option ClientInfo) : Except SqlError Value :=
  if exprs.isEmpty then .ok args
  else match args with
    | .null => Value.obj <$> evaluateLoop (identityJson identity) (clientJson client) exprs []
    | .obj obj => Value.obj <$> evaluateLoop (identityJson identity) (clientJson client) exprs obj
    | args => .error (.invalidSpec
        ("param_exprs require an object-shaped args payload; got " ++ args.jsonType))

/-! ## What a caller can do to the results -/

/-- The names of the expressions, in the order they are evaluated. -/
def exprNames (exprs : List ParamExpr) : List String := exprs.map (·.name)

/-- The arguments differ only under these names. -/
def AgreeBut (names : List String) (a b : OrdMap String Value) : Prop :=
  ∀ k, k ∉ names → a.get? k = b.get? k

/-- Both evaluations fail, or both give the same values under these names. -/
def SameDerivations (names : List String) : Except SqlError Value → Except SqlError Value → Prop
  | .ok a, .ok b => ∀ name ∈ names, a.get name = b.get name
  | .error _, .error _ => True
  | _, _ => False

/-- What a caller supplies under the names of the expressions is without influence. -/
def Unspoofable (exprs : List ParamExpr) (identity : Option PluginIdentity)
    (client : Option ClientInfo) : Prop :=
  ∀ a b : OrdMap String Value, AgreeBut (exprNames exprs) a b →
    SameDerivations (exprNames exprs) (evaluateWithClient (.obj a.entries) exprs identity client)
      (evaluateWithClient (.obj b.entries) exprs identity client)

/-- Over the other arguments `other`, each expression gives one value, whatever stands
under its own name and the names after it; the names before it have their values. -/
def Independent (identity client : Value) : List ParamExpr → OrdMap String Value → Prop
  | [], _ => True
  | expr :: exprs, other => ∃ out,
      (∀ args, AgreeBut (exprNames (expr :: exprs)) args other →
        expr.program (.obj args.entries) identity client = .ok out) ∧
      Independent identity client exprs (other.insert expr.name out)

/-- No expression's result, or failure, depends on its own name or one after it. -/
def ReadsEarlier (identity client : Value) (exprs : List ParamExpr) : Prop :=
  ∀ expr later, expr :: later <:+ exprs → ∀ a b, AgreeBut (exprNames (expr :: later)) a b →
    (expr.program (.obj a.entries) identity client).toOption =
      (expr.program (.obj b.entries) identity client).toOption

section

variable {identity client : Value} {exprs : List ParamExpr} {a b other : OrdMap String Value}

theorem AgreeBut.trans {names : List String} {c : OrdMap String Value} (h : AgreeBut names a b)
    (h' : AgreeBut names b c) : AgreeBut names a c :=
  fun k hk => (h k hk).trans (h' k hk)

theorem AgreeBut.symm {names : List String} (h : AgreeBut names a b) : AgreeBut names b a :=
  fun k hk => (h k hk).symm

/-- Where the first name is given its value, it no longer differs. -/
theorem AgreeBut.insert {name : String} {names : List String} (h : AgreeBut (name :: names) a b)
    (v : Value) : AgreeBut names (a.insert name v) (b.insert name v) := by
  intro k hk
  simp only [OrdMap.get?_insert]
  split
  · rfl
  · rename_i hne
    exact h k (by simpa [Ne.symm hne] using hk)

theorem insert_eq_self {name : String} {v : Value} (h : a.get? name = some v) :
    a.insert name v = a := by
  refine OrdMap.ext_get? fun k => ?_
  rw [OrdMap.get?_insert]
  split
  · rename_i hk
    rw [← hk, h]
  · rfl

theorem evaluateLoop_cons_ok {expr : ParamExpr} {m : List (String × Value)} :
    evaluateLoop identity client (expr :: exprs) a.entries = .ok m ↔
      ∃ out, expr.program (.obj a.entries) identity client = .ok out ∧
        evaluateLoop identity client exprs (a.insert expr.name out).entries = .ok m := by
  rw [evaluateLoop]
  cases expr.program (.obj a.entries) identity client with
  | error e => simp
  | ok out => simp [OrdMap.insert]

/-- Only the names are written. -/
theorem evaluateLoop_frame {m : List (String × Value)}
    (h : evaluateLoop identity client exprs a.entries = .ok m) :
    ∃ final : OrdMap String Value, m = final.entries ∧ AgreeBut (exprNames exprs) final a := by
  induction exprs generalizing a with
  | nil =>
    cases h
    exact ⟨a, rfl, fun _ _ => rfl⟩
  | cons expr exprs ih =>
    obtain ⟨out, -, h⟩ := evaluateLoop_cons_ok.mp h
    obtain ⟨final, rfl, hfinal⟩ := ih h
    refine ⟨final, rfl, fun k hk => ?_⟩
    simp only [exprNames, List.map_cons, List.mem_cons, not_or] at hk
    rw [hfinal k hk.2, OrdMap.get?_insert, if_neg (Ne.symm hk.1)]

/-- Every evaluation over `other` ends with the same arguments exactly where each
expression is independent of what the caller supplies. -/
theorem independent_iff (hnodup : (exprNames exprs).Nodup) :
    Independent identity client exprs other ↔ ∃ final : OrdMap String Value,
      ∀ args, AgreeBut (exprNames exprs) args other →
        evaluateLoop identity client exprs args.entries = .ok final.entries := by
  induction exprs generalizing other with
  | nil =>
    refine ⟨fun _ => ⟨other, fun args hargs => ?_⟩, fun _ => trivial⟩
    rw [OrdMap.ext_get? fun k => hargs k List.not_mem_nil]
    rfl
  | cons expr exprs ih =>
    obtain ⟨hname, hnodup⟩ := List.nodup_cons.mp hnodup
    constructor
    · rintro ⟨out, hout, hrest⟩
      obtain ⟨final, hfinal⟩ := (ih hnodup).mp hrest
      exact ⟨final, fun args hargs => evaluateLoop_cons_ok.mpr
        ⟨out, hout args hargs, hfinal _ (hargs.insert out)⟩⟩
    · rintro ⟨final, hfinal⟩
      -- The value of the first name stays to the end, so every evaluation gives it.
      have hvalue : ∀ args, AgreeBut (exprNames (expr :: exprs)) args other →
          ∃ out, expr.program (.obj args.entries) identity client = .ok out ∧
            evaluateLoop identity client exprs (args.insert expr.name out).entries =
              .ok final.entries ∧ final.get? expr.name = some out := by
        intro args hargs
        obtain ⟨out, hout, hrest⟩ := evaluateLoop_cons_ok.mp (hfinal args hargs)
        obtain ⟨final', he, hframe⟩ := evaluateLoop_frame hrest
        refine ⟨out, hout, hrest, ?_⟩
        rw [OrdMap.get?, he, ← OrdMap.get?, hframe _ hname, OrdMap.get?_insert, if_pos rfl]
      obtain ⟨out, -, -, hout⟩ := hvalue other fun _ _ => rfl
      refine ⟨out, fun args hargs => ?_, (ih hnodup).mpr ⟨final, fun args hargs => ?_⟩⟩
      · obtain ⟨out', hp, -, hout'⟩ := hvalue args hargs
        rw [hp, Option.some.inj (hout'.symm.trans hout)]
      · have hown : args.get? expr.name = some out := by
          rw [hargs _ hname, OrdMap.get?_insert, if_pos rfl]
        have hother : AgreeBut (exprNames (expr :: exprs)) args other := by
          intro k hk
          simp only [exprNames, List.map_cons, List.mem_cons, not_or] at hk
          rw [hargs k hk.2, OrdMap.get?_insert, if_neg (Ne.symm hk.1)]
        obtain ⟨out', -, hrest, hout'⟩ := hvalue args hother
        rw [Option.some.inj (hout'.symm.trans hout), insert_eq_self hown] at hrest
        exact hrest

/-- Over an object the expressions are evaluated by the loop. -/
theorem evaluateWithClient_obj (exprs : List ParamExpr) (a : OrdMap String Value)
    (id : Option PluginIdentity) (cl : Option ClientInfo) :
    evaluateWithClient (.obj a.entries) exprs id cl =
      Value.obj <$> evaluateLoop (identityJson id) (clientJson cl) exprs a.entries := by
  rw [evaluateWithClient]
  cases exprs with
  | nil => rfl
  | cons expr exprs => rfl

/-- The names of compiled expressions are distinct. -/
theorem exprNames_nodup {compile : String → Except String Program}
    {sources : OrdMap String String} (h : compileAll compile sources = .ok exprs) :
    (exprNames exprs).Nodup := by
  have hnames : exprNames exprs = sources.entries.map Prod.fst := by
    simp only [compileAll] at h
    generalize sources.entries = entries at h ⊢
    induction entries generalizing exprs with
    | nil =>
      cases h
      rfl
    | cons e entries ih =>
      simp only [List.mapM_cons, bind_eq_ok, pure_eq_ok] at h
      obtain ⟨expr, he, exprs, hrest, rfl⟩ := h
      split at he
      · cases he
      · cases he
        rw [exprNames, List.map_cons, List.map_cons, ← ih hrest]
        rfl
  rw [hnames]
  exact Assoc.nodup_keys sources.sorted

/-- Two evaluations that succeed with the same values under the names end with the
same arguments. -/
theorem final_eq {final final' : OrdMap String Value} {names : List String}
    (hframe : AgreeBut names final a) (hframe' : AgreeBut names final' b) (hab : AgreeBut names a b)
    (h : ∀ name ∈ names, final.get? name = final'.get? name) : final = final' := by
  refine OrdMap.ext_get? fun k => ?_
  by_cases hk : k ∈ names
  · exact h k hk
  · exact ((hframe.trans hab).trans hframe'.symm) k hk

theorem sameDerivations_of_toOption {names : List String}
    {x y : Except SqlError (List (String × Value))} (h : x.toOption = y.toOption) :
    SameDerivations names (Value.obj <$> x) (Value.obj <$> y) := by
  cases x with
  | error e =>
    cases y with
    | error e' => trivial
    | ok m => cases h
  | ok m =>
    cases y with
    | error e' => cases h
    | ok m' =>
      cases h
      exact fun _ _ => rfl

theorem sameDerivations_of_not_isOk {names : List String} {x y : Except SqlError Value}
    (hx : ¬ x.isOk) (hy : ¬ y.isOk) : SameDerivations names x y := by
  cases x with
  | ok v => exact absurd rfl hx
  | error e =>
    cases y with
    | ok w => exact absurd rfl hy
    | error e' => trivial

/-- An evaluation with the derivations of one that succeeds ends as that one does. -/
theorem evaluateLoop_eq_of_sameDerivations {final : OrdMap String Value}
    (hab : AgreeBut (exprNames exprs) a b) (hframe : AgreeBut (exprNames exprs) final a)
    (hsame : SameDerivations (exprNames exprs) (.ok (.obj final.entries))
      (Value.obj <$> evaluateLoop identity client exprs b.entries)) :
    evaluateLoop identity client exprs b.entries = .ok final.entries := by
  cases hm : evaluateLoop identity client exprs b.entries with
  | error e =>
    rw [hm] at hsame
    cases hsame
  | ok m =>
    obtain ⟨final', rfl, hframe'⟩ := evaluateLoop_frame hm
    rw [hm] at hsame
    rw [final_eq hframe hframe' hab hsame]

/-- Where no expression depends on its own name or one after it, two evaluations both
fail or end with the same arguments. -/
theorem evaluateLoop_congr (h : ReadsEarlier identity client exprs)
    (hab : AgreeBut (exprNames exprs) a b) :
    (evaluateLoop identity client exprs a.entries).toOption =
      (evaluateLoop identity client exprs b.entries).toOption := by
  induction exprs generalizing a b with
  | nil =>
    rw [OrdMap.ext_get? fun k => hab k List.not_mem_nil]
  | cons expr exprs ih =>
    have hfirst := h expr exprs List.suffix_rfl a b hab
    have hrest : ReadsEarlier identity client exprs :=
      fun e later hs => h e later (hs.trans (List.suffix_cons _ _))
    simp only [evaluateLoop]
    cases ha : expr.program (.obj a.entries) identity client with
    | error e =>
      cases hb : expr.program (.obj b.entries) identity client with
      | error e' => rfl
      | ok out => simp [ha, hb, Except.toOption] at hfirst
    | ok out =>
      cases hb : expr.program (.obj b.entries) identity client with
      | error e' => simp [ha, hb, Except.toOption] at hfirst
      | ok out' =>
        obtain rfl : out = out' := by simpa [ha, hb, Except.toOption] using hfirst
        exact ih hrest (hab.insert out)

end

/-- What a caller supplies under the names of the expressions is without influence
exactly where, over every choice of the other arguments, either the evaluation
always fails or each expression gives one value whatever stands under its own name
and the names after it. It is where no expression depends on these names. -/
theorem unspoofable_iff {compile : String → Except String Program} {sources : OrdMap String String}
    {exprs : List ParamExpr} (hexprs : compileAll compile sources = .ok exprs)
    (identity : Option PluginIdentity) (client : Option ClientInfo) :
    (Unspoofable exprs identity client ↔ ∀ other : OrdMap String Value,
      (∀ args, AgreeBut (exprNames exprs) args other →
        ¬ (evaluateWithClient (.obj args.entries) exprs identity client).isOk) ∨
      Independent (identityJson identity) (clientJson client) exprs other) ∧
    (ReadsEarlier (identityJson identity) (clientJson client) exprs →
      Unspoofable exprs identity client) := by
  have hnodup := exprNames_nodup hexprs
  simp only [Unspoofable, evaluateWithClient_obj, independent_iff hnodup]
  refine ⟨⟨fun h other => ?_, fun h a b hab => ?_⟩, fun h a b hab => ?_⟩
  · by_cases hfail : ∀ args, AgreeBut (exprNames exprs) args other →
        ¬ (Value.obj <$> evaluateLoop (identityJson identity) (clientJson client) exprs
          args.entries).isOk
    · exact .inl hfail
    simp only [not_forall, not_not] at hfail
    obtain ⟨args, hargs, hok⟩ := hfail
    -- One evaluation succeeds, so all of them do, with its values.
    cases hm : evaluateLoop (identityJson identity) (clientJson client) exprs args.entries with
    | error e =>
      rw [hm] at hok
      cases hok
    | ok m =>
      obtain ⟨final, rfl, hframe⟩ := evaluateLoop_frame hm
      refine .inr ⟨final, fun args' hargs' => ?_⟩
      have hagree := hargs.trans hargs'.symm
      have hsame := h args args' hagree
      rw [hm] at hsame
      exact evaluateLoop_eq_of_sameDerivations hagree hframe hsame
  · rcases h b with hfail | ⟨final, hfinal⟩
    · exact sameDerivations_of_not_isOk (hfail a hab) (hfail b fun _ _ => rfl)
    · rw [hfinal a hab, hfinal b fun _ _ => rfl]
      exact fun _ _ => rfl
  · exact sameDerivations_of_toOption (evaluateLoop_congr h hab)

/-- Two expressions, by their text. -/
def compileSample (source : String) : Except String Program :=
  if source = "arguments.b" then .ok fun arguments _ _ =>
    match arguments.get "b" with
    | some v => .ok v
    | none => .error "No such key: b"
  else if source = "arguments.a" then .ok fun arguments _ _ =>
    match arguments.get "a" with
    | some v => .ok v
    | none => .error "No such key: a"
  else .ok fun _ _ _ => .ok (.str "server")

def sampleSources (a b : String) : OrdMap String String :=
  ((OrdMap.empty.insert "a" a).insert "b" b)

/-- `a` is read off the argument `b`, which an expression overrides after it. -/
theorem spoofed :
    ∃ exprs, compileAll compileSample (sampleSources "arguments.b" "'server'") = .ok exprs ∧
      ¬ Unspoofable exprs none none := by
  refine ⟨_, rfl, fun h => ?_⟩
  have := h (OrdMap.empty.insert "b" (.str "x")) (OrdMap.empty.insert "b" (.str "y")) ?_
  · exact absurd (this "a" List.mem_cons_self) (by decide)
  · intro k hk
    have hk : k ∉ ["a", "b"] := hk
    simp only [List.mem_cons, not_or] at hk
    rw [OrdMap.get?_insert, OrdMap.get?_insert, if_neg (Ne.symm hk.2.1), if_neg (Ne.symm hk.2.1)]

/-- `b` is read off `a`, which has its value by then. -/
theorem unspoofable_sample :
    ∃ exprs, compileAll compileSample (sampleSources "'server'" "arguments.a") = .ok exprs ∧
      Unspoofable exprs none none := by
  have hexprs : compileAll compileSample (sampleSources "'server'" "arguments.a") = .ok _ := rfl
  refine ⟨_, hexprs, (unspoofable_iff hexprs none none).2 ?_⟩
  intro expr later hs a b hab
  rcases List.suffix_cons_iff.mp hs with hs | hs
  · cases hs
    rfl
  · rcases List.suffix_cons_iff.mp hs with hs | hs
    · cases hs
      have ha : a.get? "a" = b.get? "a" := hab "a" (by decide)
      show (match a.get? "a" with | some v => _ | none => _ : Except String Value).toOption = _
      rw [ha]
      rfl
    · cases List.suffix_nil.mp hs

end McpgSql
