import McpgSql.Cache.Reading

/-!
# Which calls share a key

The same calls always have the same key, and calls of different backends, SQL
texts or versions never share one (`key_cut`). Parameters and session
variables are told apart when their texts are clean (`Call.Clean`,
`Call.VarsApart`), and for every value only where a binding has no parameter and
at most one session variable: the texts are written without escaping or length.
-/

namespace McpgSql.Cache

open Library

variable {lib : Lib}

/-! ## Parameters -/

/-- The parameters depend on the canonical form of their values. -/
theorem writeCanonicalParams_congr {i : Nat} {ps qs : List BoundParam}
    (h : ps.map canonParam = qs.map canonParam) :
    writeCanonicalParams lib i ps = writeCanonicalParams lib i qs := by
  induction ps generalizing qs i with
  | nil =>
    cases qs with
    | nil => rfl
    | cons q qs => simp at h
  | cons p ps ih =>
    cases qs with
    | nil => simp at h
    | cons q qs =>
      simp only [List.map_cons, List.cons.injEq, canonParam, BoundParam.mk.injEq] at h
      rw [writeCanonicalParams, writeCanonicalParams, writeValue_eq_emit, writeValue_eq_emit,
        h.1.1, h.1.2, ih h.2]

/-- What stands after the parameters: no byte, or two that are no zeros. -/
def VarsStart (vars : List UInt8) : Prop :=
  ∀ b s, vars ≠ 0 :: s ∧ vars ≠ b :: 0 :: s

/-- A parameter whose name and value are clean. -/
def cleanParam (p : BoundParam) : Bool := markSafe '='.toUInt8 (utf8 p.name) && clean p.value

/-- The parameters and variables after a value follow it. -/
theorem follow_params {i : Nat} {ps : List BoundParam} {u : List UInt8} (h0 : 0 < i)
    (hi : i + ps.length ≤ 65536) (hu : VarsStart u) :
    Follow (';'.toUInt8 :: (writeCanonicalParams lib i ps ++ 0 :: u)) := by
  refine .done fun ⟨r, hr⟩ => ?_
  cases ps with
  | nil => exact (hu 0 r).1 (List.cons.inj hr).2.symm
  | cons p ps =>
    have hi : i < 65536 := by simp only [List.length_cons] at hi; omega
    rw [writeCanonicalParams, le32_of_lt hi] at hr
    simp only [List.cons_append, List.cons.injEq] at hr
    exact le32_ne_zeros h0 hi ⟨hr.1.symm, hr.2.1.symm⟩

/-- The end of the parameters is not the index of one. -/
theorem not_end_index {i : Nat} {p : BoundParam} {ps : List BoundParam} {u t : List UInt8}
    (hi : i + (p :: ps).length ≤ 65536) (hu : VarsStart u)
    (h : 0 :: u = writeCanonicalParams lib i (p :: ps) ++ t) : False := by
  have hi : i < 65536 := by simp only [List.length_cons] at hi; omega
  rw [writeCanonicalParams, le32_of_lt hi] at h
  exact (hu _ _).2 (List.cons.inj h).2

/-- Clean parameters are cut off the bytes in one way. -/
theorem writeCanonicalParams_cut (hlib : lib.Lawful) {i : Nat} {ps qs : List BoundParam}
    {u w : List UInt8} (hps : i + ps.length ≤ 65536) (hqs : i + qs.length ≤ 65536)
    (hp : ∀ p ∈ ps, cleanParam p) (hq : ∀ q ∈ qs, cleanParam q) (hu : VarsStart u)
    (hw : VarsStart w)
    (h : writeCanonicalParams lib i ps ++ 0 :: u = writeCanonicalParams lib i qs ++ 0 :: w) :
    ps.map canonParam = qs.map canonParam ∧ u = w := by
  induction ps generalizing qs i with
  | nil =>
    cases qs with
    | nil => exact ⟨rfl, (List.cons.inj h).2⟩
    | cons q qs => exact (not_end_index hqs hu h).elim
  | cons p ps ih =>
    cases qs with
    | nil => exact (not_end_index hps hw h.symm).elim
    | cons q qs =>
      have hpc := hp p List.mem_cons_self
      have hqc := hq q List.mem_cons_self
      simp only [cleanParam, Bool.and_eq_true] at hpc hqc
      simp only [List.length_cons] at hps hqs
      simp only [writeCanonicalParams, writeValue_eq_emit, List.append_assoc, List.cons_append]
        at h
      obtain ⟨hname, h⟩ := name_cut (by decide) (starts_emit lib _ _) (starts_emit lib _ _)
        hpc.1 hqc.1 (List.append_cancel_left h)
      obtain ⟨hvalue, h⟩ := emit_cut hlib _ _ (clean_canon _ hpc.2) (clean_canon _ hqc.2)
        (follow_params (by omega) (by omega) hu) (follow_params (by omega) (by omega) hw) h
      obtain ⟨hrest, huw⟩ := ih (by omega) (by omega)
        (fun p hp' => hp p (List.mem_cons_of_mem _ hp'))
        (fun q hq' => hq q (List.mem_cons_of_mem _ hq')) (List.cons.inj h).2
      refine ⟨?_, huw⟩
      rw [List.map_cons, List.map_cons, hrest, canonParam, canonParam, hvalue, utf8_inj.mp hname]

/-! ## Session variables -/

/-- The variables as records of bytes. -/
def varRecords (vars : OrdMap String String) : List (List UInt8 × List UInt8) :=
  vars.entries.map fun var => (utf8 var.1, utf8 var.2)

theorem writeSessionVars_eq_records (vars : OrdMap String String) :
    writeSessionVars vars = records '='.toUInt8 ';'.toUInt8 (varRecords vars) := by
  rw [writeSessionVars, varRecords]
  induction vars.entries with
  | nil => rfl
  | cons var entries ih => simp [records, ih]

theorem varRecords_inj {a b : OrdMap String String} (h : varRecords a = varRecords b) : a = b := by
  have hinj : Function.Injective fun var : String × String => (utf8 var.1, utf8 var.2) :=
    fun x y h => by
      simp only [Prod.mk.injEq, utf8_inj] at h
      exact Prod.ext h.1 h.2
  obtain ⟨a, ha⟩ := a
  obtain ⟨b, hb⟩ := b
  have : a = b := List.map_injective_iff.mpr hinj h
  subst this
  rfl

theorem identifier_plain {s : String} (h : isSafeSqlIdentifier s) :
    Plain '='.toUInt8 ';'.toUInt8 (utf8 s) :=
  ⟨fun hb => absurd ((identifier_bytes h).2 _ hb) (by decide),
    fun hb => absurd ((identifier_bytes h).2 _ hb) (by decide)⟩

theorem varRecords_plain {vars : OrdMap String String}
    (h : ∀ var ∈ vars.entries, isSafeSqlIdentifier var.1) :
    ∀ r ∈ varRecords vars, Plain '='.toUInt8 ';'.toUInt8 r.1 := by
  intro r hr
  obtain ⟨var, hvar, rfl⟩ := List.mem_map.mp hr
  exact identifier_plain (h var hvar)

/-- Variables start with an identifier. -/
theorem varsStart_of_identifiers {vars : OrdMap String String}
    (h : ∀ var ∈ vars.entries, isSafeSqlIdentifier var.1) :
    VarsStart (writeSessionVars vars) := by
  intro b s
  rw [writeSessionVars]
  cases hv : vars.entries with
  | nil => simp
  | cons var entries =>
    have hid := h var (by simp [hv])
    have hz : (0 : UInt8) ∉ utf8 var.1 := fun hb =>
      absurd ((identifier_bytes hid).2 _ hb) (by decide)
    have hne := (identifier_bytes hid).1
    match hk : utf8 var.1 with
    | [] => exact absurd hk hne
    | [c] =>
      rw [hk] at hz
      simp only [List.flatMap_cons, hk, List.cons_append, List.nil_append, ne_eq,
        List.cons.injEq, not_and]
      exact ⟨fun hc => absurd hc (by simpa [eq_comm] using hz), fun _ he => absurd he (by decide)⟩
    | c :: d :: bytes =>
      rw [hk] at hz
      simp only [List.mem_cons, not_or] at hz
      simp only [List.flatMap_cons, hk, List.cons_append, ne_eq, List.cons.injEq, not_and]
      exact ⟨fun hc => absurd hc.symm hz.1, fun _ hd => absurd hd.symm hz.2.1⟩

/-! ## Keys -/

/-- No name and no SQL text of the call has a NUL byte. -/
structure Call.NulFree (c : Call) : Prop where
  backendName : 0 ∉ utf8 c.backendName
  sqlText : 0 ∉ utf8 c.sqlText
  paramNames : ∀ p ∈ c.boundParams, 0 ∉ utf8 p.name
  varNames : ∀ var ∈ c.sessionVars.values.entries, 0 ∉ utf8 var.1

/-- The texts of the call are clean: no parameter's name or value can be read past
its end, and the names of the session variables are the identifiers that the
configuration admits. -/
structure Call.Clean (c : Call) : Prop where
  length : c.boundParams.length ≤ 65536
  params : ∀ p ∈ c.boundParams, cleanParam p
  varNames : ∀ var ∈ c.sessionVars.values.entries, isSafeSqlIdentifier var.1

/-- No session value of `a` holds a `;` with the name of a variable of `b` and `=`
after it. -/
def Call.VarsApart (a b : Call) : Prop :=
  Apart '='.toUInt8 ';'.toUInt8 (varRecords a.sessionVars.values) (varRecords b.sessionVars.values)

instance (a b : Call) : Decidable (a.VarsApart b) := inferInstanceAs (Decidable (Apart _ _ _ _))

theorem length_le64 (n : UInt64) : (le64 n).length = 8 := by
  simp [le64]

/-- A number below `256 ^ k` is determined by its `k` bytes. -/
theorem eq_of_bytes {k m n : Nat} (hm : m < 256 ^ k) (hn : n < 256 ^ k)
    (h : ∀ i < k, m / 256 ^ i % 256 = n / 256 ^ i % 256) : m = n := by
  induction k generalizing m n with
  | zero =>
    simp only [pow_zero] at hm hn
    omega
  | succ k ih =>
    have h0 := h 0 (Nat.succ_pos k)
    simp only [pow_zero, Nat.div_one] at h0
    rw [pow_succ] at hm hn
    have hdiv : m / 256 = n / 256 := by
      refine ih (Nat.div_lt_of_lt_mul (by omega)) (Nat.div_lt_of_lt_mul (by omega)) fun i hi => ?_
      have := h (i + 1) (Nat.succ_lt_succ hi)
      rwa [pow_succ', ← Nat.div_div_eq_div_mul, ← Nat.div_div_eq_div_mul] at this
    omega

theorem le64_inj {m n : UInt64} (h : le64 m = le64 n) : m = n := by
  refine UInt64.toNat_inj.mp (eq_of_bytes (k := 8) m.toNat_lt n.toNat_lt fun i hi => ?_)
  have := congrArg (fun l => (l.getD i 0).toNat) h
  rw [show 256 ^ i = 2 ^ (8 * i) by rw [pow_mul]; rfl]
  simpa [le64, List.getD_eq_getElem?_getD, hi, UInt8.toNat_ofNat'] using this

/-- The version is read in one way. -/
theorem version_cut {a b : Call}
    (h : writeCanonicalParams lib 0 a.boundParams ++ 0 ::
        (writeSessionVars a.sessionVars.values ++ 0 :: le64 a.version) =
      writeCanonicalParams lib 0 b.boundParams ++ 0 ::
        (writeSessionVars b.sessionVars.values ++ 0 :: le64 b.version)) :
    a.version = b.version ∧
      writeCanonicalParams lib 0 a.boundParams ++ 0 :: writeSessionVars a.sessionVars.values =
        writeCanonicalParams lib 0 b.boundParams ++ 0 :: writeSessionVars b.sessionVars.values := by
  have h : (writeCanonicalParams lib 0 a.boundParams ++ 0 ::
      writeSessionVars a.sessionVars.values) ++ 0 :: le64 a.version =
      (writeCanonicalParams lib 0 b.boundParams ++ 0 ::
        writeSessionVars b.sessionVars.values) ++ 0 :: le64 b.version := by
    simpa using h
  obtain ⟨hparts, hversion⟩ := List.append_inj' h (by simp [length_le64])
  exact ⟨le64_inj (List.cons.inj hversion).2, hparts⟩

/-- The backend name, the SQL text and the version are read in one way, and so
are the bytes of the parameters and variables together. -/
theorem key_cut (hlib : lib.Lawful) {a b : Call} (ha : a.NulFree) (hb : b.NulFree)
    (h : a.key lib = b.key lib) :
    a.backendName = b.backendName ∧ a.sqlText = b.sqlText ∧ a.version = b.version ∧
      writeCanonicalParams lib 0 a.boundParams ++ 0 :: writeSessionVars a.sessionVars.values =
        writeCanonicalParams lib 0 b.boundParams ++ 0 :: writeSessionVars b.sessionVars.values := by
  have h := List.append_cancel_left (hlib.blake3_injective h)
  obtain ⟨hname, h⟩ := cut_inj ha.backendName hb.backendName h
  obtain ⟨hsql, h⟩ := cut_inj ha.sqlText hb.sqlText h
  exact ⟨utf8_inj.mp hname, utf8_inj.mp hsql, version_cut h⟩

/-- The same calls have the same key. -/
theorem key_of_same {a b : Call} (h : a.Same b) : a.key lib = b.key lib := by
  obtain ⟨hname, hsql, hparams, hvars, hversion⟩ := Call.same_iff.mp h
  rw [Call.key, Call.key, buildCacheKey, buildCacheKey, keyBytes, keyBytes,
    writeCanonicalParams_congr hparams, hname, hsql, hvars, hversion]

/-- Calls of one backend and SQL text with one key have one version, and the bytes of
their parameters and variables are the same. -/
theorem parts_of_key (hlib : lib.Lawful) {a b : Call} (hname : a.backendName = b.backendName)
    (hsql : a.sqlText = b.sqlText) (h : a.key lib = b.key lib) :
    a.version = b.version ∧
      writeCanonicalParams lib 0 a.boundParams ++ 0 :: writeSessionVars a.sessionVars.values =
        writeCanonicalParams lib 0 b.boundParams ++ 0 :: writeSessionVars b.sessionVars.values := by
  have hbytes := hlib.blake3_injective h
  rw [keyBytes, keyBytes, hname, hsql] at hbytes
  have hbytes := List.append_cancel_left (List.append_cancel_left hbytes)
  exact version_cut (List.append_cancel_left (List.cons.inj hbytes).2 |> List.cons.inj |>.2)

/-- Clean parameters and variables are read in one way. -/
theorem Call.Clean.parts_inj (hlib : lib.Lawful) {a b : Call} (hca : a.Clean) (hcb : b.Clean)
    (hab : a.VarsApart b) (hba : b.VarsApart a)
    (h : writeCanonicalParams lib 0 a.boundParams ++ 0 :: writeSessionVars a.sessionVars.values =
      writeCanonicalParams lib 0 b.boundParams ++ 0 :: writeSessionVars b.sessionVars.values) :
    a.boundParams.map canonParam = b.boundParams.map canonParam ∧
      a.sessionVars = b.sessionVars := by
  obtain ⟨hparams, hvars⟩ := writeCanonicalParams_cut hlib (by simpa using hca.length)
    (by simpa using hcb.length) hca.params hcb.params (varsStart_of_identifiers hca.varNames)
    (varsStart_of_identifiers hcb.varNames) h
  rw [writeSessionVars_eq_records, writeSessionVars_eq_records] at hvars
  have hvalues : a.sessionVars.values = b.sessionVars.values :=
    varRecords_inj (records_inj (by decide) (varRecords_plain hca.varNames)
      (varRecords_plain hcb.varNames) hab hba hvars)
  exact ⟨hparams, SessionVars.mk.injEq .. |>.mpr hvalues⟩

/-- Clean calls with one key are the same. -/
theorem same_of_key (hlib : lib.Lawful) {a b : Call} (ha : a.NulFree) (hb : b.NulFree)
    (hca : a.Clean) (hcb : b.Clean) (hab : a.VarsApart b) (hba : b.VarsApart a)
    (h : a.key lib = b.key lib) : a.Same b := by
  obtain ⟨hname, hsql, hversion, h⟩ := key_cut hlib ha hb h
  obtain ⟨hparams, hvars⟩ := hca.parts_inj hlib hcb hab hba h
  exact Call.same_iff.mpr ⟨hname, hsql, hparams, hvars, hversion⟩

/-! ## Bindings -/

/-- What is the same in every call of a binding. -/
structure Binding where
  backendName : String
  sqlText : String
  paramNames : List String
  varNames : List String
  sorted : varNames.Pairwise (· < ·)

/-- A call of the binding. -/
structure Call.Of (c : Call) (binding : Binding) : Prop where
  backendName : c.backendName = binding.backendName
  sqlText : c.sqlText = binding.sqlText
  paramNames : c.boundParams.map BoundParam.name = binding.paramNames
  varNames : c.sessionVars.values.entries.map Prod.fst = binding.varNames

namespace Binding

/-- Different calls of the binding have different keys. -/
def Separates (lib : Lib) (binding : Binding) : Prop :=
  ∀ a b : Call, a.Of binding → b.Of binding → (a.key lib = b.key lib ↔ a.Same b)

/-- The variables of the binding with the values that `value` gives them. -/
def vars (binding : Binding) (value : String → String) : SessionVars :=
  ⟨binding.varNames.map fun k => (k, value k), List.pairwise_map.mpr binding.sorted⟩

/-- The call of the binding with these parameters and variables. -/
def call (binding : Binding) (value : String → Value) (var : String → String) : Call :=
  { backendName := binding.backendName
    sqlText := binding.sqlText
    boundParams := binding.paramNames.map fun name => ⟨name, value name⟩
    sessionVars := binding.vars var
    version := 0 }

theorem of_call (binding : Binding) (value : String → Value) (var : String → String) :
    (binding.call value var).Of binding :=
  ⟨rfl, rfl, by simp [call, Function.comp_def], by simp [call, vars, Function.comp_def]⟩

/-- A list of one text, written as `twoTexts` is. -/
def oneText : Value := .arr [.str "x\"\x01\x00\x00\x00\"y"]

/-- A list of two texts. -/
def twoTexts : Value := .arr [.str "x", .str "y"]

theorem writeValue_oneText (lib : Lib) : writeValue lib oneText = writeValue lib twoTexts := by
  rfl

/-- Values that are written alike give parameters that are. -/
theorem writeCanonicalParams_const (lib : Lib) {v w : Value}
    (h : writeValue lib v = writeValue lib w) (i : Nat) (names : List String) :
    writeCanonicalParams lib i (names.map fun name => ⟨name, v⟩) =
      writeCanonicalParams lib i (names.map fun name => ⟨name, w⟩) := by
  induction names generalizing i with
  | nil => rfl
  | cons name names ih =>
    rw [List.map_cons, List.map_cons, writeCanonicalParams, writeCanonicalParams, h, ih]

/-- A binding with a parameter does not separate its calls. -/
theorem not_separates_param {binding : Binding} {name : String} {names : List String}
    (h : binding.paramNames = name :: names) : ¬binding.Separates lib := by
  intro hsep
  have hkey : (binding.call (fun _ => oneText) fun _ => "").key lib =
      (binding.call (fun _ => twoTexts) fun _ => "").key lib := by
    simp only [Call.key, buildCacheKey, keyBytes, call,
      writeCanonicalParams_const lib (writeValue_oneText lib)]
  have hsame := (hsep _ _ (binding.of_call _ _) (binding.of_call _ _)).mp hkey
  obtain ⟨-, -, hparams, -⟩ := Call.same_iff.mp hsame
  simp only [call, h, List.map_cons, List.cons.injEq] at hparams
  exact absurd hparams.1 (by simp [canonParam, oneText, twoTexts, canon, canonItems])

/-- The variables are `k` with `x`, `j` with `y` and the others without a value. -/
def twoValues (k j x y name : String) : String :=
  if name = k then x else if name = j then y else ""

/-- A binding with two session variables does not separate its calls. -/
theorem not_separates_vars {binding : Binding} {k j : String} {names : List String}
    (h : binding.varNames = k :: j :: names) : ¬binding.Separates lib := by
  intro hsep
  have hsorted := binding.sorted
  rw [h] at hsorted
  have hkj : k ≠ j := ne_of_lt ((List.pairwise_cons.mp hsorted).1 j List.mem_cons_self)
  have hrest : ∀ x y x' y', names.map (fun name => (name, twoValues k j x y name)) =
      names.map (fun name => (name, twoValues k j x' y' name)) := fun x y x' y' => by
    refine List.map_congr_left fun name hname => ?_
    have hk := (List.pairwise_cons.mp hsorted).1 name (List.mem_cons_of_mem _ hname)
    have hj := (List.pairwise_cons.mp (List.pairwise_cons.mp hsorted).2).1 name hname
    simp [twoValues, hk.ne', hj.ne']
  -- `k` takes the text of the second record, or `j` takes it twice.
  have hkey : (binding.call (fun _ => .null) (twoValues k j "" (";" ++ j ++ "="))).key lib =
      (binding.call (fun _ => .null) (twoValues k j (";" ++ j ++ "=") "")).key lib := by
    simp only [Call.key, buildCacheKey, keyBytes, call, writeSessionVars, vars, h, List.map_cons,
      List.flatMap_cons, hrest "" (";" ++ j ++ "=") (";" ++ j ++ "=") ""]
    simp [twoValues, hkj.symm, utf8_append, show utf8 ";" = [';'.toUInt8] by decide,
      show utf8 "=" = ['='.toUInt8] by decide, show utf8 "" = [] by decide]
  have hsame := (hsep _ _ (binding.of_call _ _) (binding.of_call _ _)).mp hkey
  obtain ⟨-, -, -, hvars, -⟩ := Call.same_iff.mp hsame
  simp only [call, vars, h, List.map_cons, SessionVars.mk.injEq, OrdMap.mk.injEq, List.cons.injEq,
    Prod.mk.injEq, true_and] at hvars
  have hlength := congrArg String.length hvars.1
  simp only [twoValues, if_true, String.length_append] at hlength
  have : 0 = 1 + j.length + 1 := hlength
  omega

/-- One variable of a known name is read in one way. -/
theorem entries_of_writeSessionVars {a b : OrdMap String String}
    (hn : a.entries.map Prod.fst = b.entries.map Prod.fst) (hlength : a.entries.length ≤ 1)
    (h : writeSessionVars a = writeSessionVars b) : a.entries = b.entries := by
  have hl : a.entries.length = b.entries.length := by simpa using congrArg List.length hn
  rw [writeSessionVars, writeSessionVars] at h
  match ha : a.entries, hb : b.entries with
  | [], [] => rfl
  | [(k, v)], [(j, w)] =>
    rw [ha, hb] at h hn
    obtain rfl : k = j := by simpa using hn
    simp only [List.flatMap_cons, List.flatMap_nil, List.append_nil] at h
    have := List.append_cancel_right (List.cons.inj (List.append_cancel_left h)).2
    rw [utf8_inj.mp this]
  | [], _ :: _ | _ :: _, [] => simp [ha, hb] at hl
  | _ :: _ :: _, _ => simp [ha] at hlength
  | [_], _ :: _ :: _ => simp [ha, hb] at hl

/-- A binding with no parameter and one session variable at most separates its
calls. -/
theorem separates (hlib : lib.Lawful) {binding : Binding} (hparams : binding.paramNames = [])
    (hvars : binding.varNames.length ≤ 1) : binding.Separates lib := by
  intro a b ha hb
  refine ⟨fun h => ?_, key_of_same⟩
  have hname := ha.backendName.trans hb.backendName.symm
  have hsql := ha.sqlText.trans hb.sqlText.symm
  have ha0 : a.boundParams = [] := List.map_eq_nil_iff.mp (ha.paramNames.trans hparams)
  have hb0 : b.boundParams = [] := List.map_eq_nil_iff.mp (hb.paramNames.trans hparams)
  obtain ⟨hversion, hparts⟩ := parts_of_key hlib hname hsql h
  rw [ha0, hb0] at hparts
  have hentries : a.sessionVars.values.entries = b.sessionVars.values.entries :=
    entries_of_writeSessionVars (ha.varNames.trans hb.varNames.symm)
      (by rw [← ha.varNames, List.length_map] at hvars; exact hvars) (List.cons.inj hparts).2
  exact Call.same_iff.mpr ⟨hname, hsql, by rw [ha0, hb0],
    SessionVars.mk.injEq .. |>.mpr (OrdMap.mk.injEq .. |>.mpr hentries), hversion⟩

/-- A binding separates its calls exactly where it has no parameter and one
session variable at most. -/
theorem separates_iff (hlib : lib.Lawful) (binding : Binding) :
    binding.Separates lib ↔ binding.paramNames = [] ∧ binding.varNames.length ≤ 1 := by
  constructor
  · intro h
    constructor
    · cases hp : binding.paramNames with
      | nil => rfl
      | cons name names => exact (not_separates_param hp h).elim
    · match hv : binding.varNames with
      | [] | [_] => simp
      | k :: j :: names => exact (not_separates_vars hv h).elim
  · rintro ⟨hparams, hvars⟩
    exact separates hlib hparams hvars

end Binding

/-- Clean calls have one key exactly when they are the same, and all calls of a
binding do exactly when it has no parameter and one session variable at most. -/
theorem key_eq_iff_same (hlib : lib.Lawful) :
    (∀ a b : Call, a.NulFree → b.NulFree → a.Clean → b.Clean → a.VarsApart b → b.VarsApart a →
      (a.key lib = b.key lib ↔ a.Same b)) ∧
    ∀ binding : Binding, binding.Separates lib ↔
      binding.paramNames = [] ∧ binding.varNames.length ≤ 1 :=
  ⟨fun _ _ ha hb hca hcb hab hba => ⟨same_of_key hlib ha hb hca hcb hab hba, key_of_same⟩,
    Binding.separates_iff hlib⟩

/-! ## Two tenants -/

/-- A hash that is its input, and doubles by their bits. -/
def plainLib : Lib where
  blake3Hex bytes := String.ofList (bytes.map Char.ofUInt8)
  floatText bits := Nat.repr bits.toNat ++ ".0"

theorem plainLib_lawful : plainLib.Lawful where
  blake3_injective := latin1_injective
  float_injective a b _ _ h := by
    have := repr_inj (String.append_left_inj _ |>.mp h)
    exact BitVec.eq_of_toNat_eq this
  float_chars a _ c hc := by
    rw [plainLib, String.toList_append, List.mem_append] at hc
    rcases hc with hc | hc
    · simp [isNumberChar, isDigit_of_mem_repr hc]
    · have hall : ".0".toList.all isNumberChar := by decide
      exact List.all_eq_true.mp hall c hc
  float_mark a _ := .inl (by simp [plainLib])

/-- A call of the binding `orders` for a tenant and a user. -/
def ordersCall (tenant user : String) (boundParams : List BoundParam) : Call where
  backendName := "orders"
  sqlText := "SELECT * FROM orders WHERE org = $1"
  boundParams
  sessionVars := ⟨OrdMap.empty.insert "app.tenant" tenant |>.insert "app.user" user⟩
  version := 3

/-- An order's filter, its members in two orders. -/
def filterA : Value := .obj [("id", .ofNat 7), ("tag", .str "\"x\"")]

def filterB : Value := .obj [("tag", .str "\"x\""), ("id", .ofNat 7)]

/-- The order of an object's members makes no difference to the key, the tenant
does. -/
theorem orders_keys :
    (ordersCall "acme" "u;1" [⟨"org", filterA⟩]).key plainLib =
        (ordersCall "acme" "u;1" [⟨"org", filterB⟩]).key plainLib ∧
      (ordersCall "acme" "u;1" [⟨"org", filterA⟩]).key plainLib ≠
        (ordersCall "bravo" "u;1" [⟨"org", filterA⟩]).key plainLib := by
  have h := (key_eq_iff_same plainLib_lawful).1
  constructor
  · exact (h _ _ ⟨by decide, by decide, by decide, by decide⟩
      ⟨by decide, by decide, by decide, by decide⟩ ⟨by decide, by decide, by decide⟩
      ⟨by decide, by decide, by decide⟩ (by decide) (by decide)).mpr (by decide)
  · exact mt (h _ _ ⟨by decide, by decide, by decide, by decide⟩
      ⟨by decide, by decide, by decide, by decide⟩ ⟨by decide, by decide, by decide⟩
      ⟨by decide, by decide, by decide⟩ (by decide) (by decide)).mp (by decide)

/-- The tenant and the user of one binding are read in two ways. -/
theorem tenants_share_key :
    (ordersCall "x;app.user=y" "z" []).NulFree ∧ (ordersCall "x" "y;app.user=z" []).NulFree ∧
      (∀ lib : Lib, (ordersCall "x;app.user=y" "z" []).key lib =
        (ordersCall "x" "y;app.user=z" []).key lib) ∧
      ¬(ordersCall "x;app.user=y" "z" []).Same (ordersCall "x" "y;app.user=z" []) := by
  refine ⟨⟨by decide, by decide, by decide, by decide⟩, ⟨by decide, by decide, by decide, by decide⟩,
    fun lib => congrArg lib.blake3Hex ?_, by decide⟩
  rfl

end McpgSql.Cache
