import McpgSql.Guards
import McpgSql.Library.Text
import McpgSql.Library.Utf8

/-!
# The probe for the privilege to cancel

`verify_cancel_privilege` reads the grants of the pool's user, and passes when a line
seems to grant a privilege that `KILL QUERY` needs (`grantLineImpliesKill`). The line
is cut at its first ` ON ` and at commas, wherever they stand, and its scope is not
looked at: `ALL PRIVILEGES` of one database passes.

* `Privilege.upTo_text`, `Privilege.reads_text`: what the cut leaves of a privilege, and what
  the probe sees of it;
* `grantLineImpliesKill_line`: what it sees of a line;
* `probe_exact_iff`: the grants for which it is right.
-/

namespace McpgSql.Driver

open Library

/-! ## The probe -/

/-- The privileges that let a user end another connection's statement. -/
def killPrivileges : List String := ["PROCESS", "CONNECTION_ADMIN", "ALL PRIVILEGES"]

def onWord : List Char := [' ', 'O', 'N', ' ']

def grantWord : List Char := ['G', 'R', 'A', 'N', 'T']

/-- A piece of the list reads as one of the privileges. -/
def readsKill (tok : List Char) : Bool := String.ofList (trim isWhiteSpace tok) ∈ killPrivileges

def grantLineImpliesKill (line : String) : Bool :=
  let upper := (asciiUppercase line.toList).toList
  let privList := match upper.dropInfix? onWord with
    | some (before, _) => before
    | none => upper
  let privList := trim isWhiteSpace (trimStartMatches grantWord privList)
  (privList.splitOn ',').any readsKill

/-- The pool that the probe runs on; a MySQL pool answers `SHOW GRANTS FOR CURRENT_USER`. -/
inductive ProbedPool where
  | mysql (showGrants : Except SqlError (List String))
  | other

/-- `debug` is the debug text of a list. -/
def verifyCancelPrivilege (debug : List String → String) : ProbedPool → Except SqlError Unit
  | .other => .error (.invalidSpec "mysql verify_cancel_privilege invoked with non-mysql pool handle")
  | .mysql (.error e) => .error e
  | .mysql (.ok grants) =>
    if grants.any grantLineImpliesKill then .ok ()
    else .error (.invalidSpec ("MySQL pool user lacks the PROCESS / CONNECTION_ADMIN privilege " ++
      "required to cancel another connection's in-flight statement (KILL QUERY). " ++
      "Grant one of these — `GRANT PROCESS ON *.* TO <user>@<host>` (MySQL 5.7+) " ++
      "or `GRANT CONNECTION_ADMIN ON *.* TO <user>@<host>` (MySQL 8+) — or set " ++
      "`pool.require_cancel_privilege: false` if cancel-on-timeout becoming a " ++
      "no-op is intentional. Reported grants: " ++ debug grants))

/-! ## Grants -/

def upper (s : String) : List Char := s.toList.map Char.toUpper

/-- A privilege of a grant: words of letters, none of them ON, and what stands between the
parentheses of its column list. -/
structure Privilege where
  name : String
  columns : Option String := none
  letters : (name.toList.all fun c => c.isAlphanum || c = '_' || c = ' ') = true
  ends : name.toList.head? ≠ some ' ' ∧ name.toList.getLast? ≠ some ' '
  notOn : ['O', 'N'] ∉ (upper name).splitOn ' '

/-- The privilege after the space before it. -/
def Privilege.text (p : Privilege) : String :=
  " " ++ p.name ++ match p.columns with
    | none => ""
    | some columns => " (" ++ columns ++ ")"

structure Grant where
  privileges : List Privilege
  scope : String
  account : String

/-- `GRANT privilege, … ON scope TO account`. -/
def Grant.line (g : Grant) : String :=
  "GRANT" ++ ",".intercalate (g.privileges.map Privilege.text) ++ " ON " ++ g.scope ++ " TO " ++
    g.account

/-- The privilege is one that `KILL QUERY` needs. -/
def Privilege.kills (p : Privilege) : Bool :=
  p.columns.isNone && String.ofList (upper p.name) ∈ killPrivileges

/-- The user may end another connection's statement: the privilege is granted on everything. -/
def Grant.MayKill (g : Grant) : Prop :=
  (∃ p ∈ g.privileges, p.kills = true) ∧ g.scope = "*.*"

instance (g : Grant) : Decidable g.MayKill :=
  inferInstanceAs (Decidable ((∃ p ∈ g.privileges, p.kills = true) ∧ g.scope = "*.*"))

/-! ## What the probe sees -/

/-- The column list has an ON between spaces, where the probe takes the list to end. -/
def Privilege.cuts (p : Privilege) : Bool :=
  p.columns.any fun columns => decide (onWord <:+: upper columns)

/-- A piece of the column list, after a comma and up to the next, or up to where the probe takes
the list to end, reads as one of the privileges. -/
def Privilege.spells (p : Privilege) : Bool :=
  p.columns.any fun columns =>
    ((upTo onWord (upper columns ++ [')'])).splitOn ',').tail.any readsKill

/-- The privileges that stand before the end that the probe takes the list to have. -/
def visible : List Privilege → List Privilege
  | [] => []
  | p :: ps => p :: if p.cuts then [] else visible ps

/-- What a character of a privilege's name is in upper case. -/
theorem toUpper_name {c : Char} (h : (c.isAlphanum || c = '_' || c = ' ') = true) :
    c.toUpper ≠ ',' ∧ c.toUpper ≠ '(' ∧ (c ≠ ' ' → isWhiteSpace c.toUpper = false) := by
  have hc : c.val.toNat < 128 := by
    simp only [Bool.or_eq_true, decide_eq_true_eq] at h
    rcases h with (h | rfl) | rfl
    · exact ascii_of_isAlphanum h
    · decide
    · decide
  exact of_ascii (P := fun c => (c.isAlphanum || c = '_' || c = ' ') = true →
    c.toUpper ≠ ',' ∧ c.toUpper ≠ '(' ∧ (c ≠ ' ' → isWhiteSpace c.toUpper = false)) hc
    (by decide) h

theorem mem_upper {c : Char} {s : String} (h : c ∈ upper s) : ∃ d ∈ s.toList, d.toUpper = c :=
  List.mem_map.mp h

theorem notMem_killPrivileges {t : List Char} (h : String.ofList t ∈ killPrivileges) :
    '(' ∉ t := by
  have hall : ∀ s ∈ killPrivileges, '(' ∉ s.toList := by decide
  have ht := hall _ h
  rwa [String.toList_ofList] at ht

theorem upper_append (a b : String) : upper (a ++ b) = upper a ++ upper b := by
  simp [upper]

theorem upTo_comma (t : List Char) : upTo onWord (',' :: t) = ',' :: upTo onWord t := by
  apply upTo_cons
  intro h
  exact absurd (List.cons_prefix_cons.mp h).1 (by decide)

namespace Privilege

variable (p : Privilege)

theorem name_char {c : Char} (h : c ∈ p.name.toList) :
    c.toUpper ≠ ',' ∧ c.toUpper ≠ '(' ∧ (c ≠ ' ' → isWhiteSpace c.toUpper = false) :=
  toUpper_name (List.all_eq_true.mp p.letters c h)

theorem notMem_upper_name : ',' ∉ upper p.name ∧ '(' ∉ upper p.name := by
  constructor <;> intro h <;> obtain ⟨d, hd, heq⟩ := mem_upper h
  · exact (p.name_char hd).1 heq
  · exact (p.name_char hd).2.1 heq

theorem trim_upper_name : trim isWhiteSpace (upper p.name) = upper p.name := by
  apply trim_of_ends
  · intro c hc
    rw [upper, List.head?_map, Option.mem_def, Option.map_eq_some_iff] at hc
    obtain ⟨d, hd, rfl⟩ := hc
    apply (p.name_char (List.mem_of_mem_head? hd)).2.2
    rintro rfl
    exact p.ends.1 hd
  · intro c hc
    rw [upper, List.getLast?_map, Option.mem_def, Option.map_eq_some_iff] at hc
    obtain ⟨d, hd, rfl⟩ := hc
    apply (p.name_char (List.mem_of_mem_getLast? hd)).2.2
    rintro rfl
    exact p.ends.2 hd

/-- Neither the name nor a space behind it has the word that ends the list. -/
theorem not_onWord_name {t : List Char} (ht : t = [] ∨ t = [' '] ∨ t = onWord.dropLast) :
    ¬onWord <:+: ' ' :: upper p.name ++ t := by
  intro h
  have hsep : (['O', 'N'] : List Char) ∈
      ((' ' :: upper p.name ++ t).splitOn ' ').tail.dropLast :=
    mem_splitOn_of_isInfix (w := ['O', 'N']) (by decide) h
  apply p.notOn
  rw [List.cons_append, List.splitOn_cons_eq_if_modifyHead, if_pos BEq.rfl, List.tail_cons] at hsep
  rcases ht with rfl | rfl | rfl
  · rw [List.append_nil] at hsep
    exact List.mem_of_mem_dropLast hsep
  · rw [List.splitOn_append_cons_self] at hsep
    simpa using hsep
  · have hlast : onWord.dropLast = ' ' :: ['O', 'N'] := rfl
    rw [hlast, List.splitOn_append_cons_self,
      List.splitOn_eq_singleton (show ' ' ∉ ['O', 'N'] by decide)] at hsep
    simpa using hsep

theorem upper_text_name (h : p.columns = none) : upper p.text = ' ' :: upper p.name := by
  simp [text, h, upper]

theorem upTo_name : upTo onWord (' ' :: upper p.name) = ' ' :: upper p.name := by
  apply upTo_of_not_isInfix
  have h := p.not_onWord_name (.inl rfl)
  rwa [List.append_nil] at h

/-- What a privilege with a column list has before the list's parenthesis. -/
def front : List Char := ' ' :: upper p.name ++ [' ']

theorem upper_text_columns {columns : String} (h : p.columns = some columns) :
    upper p.text = p.front ++ '(' :: (upper columns ++ [')']) := by
  simp [text, h, upper, front]

theorem upper_text_cons : ∃ more, upper p.text = ' ' :: more := by
  cases hcols : p.columns with
  | none => exact ⟨_, p.upper_text_name hcols⟩
  | some columns => exact ⟨_, p.upper_text_columns hcols⟩

theorem upTo_front (t : List Char) :
    upTo onWord (p.front ++ '(' :: t) = p.front ++ '(' :: upTo onWord t :=
  upTo_append_cons (by decide) (by decide) (p.not_onWord_name (.inr (.inl rfl))) t

/-- The list up to its end, after a privilege: it ends in the privilege's column list, or goes
on behind the privilege. -/
theorem upTo_text {more : List Char} (hmore : (∃ t, more = ',' :: t) ∨ ∃ t, more = onWord ++ t) :
    upTo onWord (upper p.text ++ more) =
      upTo onWord (upper p.text) ++ if p.cuts then [] else upTo onWord more := by
  cases hcols : p.columns with
  | none =>
    have hcuts : p.cuts = false := by rw [cuts, hcols]; rfl
    rw [hcuts, if_neg Bool.false_ne_true, p.upper_text_name hcols, p.upTo_name]
    rcases hmore with ⟨t, rfl⟩ | ⟨t, rfl⟩
    · have hname := p.not_onWord_name (.inl rfl)
      rw [List.append_nil] at hname
      rw [upTo_append_cons (by decide) (by decide) hname, upTo_comma]
    · rw [upTo_append_self (p.not_onWord_name (.inr (.inr rfl))),
        upTo_of_isPrefix (List.prefix_append _ _), List.append_nil]
  | some columns =>
    have hcuts : p.cuts = decide (onWord <:+: upper columns) := by rw [cuts, hcols]; rfl
    rw [p.upper_text_columns hcols, List.append_assoc, List.cons_append, List.append_assoc,
      p.upTo_front, p.upTo_front, hcuts]
    by_cases hin : onWord <:+: upper columns
    · rw [decide_eq_true hin, if_pos rfl, List.append_nil, upTo_append_of_isInfix hin,
        upTo_append_of_isInfix hin]
    · have hclose (t : List Char) :
          upTo onWord (upper columns ++ ')' :: t) = upper columns ++ ')' :: upTo onWord t :=
        upTo_append_cons (by decide) (by decide) hin t
      rw [decide_eq_false hin, if_neg Bool.false_ne_true, List.singleton_append, hclose, hclose]
      simp [upTo]

/-- A piece with a parenthesis is none of the privileges. -/
theorem readsKill_of_paren {t : List Char} (h : '(' ∈ t) : readsKill t = false := by
  rw [readsKill, decide_eq_false_iff_not]
  intro hmem
  exact notMem_killPrivileges hmem (mem_trim (by decide) h)

/-- What the probe sees of a privilege. -/
theorem reads_text :
    ((upTo onWord (upper p.text)).splitOn ',').any readsKill = (p.kills || p.spells) := by
  cases hcols : p.columns with
  | none =>
    have hsep : ',' ∉ ' ' :: upper p.name := by
      simpa using p.notMem_upper_name.1
    have hspells : p.spells = false := by rw [spells, hcols]; rfl
    rw [p.upper_text_name hcols, p.upTo_name, List.splitOn_eq_singleton hsep, hspells,
      Bool.or_false, List.any_cons, List.any_nil, Bool.or_false, readsKill, trim_cons (by decide),
      p.trim_upper_name, kills, hcols]
    rfl
  | some columns =>
    have hsep : ',' ∉ p.front ++ ['('] := by
      simpa [front] using p.notMem_upper_name.1
    have hkills : p.kills = false := by rw [kills, hcols]; rfl
    have hspells : p.spells =
        ((upTo onWord (upper columns ++ [')'])).splitOn ',').tail.any readsKill := by
      rw [spells, hcols]
      rfl
    rw [p.upper_text_columns hcols, p.upTo_front, hkills, Bool.false_or, hspells, List.append_cons,
      splitOn_append_of_notMem hsep]
    obtain ⟨piece, pieces, hpieces⟩ :=
      List.exists_cons_of_ne_nil (List.splitOn_ne_nil ',' (upTo onWord (upper columns ++ [')'])))
    rw [hpieces, List.modifyHead_cons, List.any_cons, List.tail_cons,
      readsKill_of_paren (by simp), Bool.false_or]

end Privilege

/-! ## What it sees of a line -/

theorem any_splitOn_append_cons (a b : List Char) :
    ((a ++ ',' :: b).splitOn ',').any readsKill =
      ((a.splitOn ',').any readsKill || (b.splitOn ',').any readsKill) := by
  rw [List.splitOn_append_cons_self, List.any_append]

/-- What the probe sees of a list of privileges. -/
theorem reads_list (ps : List Privilege) (t : List Char) :
    ((upTo onWord (upper (",".intercalate (ps.map Privilege.text)) ++ (onWord ++ t))).splitOn
      ',').any readsKill = (visible ps).any fun p => p.kills || p.spells := by
  induction ps with
  | nil =>
    have hend : upTo onWord (onWord ++ t) = [] := upTo_of_isPrefix (List.prefix_append _ _)
    rw [List.map_nil, String.intercalate_nil]
    show ((upTo onWord (onWord ++ t)).splitOn ',').any readsKill = false
    rw [hend]
    decide
  | cons p ps ih =>
    cases ps with
    | nil =>
      rw [List.map_cons, List.map_nil, String.intercalate_singleton, p.upTo_text (.inr ⟨t, rfl⟩),
        upTo_of_isPrefix (List.prefix_append _ _), ite_self, List.append_nil, p.reads_text,
        visible]
      simp [visible]
    | cons q qs =>
      rw [List.map_cons, List.map_cons, String.intercalate_cons_cons, upper_append, upper_append,
        ← List.map_cons, List.append_assoc, List.append_assoc]
      show ((upTo onWord (upper p.text ++ ',' :: _)).splitOn ',').any readsKill = _
      rw [p.upTo_text (.inl ⟨_, rfl⟩), visible, List.any_cons, ← p.reads_text]
      split
      · simp
      · rw [upTo_comma, any_splitOn_append_cons]
        exact congrArg _ ih

/-- The list that follows `GRANT` begins with a space. -/
theorem not_grantWord_list (ps : List Privilege) (t : List Char) :
    ¬grantWord <+: upper (",".intercalate (ps.map Privilege.text)) ++ (onWord ++ t) := by
  have hspace : ∃ more, upper (",".intercalate (ps.map Privilege.text)) ++ (onWord ++ t) =
      ' ' :: more := by
    cases ps with
    | nil => exact ⟨_, rfl⟩
    | cons p ps =>
      obtain ⟨more, hmore⟩ := p.upper_text_cons
      cases ps with
      | nil =>
        rw [List.map_cons, List.map_nil, String.intercalate_singleton, hmore]
        exact ⟨_, rfl⟩
      | cons q qs =>
        rw [List.map_cons, List.map_cons, String.intercalate_cons_cons, upper_append, upper_append,
          hmore]
        exact ⟨_, rfl⟩
  obtain ⟨more, hmore⟩ := hspace
  rw [hmore]
  intro h
  exact absurd (List.cons_prefix_cons.mp h).1 (by decide)

/-- What is seen of the pieces does not change when the list is trimmed. -/
theorem any_readsKill_trim (t : List Char) :
    ((trim isWhiteSpace t).splitOn ',').any readsKill = (t.splitOn ',').any readsKill := by
  have hany (pieces : List (List Char)) : pieces.any readsKill =
      (pieces.map (trim isWhiteSpace)).any fun tok => String.ofList tok ∈ killPrivileges := by
    rw [List.any_map]
    rfl
  rw [hany, hany, trim_splitOn_trim (by decide)]

/-- The list that the probe reads is the line up to the first ` ON `. -/
theorem grantLineImpliesKill_eq (line : String) :
    grantLineImpliesKill line =
      ((trim isWhiteSpace (trimStartMatches grantWord (upTo onWord (upper line)))).splitOn
        ',').any readsKill := by
  have hupper : (asciiUppercase line.toList).toList = upper line := String.toList_ofList
  simp only [upTo_eq_dropInfix?, grantLineImpliesKill, hupper]
  cases (upper line).dropInfix? onWord <;> rfl

/-- The probe sees the privileges that stand before the end it takes the list to have. -/
theorem grantLineImpliesKill_line (g : Grant) :
    grantLineImpliesKill g.line = (visible g.privileges).any fun p => p.kills || p.spells := by
  obtain ⟨t, hline⟩ : ∃ t, upper g.line = grantWord ++
      (upper (",".intercalate (g.privileges.map Privilege.text)) ++ (onWord ++ t)) := by
    refine ⟨upper (g.scope ++ (" TO " ++ g.account)), ?_⟩
    have hgrant : upper "GRANT" = grantWord := rfl
    have hon : upper " ON " = onWord := rfl
    simp only [Grant.line, upper_append, hgrant, hon, List.append_assoc]
  have hcut : upTo onWord (upper g.line) = grantWord ++ upTo onWord
      (upper (",".intercalate (g.privileges.map Privilege.text)) ++ (onWord ++ t)) := by
    rw [hline]
    apply upTo_append
    rintro s hs hsuffix h
    obtain ⟨c, s, rfl⟩ := List.exists_cons_of_ne_nil hs
    have hc : ' ' = c := (List.cons_prefix_cons.mp h).1
    have hmem : c ∈ grantWord := hsuffix.subset List.mem_cons_self
    rw [← hc] at hmem
    revert hmem
    decide
  have hstart : ¬grantWord <+: upTo onWord
      (upper (",".intercalate (g.privileges.map Privilege.text)) ++ (onWord ++ t)) :=
    fun h => not_grantWord_list _ t (h.trans (upTo_isPrefix _ _))
  rw [grantLineImpliesKill_eq, hcut, trimStartMatches_append (by decide) hstart,
    any_readsKill_trim, reads_list]

/-! ## When it is right -/

/-- What the probe sees of a grant is what the grant says: on less than everything it sees
nothing, and on everything it sees one of the privileges where one is granted. -/
structure Grant.Plain (g : Grant) : Prop where
  narrow : g.scope ≠ "*.*" → ∀ p ∈ visible g.privileges, p.kills = false ∧ p.spells = false
  spelled : g.scope = "*.*" → ∀ p ∈ visible g.privileges, p.spells = true →
    ∃ q ∈ g.privileges, q.kills = true
  seen : g.scope = "*.*" → ∀ p ∈ g.privileges, p.kills = true →
    ∃ q ∈ visible g.privileges, q.kills = true ∨ q.spells = true

theorem visible_subset (ps : List Privilege) : visible ps ⊆ ps := by
  induction ps with
  | nil => exact List.Subset.refl _
  | cons p ps ih =>
    rw [visible]
    split
    · simp
    · exact List.cons_subset_cons p ih

/-- The probe is right about a grant exactly where it is plain. -/
theorem grantLineImpliesKill_iff (g : Grant) :
    (grantLineImpliesKill g.line = true ↔ g.MayKill) ↔ g.Plain := by
  rw [grantLineImpliesKill_line, List.any_eq_true]
  simp only [Bool.or_eq_true]
  constructor
  · intro h
    refine ⟨?_, ?_, ?_⟩
    · intro hscope p hp
      have hnot := mt h.mp fun hkill => hscope hkill.2
      simpa using not_exists.mp hnot p ∘ fun h => ⟨hp, h⟩
    · intro _ p hp hspells
      exact (h.mp ⟨p, hp, .inr hspells⟩).1
    · intro hscope p hp hkills
      exact h.mpr ⟨⟨p, hp, hkills⟩, hscope⟩
  · intro h
    by_cases hscope : g.scope = "*.*"
    · constructor
      · rintro ⟨p, hp, hkills | hspells⟩
        · exact ⟨⟨p, visible_subset _ hp, hkills⟩, hscope⟩
        · exact ⟨h.spelled hscope p hp hspells, hscope⟩
      · rintro ⟨⟨p, hp, hkills⟩, -⟩
        exact h.seen hscope p hp hkills
    · constructor
      · rintro ⟨p, hp, hsees⟩
        obtain ⟨hkills, hspells⟩ := h.narrow hscope p hp
        simp [hkills, hspells] at hsees
      · exact fun hkill => absurd hkill.2 hscope

theorem verifyCancelPrivilege_ok (debug : List String → String) (lines : List String) :
    verifyCancelPrivilege debug (.mysql (.ok lines)) = .ok () ↔
      lines.any grantLineImpliesKill = true := by
  rw [verifyCancelPrivilege]
  split
  · rename_i hseen
    exact iff_of_true rfl hseen
  · rename_i hunseen
    refine iff_of_false ?_ hunseen
    intro hok
    cases hok

/-- The probe of a line is right exactly where the grant is plain; and where all the grants are,
only a user that may end another connection's statement passes. -/
theorem probe_exact_iff (debug : List String → String) :
    (∀ g : Grant, (grantLineImpliesKill g.line = true ↔ g.MayKill) ↔ g.Plain) ∧
    ∀ grants : List Grant, (∀ g ∈ grants, g.Plain) →
      (verifyCancelPrivilege debug (.mysql (.ok (grants.map Grant.line))) = .ok () ↔
        ∃ g ∈ grants, g.MayKill) := by
  refine ⟨grantLineImpliesKill_iff, fun grants hplain => ?_⟩
  have hany : (grants.map Grant.line).any grantLineImpliesKill = true ↔
      ∃ g ∈ grants, g.MayKill := by
    rw [List.any_map, List.any_eq_true]
    exact exists_congr fun g => and_congr_right fun hg => (grantLineImpliesKill_iff g).mpr (hplain g hg)
  rw [← hany, verifyCancelPrivilege_ok]

/-- `GRANT PROCESS ON *.*` alone. -/
def processGrant : Grant where
  privileges := [⟨"PROCESS", none, by decide, by decide, by decide⟩]
  scope := "*.*"
  account := "`mcpg`@`%`"

theorem global_process_passes :
    verifyCancelPrivilege (fun _ => "") (.mysql (.ok [processGrant.line])) = .ok () := by
  have hplain : processGrant.Plain :=
    ⟨fun h => absurd rfl h, fun _ => by decide, fun _ => by decide⟩
  apply ((probe_exact_iff fun _ => "").2 [processGrant] (by simpa using hplain)).mpr
  exact ⟨processGrant, List.mem_singleton_self _, by decide⟩

/-- All privileges on one database. -/
def shopGrant : Grant where
  privileges := [⟨"ALL PRIVILEGES", none, by decide, by decide, by decide⟩]
  scope := "`shop`.*"
  account := "`mcpg`@`%`"

/-- The privileges on one database pass, and do not let the user end another connection's
statement. -/
theorem database_privileges_pass :
    shopGrant.line = "GRANT ALL PRIVILEGES ON `shop`.* TO `mcpg`@`%`" ∧
    ¬(grantLineImpliesKill shopGrant.line = true ↔ shopGrant.MayKill) ∧
    verifyCancelPrivilege (fun _ => "") (.mysql (.ok [shopGrant.line])) = .ok () := by
  have hprobe : grantLineImpliesKill shopGrant.line = true := by
    rw [grantLineImpliesKill_line]
    decide
  refine ⟨by decide, fun h => absurd (h.mp hprobe) (by decide), ?_⟩
  rw [verifyCancelPrivilege_ok]
  simpa using hprobe

end McpgSql.Driver
