import Mathlib.Data.List.Basic
import McpgSql.Cdc.Source
import McpgSql.Library.Quoted
import McpgSql.Sql.Lexer

/-!
# The names in CREATE PUBLICATION

How PostgreSQL reads the statement that creates a publication: its tokens (`lex`)
and the names they spell (`readPublication`). A quoted identifier goes to the first
quote that no quote follows; what PostgreSQL then does with it (an empty one, one
longer than a name) is not modelled.

* `readIdentifier_quoted`: a quoted identifier is read as what was quoted;
* `lex_quotedTable`: a table's name, part by part;
* `readPublication_createPublicationSql`: the statement names what it was built from;
* `prepare_sends`: no other statement is sent to create a publication.
-/

namespace McpgSql.Cdc

open Library

/-! ## Reading -/

/-- A quoted identifier at the front of a text, and the rest. -/
def readIdentifier (text : List Char) : Option (String × List Char) := do
  let (s, rest) ← readQuoted '"' text
  if '\x00' ∈ s then none else return (String.ofList s, rest)

inductive Token where
  | word (s : String)
  | identifier (s : String)
  | dot
  | comma
deriving DecidableEq, Repr

def isWordStart (c : Char) : Bool := c.isAlpha || c = '_' || 128 ≤ c.toNat

def isWordChar (c : Char) : Bool := isWordStart c || c.isDigit || c = '$'

theorem readIdentifier_eq_some {text rest : List Char} {s : String} :
    readIdentifier text = some (s, rest) ↔
      readQuoted '"' text = some (s.toList, rest) ∧ '\x00' ∉ s.toList := by
  rw [readIdentifier]
  cases readQuoted '"' text with
  | none => simp
  | some r =>
    obtain ⟨s', rest'⟩ := r
    by_cases hnul : '\x00' ∈ s'
    · simp only [Option.bind_eq_bind, Option.bind_some, if_pos hnul, Option.some.injEq,
        Prod.mk.injEq]
      refine ⟨nofun, ?_⟩
      rintro ⟨⟨rfl, _⟩, h⟩
      exact absurd hnul h
    · simp only [Option.bind_eq_bind, Option.bind_some, if_neg hnul, Option.pure_def,
        Option.some.injEq, Prod.mk.injEq]
      refine ⟨?_, ?_⟩
      · rintro ⟨rfl, rfl⟩
        exact ⟨⟨String.toList_ofList.symm, rfl⟩, by rwa [String.toList_ofList]⟩
      · rintro ⟨⟨rfl, rfl⟩, _⟩
        exact ⟨String.ofList_toList, rfl⟩

theorem length_of_readIdentifier {text rest : List Char} {s : String}
    (h : readIdentifier text = some (s, rest)) : rest.length < text.length := by
  exact length_of_readQuoted (readIdentifier_eq_some.mp h).1

/-- The tokens of a text of words, quoted identifiers, dots and commas. -/
def lex : List Char → Option (List Token)
  | [] => some []
  | c :: cs =>
    if Sql.asciiSpace c then lex cs
    else if c = '.' then (lex cs).map (.dot :: ·)
    else if c = ',' then (lex cs).map (.comma :: ·)
    else if c = '"' then
      match h : readIdentifier (c :: cs) with
      | none => none
      | some (s, rest) =>
        have := length_of_readIdentifier h
        (lex rest).map (.identifier s :: ·)
    else if isWordStart c then
      have := List.length_dropWhile_le isWordChar cs
      (lex (cs.dropWhile isWordChar)).map
        (.word (String.ofList (c :: cs.takeWhile isWordChar)) :: ·)
    else none
termination_by text => text.length
decreasing_by all_goals (simp only [List.length_cons] at *; omega)

/-- The parts of a name: identifiers between dots. -/
def readName (tokens : List Token) : Option (List String) :=
  (tokens.splitOn .dot).mapM fun
    | [.identifier s] => some s
    | _ => none

/-- `CREATE PUBLICATION name FOR TABLE name, ...`: the publication, and the parts of each
table's name. -/
def readPublication (sql : String) : Option (String × List (List String)) := do
  match ← lex sql.toList with
  | .word create :: .word publication :: .identifier name :: .word for_ :: .word table :: names =>
    if [create, publication, for_, table] = ["CREATE", "PUBLICATION", "FOR", "TABLE"] then
      return (name, ← (names.splitOn .comma).mapM readName)
    else none
  | _ => none

/-! ## Tokens -/

theorem lex_space {c : Char} (h : Sql.asciiSpace c = true) (rest : List Char) :
    lex (c :: rest) = lex rest := by
  rw [lex, if_pos h]

theorem lex_dot (rest : List Char) : lex ('.' :: rest) = (lex rest).map (.dot :: ·) := by
  rw [lex, if_neg (by decide), if_pos rfl]

theorem lex_comma (rest : List Char) : lex (',' :: rest) = (lex rest).map (.comma :: ·) := by
  rw [lex, if_neg (by decide), if_neg (by decide), if_pos rfl]

theorem quoted_toList (s : String) : (quoted s).toList = quote '"' s.toList := by
  simp [quoted, quote, doubled]

/-- A quoted identifier is read as what was quoted, and nothing behind it is taken. -/
theorem readIdentifier_quoted {s : String} (hs : '\x00' ∉ s.toList) {rest : List Char}
    (h : rest.head? ≠ some '"') : readIdentifier ((quoted s).toList ++ rest) = some (s, rest) := by
  rw [readIdentifier_eq_some, quoted_toList]
  exact ⟨readQuoted_quote h _, hs⟩

theorem lex_quoted {s : String} (hs : '\x00' ∉ s.toList) {rest : List Char}
    (h : rest.head? ≠ some '"') :
    lex ((quoted s).toList ++ rest) = (lex rest).map (.identifier s :: ·) := by
  have hread := readIdentifier_quoted hs h
  rw [quoted_toList, quote, List.cons_append] at hread ⊢
  rw [lex, if_neg (by decide), if_neg (by decide), if_neg (by decide), if_pos rfl]
  split
  · rename_i hnone
    rw [hread] at hnone
    cases hnone
  · rename_i s' rest' hsome
    rw [hread] at hsome
    cases hsome
    rfl

theorem isWordStart_cases {c : Char} (h : isWordStart c = true) :
    Sql.asciiSpace c = false ∧ c ≠ '.' ∧ c ≠ ',' ∧ c ≠ '"' := by
  refine ⟨?_, ?_, ?_, ?_⟩
  · by_contra hspace
    simp only [Sql.asciiSpace, Bool.not_eq_false, Bool.or_eq_true, decide_eq_true_eq] at hspace
    rcases hspace with ((((rfl | rfl) | rfl) | rfl) | rfl) | rfl <;> cases h
  all_goals
    rintro rfl
    cases h

/-- A word that a space ends. -/
theorem lex_word {c : Char} {cs : List Char} (hc : isWordStart c = true)
    (hcs : cs.all isWordChar = true) (rest : List Char) :
    lex (c :: (cs ++ ' ' :: rest)) = (lex rest).map (.word (String.ofList (c :: cs)) :: ·) := by
  obtain ⟨hspace, hdot, hcomma, hquote⟩ := isWordStart_cases hc
  rw [List.all_eq_true] at hcs
  have hstop : ∀ p, p ' ' = false → (' ' :: rest).takeWhile p = [] ∧
      (' ' :: rest).dropWhile p = ' ' :: rest := by
    intro p hp
    simp [hp]
  obtain ⟨htake, hdrop⟩ := hstop isWordChar rfl
  rw [lex, if_neg (by simp [hspace]), if_neg hdot, if_neg hcomma, if_neg hquote, if_pos hc,
    List.takeWhile_append_of_pos hcs, List.dropWhile_append_of_pos hcs, htake, hdrop,
    List.append_nil, lex_space rfl]

/-- `text` is read as `tokens` wherever a quoted identifier could end. -/
def Lexes (text : List Char) (tokens : List Token) : Prop :=
  ∀ rest : List Char, rest.head? ≠ some '"' → lex (text ++ rest) = (lex rest).map (tokens ++ ·)

theorem Lexes.intercalate {α : Type} {text : α → List Char} {tokens : α → List Token}
    (sep : List Char) (token : Token)
    (hsep : ∀ rest, lex (sep ++ rest) = (lex rest).map (token :: ·))
    (hhead : ∀ rest : List Char, (sep ++ rest).head? ≠ some '"') {l : List α}
    (h : ∀ a ∈ l, Lexes (text a) (tokens a)) :
    Lexes (sep.intercalate (l.map text)) ([token].intercalate (l.map tokens)) := by
  induction l with
  | nil =>
    intro rest _
    simp
  | cons a l ih =>
    rw [List.forall_mem_cons] at h
    cases l with
    | nil => simpa using h.1
    | cons b l =>
      intro rest hrest
      rw [List.map_cons, List.map_cons, List.map_cons, List.map_cons, List.intercalate_cons_cons,
        List.intercalate_cons_cons, List.append_assoc, List.append_assoc, h.1 _ (hhead _), hsep]
      have hrestTokens := ih h.2 rest hrest
      rw [List.map_cons, List.map_cons] at hrestTokens
      rw [hrestTokens, Option.map_map, Option.map_map]
      congr 1
      funext ts
      simp

/-! ## Names -/

/-- The parts of a `schema.table`. -/
def partsOf (name : String) : List String := (name.toList.splitOn '.').map String.ofList

/-- The tokens of a name: its parts, a dot between each two. -/
def nameTokens (parts : List String) : List Token :=
  [Token.dot].intercalate (parts.map fun part => [.identifier part])

theorem quotedTable_toList (name : String) : (quotedTable name).toList =
    ['.'].intercalate ((partsOf name).map fun part => (quoted part).toList) := by
  simp only [quotedTable, partsOf, String.toList_intercalate, List.map_map]
  rfl

/-- What a list is cut from has what its pieces have. -/
theorem mem_of_mem_splitOn {α : Type} [DecidableEq α] {sep c : α} {text piece : List α}
    (hp : piece ∈ text.splitOn sep) (hc : c ∈ piece) : c ∈ text := by
  have hjoin : ∀ pieces : List (List α), piece ∈ pieces → c ∈ [sep].intercalate pieces := by
    intro pieces hp
    induction pieces with
    | nil => cases hp
    | cons p pieces ih =>
      cases pieces with
      | nil =>
        rw [List.mem_singleton.mp hp] at hc
        simpa using hc
      | cons p' pieces =>
        rw [List.intercalate_cons_cons, List.mem_append, List.mem_append]
        rcases List.mem_cons.mp hp with rfl | hp
        · exact .inl (.inl hc)
        · exact .inr (ih hp)
  have h := hjoin _ hp
  rwa [List.intercalate_splitOn] at h

/-- A table's name is read as the parts between its dots. -/
theorem lexes_quotedTable {name : String} (h : '\x00' ∉ name.toList) :
    Lexes (quotedTable name).toList (nameTokens (partsOf name)) := by
  rw [quotedTable_toList]
  apply Lexes.intercalate ['.'] .dot lex_dot (by simp)
  intro part hpart rest hrest
  obtain ⟨piece, hpiece, rfl⟩ := List.mem_map.mp hpart
  rw [lex_quoted _ hrest]
  · rfl
  · rw [String.toList_ofList]
    intro hnul
    exact h (mem_of_mem_splitOn hpiece hnul)

theorem comma_notMem_nameTokens (parts : List String) : Token.comma ∉ nameTokens parts := by
  induction parts with
  | nil => simp [nameTokens]
  | cons part parts ih =>
    cases parts with
    | nil => simp [nameTokens]
    | cons part' parts =>
      rw [nameTokens, List.map_cons, List.map_cons, List.intercalate_cons_cons]
      simpa [nameTokens] using ih

theorem readName_nameTokens {parts : List String} (h : parts ≠ []) :
    readName (nameTokens parts) = some parts := by
  have hsplit : (nameTokens parts).splitOn .dot = parts.map fun part => [.identifier part] :=
    List.splitOn_intercalate _ (by simp) (by simpa using h)
  rw [readName, hsplit, List.mapM_map]
  exact (mapM_some_of_forall (g := id) fun part _ => rfl).trans (congrArg some (List.map_id parts))

theorem partsOf_ne_nil (name : String) : partsOf name ≠ [] := by
  simp [partsOf]

theorem createPublicationSql_toList (publication : String) (tables : List String) :
    (createPublicationSql publication tables).toList =
      'C' :: (['R', 'E', 'A', 'T', 'E'] ++ ' ' ::
      'P' :: (['U', 'B', 'L', 'I', 'C', 'A', 'T', 'I', 'O', 'N'] ++ ' ' ::
      ((quoted publication).toList ++ ' ' ::
      'F' :: (['O', 'R'] ++ ' ' ::
      'T' :: (['A', 'B', 'L', 'E'] ++ ' ' ::
      [',', ' '].intercalate (tables.map fun table => (quotedTable table).toList)))))) := by
  have hcreate : "CREATE PUBLICATION ".toList = 'C' :: (['R', 'E', 'A', 'T', 'E'] ++ ' ' ::
      'P' :: (['U', 'B', 'L', 'I', 'C', 'A', 'T', 'I', 'O', 'N'] ++ [' '])) := by decide
  have hfor : " FOR TABLE ".toList = ' ' :: 'F' :: (['O', 'R'] ++ ' ' ::
      'T' :: (['A', 'B', 'L', 'E'] ++ [' '])) := by decide
  have hsep : ", ".toList = [',', ' '] := by decide
  unfold createPublicationSql
  rw [String.toList_append, String.toList_append, String.toList_append,
    String.toList_intercalate, List.map_map, hcreate, hfor, hsep]
  simp only [List.append_assoc, List.cons_append, List.nil_append, Function.comp_def]

/-- The tokens of the list of tables. -/
def tablesTokens (tables : List String) : List Token :=
  [Token.comma].intercalate (tables.map fun table => nameTokens (partsOf table))

theorem lex_createPublicationSql {publication : String} {tables : List String}
    (hp : '\x00' ∉ publication.toList) (ht : ∀ table ∈ tables, '\x00' ∉ table.toList) :
    lex (createPublicationSql publication tables).toList =
      some (.word "CREATE" :: .word "PUBLICATION" :: .identifier publication :: .word "FOR" ::
        .word "TABLE" :: tablesTokens tables) := by
  have htables := Lexes.intercalate [',', ' '] .comma
    (by
      intro rest
      rw [List.cons_append, lex_comma, List.singleton_append, lex_space rfl])
    (by simp) fun table hmem => lexes_quotedTable (ht table hmem)
  have hend := htables [] (by simp)
  rw [List.append_nil] at hend
  rw [createPublicationSql_toList, lex_word rfl rfl, lex_word rfl rfl,
    lex_quoted hp (by simp), lex_space rfl, lex_word rfl rfl, lex_word rfl rfl, hend]
  simp [lex, tablesTokens]

/-- The statement is read as what it was built from. -/
theorem readPublication_createPublicationSql {publication : String} {tables : List String}
    (hp : '\x00' ∉ publication.toList) (ht : ∀ table ∈ tables, '\x00' ∉ table.toList)
    (hne : tables ≠ []) : readPublication (createPublicationSql publication tables) =
      some (publication, tables.map partsOf) := by
  have hsplit : (tablesTokens tables).splitOn .comma =
      tables.map fun table => nameTokens (partsOf table) := by
    apply List.splitOn_intercalate
    · simp only [List.forall_mem_map]
      intro table _
      exact comma_notMem_nameTokens _
    · simpa using hne
  have hnames : ((tablesTokens tables).splitOn .comma).mapM readName =
      some (tables.map partsOf) := by
    rw [hsplit, List.mapM_map]
    exact mapM_some_of_forall fun table _ => readName_nameTokens (partsOf_ne_nil table)
  rw [readPublication, lex_createPublicationSql hp ht]
  simp only [Option.bind_eq_bind, Option.bind_some, if_true, hnames]
  rfl

/-- The database is sent no statement to create a publication with but one that names the
watch's publication and tables: what it would do with any other makes no difference. -/
theorem prepare_sends (cdc : PostgresCdc) (db : PrepareAnswers)
    (hp : '\x00' ∉ cdc.publication.toList) (ht : ∀ table ∈ cdc.tables, '\x00' ∉ table.toList)
    {create : String → Except String Unit}
    (h : ∀ sql, readPublication sql = some (cdc.publication, cdc.tables.map partsOf) →
      create sql = db.createPublication sql) :
    cdc.prepare { db with createPublication := create } = cdc.prepare db := by
  by_cases hne : cdc.tables = []
  · simp only [PostgresCdc.prepare, hne, List.isEmpty_nil, if_true]
    rfl
  · have hsql := h _ (readPublication_createPublicationSql hp ht hne)
    simp only [PostgresCdc.prepare, hsql]

/-- A quoted identifier spells the text it was made from and ends where it was closed; a
quoted table spells the parts of its name; CREATE PUBLICATION names the publication and the
tables it was built from, and nothing else. -/
theorem quoting_exact (publication : String) (tables : List String) (rest : List Char)
    (hp : '\x00' ∉ publication.toList) (ht : ∀ table ∈ tables, '\x00' ∉ table.toList)
    (hrest : rest.head? ≠ some '"') :
    readIdentifier ((quoted publication).toList ++ rest) = some (publication, rest) ∧
    (∀ table ∈ tables, lex ((quotedTable table).toList ++ rest) =
      (lex rest).map (nameTokens (partsOf table) ++ ·)) ∧
    (tables ≠ [] → readPublication (createPublicationSql publication tables) =
      some (publication, tables.map partsOf)) := by
  refine ⟨readIdentifier_quoted hp hrest, ?_, readPublication_createPublicationSql hp ht⟩
  intro table hmem
  exact lexes_quotedTable (ht table hmem) rest hrest

theorem quoting_exact_example :
    readPublication (createPublicationSql "a\"; DROP" ["public.my\"t", "b, c"]) =
      some ("a\"; DROP", ["public.my\"t", "b, c"].map partsOf) :=
  (quoting_exact "a\"; DROP" ["public.my\"t", "b, c"] [] (by decide) (by decide)
    (by decide)).2.2 (by decide)

example : quotedTable "public.my\"t" = "\"public\".\"my\"\"t\"" := by decide

end McpgSql.Cdc
