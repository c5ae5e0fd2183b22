import McpgSql.Params

/-!
# The guards of SQL texts

`reject_multi_statement` and `reject_privileged_ddl`, the two checks of a text
before it may become a statement: that it is one statement, by the semicolons
outside of quotes, and that it does not begin as a statement that manages roles
or privileges.
-/

namespace McpgSql

/-! ## One statement -/

/-- What `reject_multi_statement` has read: whether it is in a literal or a quoted
identifier, and where the semicolon was. -/
structure Scan where
  inSingle : Bool := false
  inDouble : Bool := false
  lastSemi : Option Nat := none

/-- The loop of `reject_multi_statement` from byte `i` on: the state at the end, or
the byte of a second semicolon. -/
def scanLoop : Nat → List UInt8 → Scan → Except Nat Scan
  | _, [], st => .ok st
  | i, c :: rest, st =>
    if c = 39 && !st.inDouble then scanLoop (i + 1) rest { st with inSingle := !st.inSingle }
    else if c = 34 && !st.inSingle then scanLoop (i + 1) rest { st with inDouble := !st.inDouble }
    else if c = 59 && !st.inSingle && !st.inDouble then
      if st.lastSemi.isSome then .error i else scanLoop (i + 1) rest { st with lastSemi := some i }
    else scanLoop (i + 1) rest st

/-- The characters from byte `n` on, which is where one of them starts. -/
def charsFrom : Nat → List Char → List Char
  | 0, cs => cs
  | _, [] => []
  | n + 1, c :: cs => charsFrom (n + 1 - c.utf8Size) cs

/-- The text is one statement: nothing but white space stands after its semicolon. -/
def rejectMultiStatement (sql : String) : Except SqlError Unit :=
  match scanLoop 0 (utf8 sql) {} with
  | .error i => .error (.invalidSpec ("query.sql contains multiple statements (unquoted `;` at byte " ++
      toString i ++ "); split the work into pipeline steps or use `kind: pipeline` + " ++
      "`sql_tx` for atomic multi-step work"))
  | .ok st => match st.lastSemi with
    | none => .ok ()
    | some prev =>
      if (charsFrom (prev + 1) sql.toList).any (!isWhiteSpace ·) then
        .error (.invalidSpec ("query.sql contains content after trailing `;` (byte " ++
          toString prev ++ "); single-statement bodies only"))
      else .ok ()

example : (rejectMultiStatement "SELECT 'a; b';  ").isOk ∧
    ¬(rejectMultiStatement "SELECT 1; DROP TABLE users").isOk := by decide

/-! ## No privileged statement -/

/-- The text after the first `*/`. -/
def afterComment : List Char → Option (List Char)
  | [] => none
  | '*' :: '/' :: rest => some rest
  | _ :: rest => afterComment rest

/-- White space and comments before the first word are skipped; every round takes a
comment, so the number of characters bounds the rounds. -/
def stripLoop : Nat → List Char → List Char
  | 0, rest => rest
  | n + 1, rest => match rest.dropWhile isWhiteSpace with
    | '-' :: '-' :: afterLine => match afterLine.dropWhile (· ≠ '\n') with
      | _ :: rest => stripLoop n rest
      | [] => []
    | '/' :: '*' :: afterOpen => match afterComment afterOpen with
      | some rest => stripLoop n rest
      | none => []
    | next => next

def stripLeadingWhitespaceAndComments (s : List Char) : List Char := stripLoop (s.length + 1) s

/-- The word that a text begins with, as it stands. -/
def leadingWord (s : List Char) : List Char := s.takeWhile fun c => c.isAlpha || c = '_'

def asciiUppercase (s : List Char) : String := String.ofList (s.map Char.toUpper)

/-- The text does not begin with a statement on roles or privileges. -/
def rejectPrivilegedDdl (sql : String) : Except SqlError Unit :=
  let trimmed := stripLeadingWhitespaceAndComments sql.toList
  let firstToken := asciiUppercase (leadingWord trimmed)
  if firstToken.isEmpty then .ok ()
  else if firstToken ∈ ["GRANT", "REVOKE"] then
    .error (.invalidSpec ("query.sql leads with privileged DDL keyword `" ++ firstToken ++
      "`. Auth/role management must live in a separately-scoped admin " ++
      "binding — not a tool-accessible SQL binding."))
  else if firstToken ∈ ["CREATE", "ALTER", "DROP"] then
    let rest := stripLeadingWhitespaceAndComments (trimmed.drop (leadingWord trimmed).length)
    let secondToken := asciiUppercase (leadingWord rest)
    if secondToken ∈ ["USER", "ROLE", "DATABASE", "GROUP"] then
      .error (.invalidSpec ("query.sql starts with privileged DDL `" ++ firstToken ++ " " ++
        secondToken ++ "`. Role / user / database management must live in a separately-scoped " ++
        "admin binding — not a tool-accessible SQL binding."))
    else .ok ()
  else .ok ()

example : ¬(rejectPrivilegedDdl "-- admin\n/* x */ grant ALL ON t TO PUBLIC").isOk ∧
    (rejectPrivilegedDdl "CREATE TABLE t (id INT)").isOk := by decide

/-- Both guards accept the text. -/
def Accepted (sql : String) : Prop :=
  rejectMultiStatement sql = .ok () ∧ rejectPrivilegedDdl sql = .ok ()

end McpgSql
