/-!
# Configuration

The parts of a binding's configuration, and of the plugin's errors, that the
modelled functions read or return.
-/

namespace McpgSql

/-- The errors of the plugin. What a database driver says is its text. -/
inductive SqlError where
  | poolTimeout (ms : Nat)
  | connect (e : String)
  | prepare (e : String)
  | execute (e : String)
  | serialize (e : String)
  | timeout (ms : Nat)
  | profileNotFound (name : String)
  | invalidSpec (message : String)
  | driver (e : String)
deriving DecidableEq, Repr

/-- The text of an error, for messages. -/
def SqlError.text : SqlError → String
  | .poolTimeout ms => "pool acquire timeout after " ++ toString ms ++ "ms"
  | .connect e => "connect failed: " ++ e
  | .prepare e => "prepare failed: " ++ e
  | .execute e => "execute failed: " ++ e
  | .serialize e => "serialize row failed: " ++ e
  | .timeout ms => "query timed out after " ++ toString ms ++ "ms"
  | .profileNotFound name => "no execution profile registered for '" ++ name ++ "'"
  | .invalidSpec message => "invalid spec: " ++ message
  | .driver e => "driver error: " ++ e

inductive DriverKind where
  | postgres
  | mysql
  | mariadb
  | sqlite
deriving DecidableEq, Repr

def DriverKind.asStr : DriverKind → String
  | .postgres => "postgres"
  | .mysql => "mysql"
  | .mariadb => "mariadb"
  | .sqlite => "sqlite"

/-- Of the transactions of `sql_tx`. -/
inductive IsolationLevel where
  | readCommitted
  | repeatableRead
  | serializable
deriving DecidableEq, Repr

def IsolationLevel.sqlFragment : IsolationLevel → String
  | .readCommitted => "SET TRANSACTION ISOLATION LEVEL READ COMMITTED"
  | .repeatableRead => "SET TRANSACTION ISOLATION LEVEL REPEATABLE READ"
  | .serializable => "SET TRANSACTION ISOLATION LEVEL SERIALIZABLE"

/-- How the result rows are shaped for the caller. -/
inductive RowMode where
  | single
  | many
  | scalar
  | affectedRows
  | resourceContents
  | stream
  | resultSets
deriving DecidableEq, Repr

/-- What a query runs: SQL text, a procedure, or the text of a file. -/
inductive QueryBody where
  | sql (sql : String)
  | procedure (procedure : String)
  | sqlFile (sqlFile : String)
deriving DecidableEq, Repr

structure QueryShape where
  body : QueryBody
  rowMode : RowMode
  timeoutMs : Option Nat := none
deriving DecidableEq, Repr

/-- The connection and query of a binding. -/
structure SqlBackendConfig where
  driver : DriverKind
  query : QueryShape
deriving DecidableEq, Repr

/-- The characters that `trim` removes. -/
def isWhiteSpace (c : Char) : Bool :=
  let n := c.val.toNat
  (9 ≤ n && n ≤ 13) || n = 0x20 || n = 0x85 || n = 0xA0 || n = 0x1680 ||
    (0x2000 ≤ n && n ≤ 0x200A) || n = 0x2028 || n = 0x2029 || n = 0x202F || n = 0x205F || n = 0x3000

/-- A name that may stand in a statement: ASCII letters, digits, `_` and `.`, not
starting with a digit or a point. The names of session variables are checked
with it when the configuration is read. -/
def isSafeSqlIdentifier (s : String) : Bool :=
  !s.toList.isEmpty && s.toList.all (fun c => c.isAlphanum || c = '_' || c = '.') &&
    s.toList.head?.any (fun c => c.isAlpha || c = '_')

end McpgSql
