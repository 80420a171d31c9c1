import AskSql.Fault
import AskSql.Text.Scan

/-! The three families of SQL dialects and the spellings that name them. -/

namespace AskSql

/-- A family of SQL dialects. -/
inductive Dialect
  | sqlite
  | sqlServer
  | mySql
deriving Repr, DecidableEq

namespace Dialect

/-- Every dialect. -/
def all : List Dialect := [sqlite, sqlServer, mySql]

/-- The name of a dialect. -/
def name : Dialect → String
  | sqlite => "sqlite"
  | sqlServer => "sqlserver"
  | mySql => "mysql"

/-- Every spelling of a dialect, in small letters. -/
def spellings : List (String × Dialect) :=
  [("sqlite", sqlite), ("sqlite3", sqlite),
   ("sqlserver", sqlServer), ("sql_server", sqlServer), ("mssql", sqlServer), ("tsql", sqlServer),
   ("mysql", mySql), ("mariadb", mySql), ("postgresql", mySql), ("postgres", mySql)]

/-- The text by which a dialect is looked up: trimmed and in small letters. -/
def lookupKey (text : String) : String :=
  String.ofList (Text.lowerAscii (Text.trim text.toList))

/-- The dialect that `text` spells, whatever its case and the white space around it. -/
def ofText? (text : String) : Except Fault Dialect :=
  match spellings.lookup (lookupKey text) with
  | some dialect => .ok dialect
  | none => .error (.unknownDialect (lookupKey text))

/-- The dialect of a configured database type.  A type that spells no dialect is taken for
SQLite. -/
def ofDatabaseType (text : String) : Dialect :=
  match ofText? text with
  | .ok dialect => dialect
  | .error _ => sqlite

end Dialect

end AskSql
