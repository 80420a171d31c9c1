import AskSql.Dialect

/-! Identifiers in each dialect.  A dotted name is escaped part by part: a part that is already
quoted or is a plain word stays as it is, unless it is reserved; any other part is quoted.  A
closing quote inside a quoted part is written twice. -/

namespace AskSql.Sql

/-- The words that cannot stand unquoted as identifiers, in capitals. -/
def reservedWords : Dialect → List String
  | .sqlite =>
    ["ABORT", "ADD", "ALL", "ALTER", "AND", "AS", "ASC", "BETWEEN", "BY", "CASE", "CHECK",
     "COLLATE", "COLUMN", "CONSTRAINT", "CREATE", "CROSS", "DEFAULT", "DELETE", "DESC", "DISTINCT",
     "DROP", "ELSE", "END", "ESCAPE", "EXCEPT", "EXISTS", "FROM", "FULL", "GLOB", "GROUP", "HAVING",
     "IN", "INDEX", "INNER", "INSERT", "INTERSECT", "INTO", "IS", "JOIN", "KEY", "LEFT", "LIKE",
     "LIMIT", "NATURAL", "NOT", "NULL", "OFFSET", "ON", "OR", "ORDER", "OUTER", "PRIMARY",
     "REFERENCES", "RIGHT", "SELECT", "SET", "TABLE", "THEN", "TO", "TRANSACTION", "UNION",
     "UNIQUE", "UPDATE", "USING", "VALUES", "WHEN", "WHERE", "WITH"]
  | .sqlServer =>
    ["ADD", "ALL", "ALTER", "AND", "ANY", "AS", "ASC", "BACKUP", "BEGIN", "BETWEEN", "BREAK", "BY",
     "CASCADE", "CASE", "CHECK", "COLUMN", "COMMIT", "CONSTRAINT", "CONTAINS", "CREATE", "CROSS",
     "CURRENT", "CURSOR", "DATABASE", "DECLARE", "DEFAULT", "DELETE", "DESC", "DISTINCT", "DROP",
     "ELSE", "END", "EXCEPT", "EXEC", "EXISTS", "FILE", "FOR", "FOREIGN", "FROM", "FULL",
     "FUNCTION", "GRANT", "GROUP", "HAVING", "IDENTITY", "IN", "INDEX", "INNER", "INSERT",
     "INTERSECT", "INTO", "IS", "JOIN", "KEY", "LEFT", "LIKE", "MERGE", "NOT", "NULL", "OF", "ON",
     "OPEN", "OR", "ORDER", "OUTER", "OVER", "PERCENT", "PIVOT", "PLAN", "PRIMARY", "PROCEDURE",
     "PUBLIC", "READ", "REFERENCES", "RIGHT", "ROWCOUNT", "RULE", "SCHEMA", "SELECT", "SET",
     "TABLE", "THEN", "TO", "TOP", "TRAN", "TRIGGER", "TRUNCATE", "UNION", "UNIQUE", "UPDATE",
     "USE", "USER", "VALUES", "VIEW", "WHEN", "WHERE", "WHILE", "WITH"]
  | .mySql =>
    ["ADD", "ALL", "ALTER", "AND", "AS", "ASC", "BETWEEN", "BY", "CASE", "CHANGE", "CHECK",
     "COLUMN", "CONDITION", "CONSTRAINT", "CREATE", "CROSS", "DATABASE", "DEFAULT", "DELETE",
     "DESC", "DESCRIBE", "DISTINCT", "DIV", "DROP", "ELSE", "EXISTS", "EXPLAIN", "FALSE", "FOR",
     "FOREIGN", "FROM", "FULLTEXT", "GRANT", "GROUP", "HAVING", "IN", "INDEX", "INNER", "INSERT",
     "INTERVAL", "INTO", "IS", "JOIN", "KEY", "KEYS", "KILL", "LEFT", "LIKE", "LIMIT", "LOCK",
     "MATCH", "MOD", "NOT", "NULL", "ON", "OPTION", "OR", "ORDER", "OUTER", "PRIMARY", "RANGE",
     "READ", "REFERENCES", "REGEXP", "RENAME", "REPLACE", "RIGHT", "RLIKE", "SCHEMA", "SELECT",
     "SET", "SHOW", "TABLE", "THEN", "TO", "TRUE", "UNION", "UNIQUE", "UPDATE", "USAGE", "USE",
     "USING", "VALUES", "WHEN", "WHERE", "WITH", "WRITE"]

/-- The characters that open and close a quoted identifier. -/
def identifierQuotes : Dialect → Char × Char
  | .sqlite => ('"', '"')
  | .sqlServer => ('[', ']')
  | .mySql => ('`', '`')

/-- `cs` with every `x` written twice. -/
def doubled (x : Char) (cs : List Char) : List Char :=
  cs.flatMap fun c => if c = x then [x, x] else [c]

/-- `part` as a quoted identifier. -/
def quotePart (dialect : Dialect) (part : List Char) : List Char :=
  let (opening, closing) := identifierQuotes dialect
  opening :: doubled closing part ++ [closing]

/-- Whether `part` begins with a quote of some dialect. -/
def isQuotedPart (part : List Char) : Bool :=
  part.head?.any fun c => c == '[' || c == '"' || c == '`'

/-- Whether `part` is a word of letters, numbers and underscores that does not begin with a
digit. -/
def isPlainPart (part : List Char) : Bool :=
  !part.isEmpty && part.all (fun c => Text.isAlphanumeric c || c == '_') &&
    !part.head?.any Char.isDigit

/-- Whether `part` is a reserved word, in any case. -/
def isReserved (dialect : Dialect) (part : List Char) : Bool :=
  (reservedWords dialect).contains (String.ofList (Text.upperAscii part))

/-- `part` as it stands in a statement. -/
def escapePart (dialect : Dialect) (part : List Char) : List Char :=
  if isQuotedPart part || (isPlainPart part && !isReserved dialect part) then part
  else quotePart dialect part

/-- A possibly dotted identifier as it stands in a statement. -/
def escapeChars (dialect : Dialect) (name : List Char) : List Char :=
  ['.'].intercalate ((name.splitOn '.').map (escapePart dialect))

/-- `name` as one quoted identifier. -/
def quoteIdentifier (dialect : Dialect) (name : String) : String :=
  String.ofList (quotePart dialect name.toList)

/-- A possibly dotted identifier as it stands in a statement. -/
def escapeIdentifier (dialect : Dialect) (name : String) : String :=
  String.ofList (escapeChars dialect name.toList)

end AskSql.Sql
