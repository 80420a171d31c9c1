import AskSql.Json.Printer
import AskSql.Sql.Identifier

/-! Literals in each dialect.  A string stands in single quotes, with the quotes inside it written
twice; an array is a list in parentheses; an object is the string of its compact JSON text. -/

namespace AskSql.Sql

/-- `s` as a string literal. -/
def quoteLiteral (s : String) : String :=
  String.ofList ('\'' :: doubled '\'' s.toList ++ ['\''])

/-- A truth value, which SQL Server writes as a bit. -/
def boolLiteral (dialect : Dialect) (b : Bool) : String :=
  match dialect, b with
  | .sqlServer, true => "1"
  | .sqlServer, false => "0"
  | _, true => "TRUE"
  | _, false => "FALSE"

mutual

/-- A value as a literal. -/
def literal (dialect : Dialect) : Json → String
  | .null => "NULL"
  | .bool b => boolLiteral dialect b
  | .num n => n.text
  | .str s => quoteLiteral s
  | .arr items => "(" ++ ", ".intercalate (literals dialect items) ++ ")"
  | .obj fields => quoteLiteral (Json.obj fields).compact

/-- The values of a list as literals. -/
def literals (dialect : Dialect) : List Json → List String
  | [] => []
  | item :: items => literal dialect item :: literals dialect items

end

end AskSql.Sql
