import AskSql.Dialect
import AskSql.Text.Scan

/-! The row limit of a statement, which SQL Server writes as `TOP n` at the front and the other
dialects as `LIMIT n` at the end.  Rewriting moves the limit to where the dialect has it. -/

namespace AskSql.RowLimit

open Text

/-- The front of a statement up to and including the white space after `SELECT`, and the rest. -/
def select? (cs : List Char) : Option (List Char × List Char) := do
  let rest ← blanks? (← keyword? "select" (trimStart cs))
  return (cs.take (cs.length - rest.length), rest)

/-- The keyword `DISTINCT` and the white space after it, both empty if there is none, and the
rest. -/
def distinct (cs : List Char) : List Char × List Char :=
  match keyword? "distinct" cs >>= blanks? with
  | some rest => (cs.take (cs.length - rest.length), rest)
  | none => ([], cs)

/-- What comes before a limit at the end of a statement, and the digits of the limit.  A semicolon
may follow the limit. -/
def trailingLimit? (sql : List Char) : Option (List Char × List Char) := do
  let ending := trimStart sql.reverse
  let ending := trimStart ((char? ';' ending).getD ending)
  let (digits, ending) ← digits? ending
  let ending ← keywordChars? "limit".toList.reverse (← blanks? ending)
  let body ← blanks? ending
  return (body.reverse, digits.reverse)

/-- Whether a statement has a `TOP` after its `SELECT`. -/
def hasTop (sql : List Char) : Bool :=
  match select? sql with
  | some (_, rest) =>
    match keyword? "top" (distinct rest).2 with
    | some cs => !cs.head?.any isWordChar
    | none => false
  | none => false

/-- `sql` with its limit, if it ends with one, moved behind `SELECT`.  A `TOP` already there
wins. -/
def toTop (sql : List Char) : List Char :=
  match trailingLimit? sql with
  | none => sql
  | some (body, digits) =>
    if hasTop body then body
    else
      match select? body with
      | none => sql
      | some (select, rest) =>
        let (distinct, rest) := distinct rest
        select ++ distinct ++ "TOP ".toList ++ digits ++ ' ' :: rest

/-- The text after the digits of a `TOP`, without a closing parenthesis and with at least one
character of white space gone. -/
def afterTop? (cs : List Char) : Option (List Char) :=
  (char? ')' (trimStart cs) >>= blanks?) <|> blanks? cs

/-- `sql` with the limit behind its `SELECT`, if there is one, moved to the end, before a
semicolon. -/
def toLimit (sql : List Char) : List Char :=
  let moved : Option (List Char) := do
    let (select, rest) ← select? sql
    let (distinct, rest) := distinct rest
    let cs := trimStart (← keyword? "top" rest)
    let (digits, cs) ← digits? (trimStart ((char? '(' cs).getD cs))
    let body := trimEnd (← afterTop? cs)
    let (body, semicolon) :=
      match char? ';' body.reverse with
      | some cs => (trimEnd cs.reverse, [';'])
      | none => (body, [])
    return select ++ distinct ++ body ++ " LIMIT ".toList ++ digits ++ semicolon
  moved.getD sql

/-- `sql` with its row limit where `dialect` has it. -/
def rewrite (dialect : Dialect) (sql : List Char) : List Char :=
  match dialect with
  | .sqlServer => toTop sql
  | .sqlite | .mySql => toLimit sql

end AskSql.RowLimit
