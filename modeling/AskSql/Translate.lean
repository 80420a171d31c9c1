import AskSql.Idiom.Rewrite
import AskSql.RowLimit

/-! Translation of a statement into one dialect: its date and time idioms and its row limit are
rewritten until nothing changes, at most eight times. -/

namespace AskSql

/-- One pass of translation. -/
def translatePass (dialect : Dialect) (sql : List Char) : List Char :=
  RowLimit.rewrite dialect (Idiom.rewrite dialect sql)

/-- Repeats `step` until it changes nothing, at most `passes` times. -/
def settle (step : List Char → List Char) : Nat → List Char → List Char
  | 0, text => text
  | passes + 1, text =>
    let next := step text
    if next = text then text else settle step passes next

/-- The largest number of passes over a statement. -/
def maxPasses : Nat := 8

/-- A statement in the idioms of `dialect`. -/
def translate (dialect : Dialect) (sql : String) : String :=
  String.ofList (settle (translatePass dialect) maxPasses sql.toList)

end AskSql
