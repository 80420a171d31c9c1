import AskSql.Dialect
import AskSql.Idiom.Basic
import AskSql.Sql.Call

/-! The form of each idiom in each dialect, given its arguments in that dialect.  SQLite has no
week modifier, so a shift by weeks is one by days there; weeks begin on Monday in every dialect. -/

namespace AskSql.Idiom

open Sql

/-- `arg` cast to a date. -/
def castToDate (arg : List Char) : List Char :=
  call "CAST" [arg ++ " AS DATE".toList]

/-- The form of a part taken out of a date. -/
def renderExtract (dialect : Dialect) (part : DatePart) (arg : List Char) : List Char :=
  match dialect, part with
  | .sqlite, .year => call "strftime" ["'%Y'".toList, arg]
  | .sqlite, .month => call "strftime" ["'%m'".toList, arg]
  | .sqlite, .day => call "strftime" ["'%d'".toList, arg]
  | .sqlite, .week => call "strftime" ["'%W'".toList, arg]
  | _, .year => call "YEAR" [arg]
  | _, .month => call "MONTH" [arg]
  | _, .day => call "DAY" [arg]
  | .sqlServer, .week => call "DATEPART" ["week".toList, arg]
  | .mySql, .week => call "WEEK" [arg]

/-- The form of the current date or moment. -/
def renderClock (dialect : Dialect) (clock : Clock) : List Char :=
  match dialect, clock with
  | .sqlite, .date => call "date" ["'now'".toList]
  | .sqlite, .now => call "datetime" ["'now'".toList]
  | .sqlServer, .date => castToDate (call "GETDATE" [])
  | .sqlServer, .now => call "GETDATE" []
  | .mySql, .date => call "CURDATE" []
  | .mySql, .now => call "NOW" []

/-- The text of an integer. -/
def amountText (n : Int) : List Char :=
  (toString n).toList

/-- The text of an integer, with a sign in any case. -/
def signedText (n : Int) : List Char :=
  if 0 ≤ n then '+' :: amountText n else amountText n

/-- The form of a shift, unless the amount that has to be written is out of range. -/
def renderShift (dialect : Dialect) (unit : TimeUnit) (amount : Int) (base : List Char)
    (clock : Clock) : Option (List Char) :=
  match dialect with
  | .sqlite =>
    let inDays : Option (TimeUnit × Int) :=
      if unit = .week then (some (amount * 7) |>.filter Text.fitsInt64).map (TimeUnit.day, ·)
      else some (unit, amount)
    inDays.map fun (unit, amount) =>
      call (if clock = .now || unit.isSubDay then "datetime" else "date")
        [base, '\'' :: signedText amount ++ ' ' :: unit.keyword.toList ++ "s'".toList]
  | .sqlServer => some (call "DATEADD" [unit.keyword.toList, amountText amount, base])
  | .mySql =>
    some (call "DATE_ADD" [base, "INTERVAL ".toList ++ amountText amount ++ ' ' :: unit.capitals])

/-- The form of the start of a period. -/
def renderTruncate (dialect : Dialect) (part : DatePart) (arg : List Char) : List Char :=
  match dialect, part with
  | .sqlite, .year => call "date" [arg, "'start of year'".toList]
  | .sqlite, .month => call "date" [arg, "'start of month'".toList]
  | .sqlite, .week => call "date" [arg, "'weekday 0'".toList, "'-6 days'".toList]
  | .sqlite, .day => call "date" [arg]
  | .sqlServer, .week =>
    call "DATEADD"
      ["day".toList,
       "-((".toList ++ call "DATEPART" ["weekday".toList, arg] ++ " + @@DATEFIRST - 2) % 7)".toList,
       castToDate arg]
  | .sqlServer, part =>
    let unit := part.keyword.toList
    call "DATEADD" [unit, call "DATEDIFF" [unit, "0".toList, arg], "0".toList]
  | .mySql, .year => call "DATE_FORMAT" [arg, "'%Y-01-01'".toList]
  | .mySql, .month => call "DATE_FORMAT" [arg, "'%Y-%m-01'".toList]
  | .mySql, .week =>
    call "DATE_SUB"
      [call "DATE" [arg], "INTERVAL ".toList ++ call "WEEKDAY" [arg] ++ " DAY".toList]
  | .mySql, .day => call "DATE" [arg]

/-- The form of an idiom, where `operand` writes the expressions inside it in the dialect. -/
def render (dialect : Dialect) (operand : List Char → List Char) : Idiom → Option (List Char)
  | .extract part arg => some (renderExtract dialect part (operand arg))
  | .clock value => some (renderClock dialect value)
  | .shift unit amount base value => renderShift dialect unit amount (operand base) value
  | .truncate part arg => some (renderTruncate dialect part (operand arg))

end AskSql.Idiom
