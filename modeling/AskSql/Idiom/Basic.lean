import AskSql.Text.Scan

/-! Date and time idioms as values.  An idiom is what a date expression means, whatever dialect
spells it: a part taken out of a date, the current date or moment, a shift by a whole number of
units, or the start of a period. -/

namespace AskSql

open Text

/-- A part of a date, and the period that it counts. -/
inductive DatePart
  | year
  | month
  | day
  | week
deriving Repr, DecidableEq

/-- Whether a value carries a time of day (`now`) or only a date. -/
inductive Clock
  | date
  | now
deriving Repr, DecidableEq

/-- A unit of shifting. -/
inductive TimeUnit
  | day
  | week
  | month
  | year
  | hour
  | minute
  | second
deriving Repr, DecidableEq

/-- A date or time expression apart from its spelling.  The expressions inside it are kept as
text. -/
inductive Idiom
  | extract (part : DatePart) (arg : List Char)
  | clock (clock : Clock)
  | shift (unit : TimeUnit) (amount : Int) (base : List Char) (clock : Clock)
  | truncate (part : DatePart) (arg : List Char)
deriving Repr, DecidableEq

/-- The text by which a part or a unit is looked up: trimmed, without the single quotes around it,
in small letters. -/
def unitKey (text : List Char) : String :=
  let bare := (trim text).dropWhile (· == '\'')
  String.ofList (lowerAscii (bare.reverse.dropWhile (· == '\'')).reverse)

namespace DatePart

/-- The keyword of a part, in small letters. -/
def keyword : DatePart → String
  | year => "year"
  | month => "month"
  | day => "day"
  | week => "week"

/-- Every spelling of a part, in small letters. -/
def spellings : List (String × DatePart) :=
  [("year", year), ("yy", year), ("yyyy", year),
   ("month", month), ("mm", month), ("m", month),
   ("day", day), ("dd", day), ("d", day),
   ("week", week), ("wk", week), ("ww", week)]

/-- The part that `text` spells. -/
def ofText? (text : List Char) : Option DatePart :=
  spellings.lookup (unitKey text)

end DatePart

namespace TimeUnit

/-- The keyword of a unit, in small letters. -/
def keyword : TimeUnit → String
  | day => "day"
  | week => "week"
  | month => "month"
  | year => "year"
  | hour => "hour"
  | minute => "minute"
  | second => "second"

/-- The keyword of a unit, in capitals. -/
def capitals (unit : TimeUnit) : List Char :=
  upperAscii unit.keyword.toList

/-- Whether a unit is shorter than a day. -/
def isSubDay : TimeUnit → Bool
  | hour | minute | second => true
  | _ => false

/-- Every spelling of a unit, in small letters. -/
def spellings : List (String × TimeUnit) :=
  [("day", day), ("days", day), ("dd", day), ("d", day),
   ("week", week), ("weeks", week), ("wk", week), ("ww", week),
   ("month", month), ("months", month), ("mm", month), ("m", month),
   ("year", year), ("years", year), ("yy", year), ("yyyy", year),
   ("hour", hour), ("hours", hour), ("hh", hour),
   ("minute", minute), ("minutes", minute), ("mi", minute), ("n", minute),
   ("second", second), ("seconds", second), ("ss", second), ("s", second)]

/-- The unit that `text` spells. -/
def ofText? (text : List Char) : Option TimeUnit :=
  spellings.lookup (unitKey text)

end TimeUnit

/-- `n` negated, if that fits in 64 bits. -/
def Idiom.negate? (n : Int) : Option Int :=
  some (-n) |>.filter fitsInt64

end AskSql
