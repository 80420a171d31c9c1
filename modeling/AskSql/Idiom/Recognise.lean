import AskSql.Idiom.Interval
import AskSql.Sql.Call

/-! Which idiom a call spells, in any of the three dialects.  Recognition looks at the name and the
arguments of one call.  Only the clock of a shift looks deeper: a shift of a moment, or of a shifted
moment, is again a moment. -/

namespace AskSql.Idiom

open Text Sql

/-- The functions whose calls may spell an idiom. -/
inductive DateFunction
  | part (part : DatePart)
  | strftime
  | extract
  | datePart
  | today
  | moment
  | cast
  | date
  | datetime
  | dateAdd
  | addInterval
  | subInterval
  | truncate
  | dateFormat
deriving Repr, DecidableEq

/-- The names of the functions, in capitals. -/
def DateFunction.names : List (String × DateFunction) :=
  [("YEAR", part .year), ("MONTH", part .month), ("DAY", part .day), ("WEEK", part .week),
   ("STRFTIME", strftime), ("EXTRACT", extract), ("DATEPART", datePart),
   ("CURDATE", today), ("NOW", moment), ("GETDATE", moment), ("SYSDATETIME", moment),
   ("CAST", cast), ("DATE", date), ("DATETIME", datetime),
   ("DATEADD", dateAdd), ("DATE_ADD", addInterval), ("DATE_SUB", subInterval),
   ("DATE_TRUNC", truncate), ("DATETRUNC", truncate), ("DATE_FORMAT", dateFormat)]

/-- The function that `name` names, in any case. -/
def DateFunction.ofName? (name : List Char) : Option DateFunction :=
  names.lookup (String.ofList (upperAscii name))

/-- Whether `text` is the time value `'now'`. -/
def isNowLiteral (text : List Char) : Bool :=
  sameAscii (trim text) "'now'".toList

/-- Whether `expr` is the current moment, in one of its spellings. -/
def isNowClock (expr : List Char) : Bool :=
  sameAscii expr "CURRENT_TIMESTAMP".toList ||
    match callParts expr with
    | some (name, inner) =>
      match DateFunction.ofName? name with
      | some .moment => blank inner
      | some .datetime => isNowLiteral inner
      | _ => false
    | none => false

/-- What a text ends with before the keyword `word`, given in small letters, and the white space
that must precede it. -/
def beforeKeyword? (word : String) (text : List Char) : Option (List Char) := do
  let cs ← blanks? (← keywordChars? word.toList.reverse text.reverse)
  return cs.reverse

/-- What stands before `AS DATE` at the end of the body of a cast. -/
def castToDate? (body : List Char) : Option (List Char) := do
  let operand ← beforeKeyword? "as" (← beforeKeyword? "date" body)
  if operand.isEmpty then none else some operand

/-- The part and the operand of the body `part FROM operand`. -/
def partFrom? (body : List Char) : Option (DatePart × List Char) := do
  let (word, cs) := word body
  let part ← DatePart.ofText? word
  if lowerAscii word = part.keyword.toList then
    let operand ← blanks? (← keyword? "from" (← blanks? cs))
    if operand.isEmpty then none else some (part, trim operand)
  else none

/-- The operand `x` of `-((DATEPART(weekday, x) + @@DATEFIRST - 2) % 7)`, whatever white space
stands between its tokens. -/
def weekdayOffset? (text : List Char) : Option (List Char) := do
  let cs ← char? '-' text
  let cs ← char? '(' (trimStart cs)
  let cs ← char? '(' (trimStart cs)
  let cs ← keyword? "datepart" (trimStart cs)
  let cs ← char? '(' (trimStart cs)
  let cs ← keyword? "weekday" (trimStart cs)
  let cs ← char? ',' (trimStart cs)
  let ending ← char? ')' cs.reverse
  let ending ← char? '7' (trimStart ending)
  let ending ← char? '%' (trimStart ending)
  let ending ← char? ')' (trimStart ending)
  let ending ← char? '2' (trimStart ending)
  let ending ← char? '-' (trimStart ending)
  let ending ← keywordChars? "@@datefirst".toList.reverse (trimStart ending)
  let ending ← char? '+' (trimStart ending)
  let ending ← char? ')' (trimStart ending)
  return trim ending.reverse

/-- The operand `x` of a shift by days of `CAST(x AS DATE)` back to its Monday. -/
def alignedWeek? (unit offset base : List Char) : Option (List Char) := do
  if (← TimeUnit.ofText? unit) ≠ .day then none
  let weekday ← weekdayOffset? (trim offset)
  let (name, body) ← callParts base
  if DateFunction.ofName? name ≠ some .cast then none
  let operand := trim (← castToDate? (trim body))
  if operand = weekday then some operand else none

/-- The operand `x` of `DATE(x)` less `INTERVAL WEEKDAY(x) DAY`. -/
def weekdayInterval? (base interval : List Char) : Option (List Char) := do
  let (name, operand) ← callParts base
  if DateFunction.ofName? name ≠ some .date then none
  let cs ← blanks? (← keyword? "interval" (trim interval))
  let (weekday, inner) ← callParts (← beforeKeyword? "day" cs)
  if sameAscii weekday "WEEKDAY".toList ∧ trim inner = trim operand then some (trim operand)
  else none

/-- The start of a period written as `DATEADD(part, DATEDIFF(part, 0, x), 0)`. -/
def flooredDate? (unit amount base : List Char) : Option Idiom := do
  let part ← DatePart.ofText? unit
  if trim base ≠ ['0'] then none
  let (name, inner) ← callParts amount
  if !sameAscii name "DATEDIFF".toList then none
  match splitArgs inner with
  | [unit, zero, arg] =>
    if zero = ['0'] ∧ DatePart.ofText? unit = some part then some (.truncate part arg) else none
  | _ => none

/-- The idiom of `date(...)` or `datetime(...)`, where `clock` tells the two apart. -/
def dateCall? (clock : Clock) : List (List Char) → Option Idiom
  | [arg] =>
    if isNowLiteral arg then some (.clock clock)
    else if clock = .date ∧ arg ≠ [] then some (.truncate .day arg)
    else none
  | [base, modifier] =>
    let key := String.ofList (lowerAscii modifier)
    if key = "'start of year'" then some (.truncate .year base)
    else if key = "'start of month'" then some (.truncate .month base)
    else if key = "'start of day'" then some (.truncate .day base)
    else
      match modifier? modifier with
      | none => none
      | some (amount, unit) =>
        let base :=
          if isNowLiteral base then
            match clock with
            | .date => "CURRENT_DATE".toList
            | .now => "CURRENT_TIMESTAMP".toList
          else base
        some (.shift unit amount base clock)
  | [arg, weekday, back] =>
    if clock = .date ∧ sameAscii weekday "'weekday 0'".toList ∧
      sameAscii back "'-6 days'".toList then
      some (.truncate .week arg)
    else none
  | _ => none

/-- The part that a format of `strftime` takes out of a date. -/
def strftimePart? (format : List Char) : Option DatePart :=
  [("'%Y'", DatePart.year), ("'%m'", .month), ("'%d'", .day), ("'%W'", .week)].lookup
    (String.ofList format)

/-- The period to whose start a format of `DATE_FORMAT` takes a date. -/
def dateFormatPart? (format : List Char) : Option DatePart :=
  [("'%Y-%m-01'", DatePart.month), ("'%Y-01-01'", .year)].lookup (String.ofList format)

/-- The idiom that a call of `function` spells, where `clockOf` gives the clock of a shifted
base. -/
def recogniseWith (clockOf : List Char → TimeUnit → Clock) (function : DateFunction)
    (args : List (List Char)) : Option Idiom :=
  match function, args with
  | .part part, [arg] => if arg = [] then none else some (.extract part arg)
  | .strftime, [format, arg] => (strftimePart? format).map fun part => .extract part arg
  | .extract, [body] => (partFrom? body).map fun (part, arg) => .extract part arg
  | .datePart, [part, arg] => (DatePart.ofText? part).map fun part => .extract part arg
  | .today, [] => some (.clock .date)
  | .moment, [] => some (.clock .now)
  | .cast, [body] =>
    match castToDate? body with
    | some operand => if isNowClock (trim operand) then some (.clock .date) else none
    | none => none
  | .date, args => dateCall? .date args
  | .datetime, args => dateCall? .now args
  | .dateAdd, [unit, amount, base] =>
    match int64? (amount.filter (· ≠ ' ')) with
    | some amount =>
      (TimeUnit.ofText? unit).map fun unit => .shift unit amount base (clockOf base unit)
    | none =>
      match alignedWeek? unit amount base with
      | some arg => some (.truncate .week arg)
      | none => flooredDate? unit amount base
  | .addInterval, [base, interval] =>
    (interval? interval).map fun (amount, unit) => .shift unit amount base (clockOf base unit)
  | .subInterval, [base, interval] =>
    match weekdayInterval? base interval with
    | some arg => some (.truncate .week arg)
    | none =>
      match interval? interval with
      | some (amount, unit) =>
        (negate? amount).map fun amount => .shift unit amount base (clockOf base unit)
      | none => none
  | .truncate, [unit, arg] => (DatePart.ofText? unit).map fun part => .truncate part arg
  | .dateFormat, [arg, format] => (dateFormatPart? format).map fun part => .truncate part arg
  | _, _ => none

/-- The clock of a base shifted by `unit`, looking at most `depth` calls deep.  A shift by less than
a day has a time of day, and so has a shift of whatever has one. -/
def clockWithin : Nat → List Char → TimeUnit → Clock
  | 0, _, _ => .date
  | depth + 1, base, unit =>
    let base := trim base
    if unit.isSubDay || isNowClock base then .now
    else
      match callParts base with
      | none => .date
      | some (name, inner) =>
        match DateFunction.ofName? name with
        | none => .date
        | some .datetime => .now
        | some function =>
          match recogniseWith (clockWithin depth) function (splitArgs inner) with
          | some (.shift _ _ _ found) => found
          | _ => .date

/-- The clock of a base shifted by `unit`.  Each call is shorter than the text around it, so the
length of the base is depth enough. -/
def clockOf (base : List Char) (unit : TimeUnit) : Clock :=
  clockWithin (base.length + 1) base unit

/-- The idiom that a call of `function` spells. -/
def recognise (function : DateFunction) (args : List (List Char)) : Option Idiom :=
  recogniseWith clockOf function args

end AskSql.Idiom
