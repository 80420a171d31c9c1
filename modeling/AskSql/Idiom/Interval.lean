import AskSql.Idiom.Basic

/-! Interval texts.  An interval reads `INTERVAL 2 DAY`, `INTERVAL '2' DAY` or `INTERVAL '2 days'`;
a modifier reads `'+2 days'`.  A scanned interval keeps its amount and unit as text, since an
interval may be well formed and still have an amount out of range or an unknown unit. -/

namespace AskSql.Idiom

open Text

/-- An interval as written, and the text after it. -/
structure ScannedInterval where
  amount : List Char
  unit : List Char
  rest : List Char
deriving Repr, DecidableEq

/-- The number quoted and the unit outside the quotes. -/
def quotedAmount? (cs : List Char) : Option ScannedInterval := do
  let cs ← char? '\'' cs
  let (amount, cs) ← signedDigits? (trimStart cs)
  let cs ← char? '\'' (trimStart cs)
  let (unit, rest) ← letters? (trimStart cs)
  return ⟨amount, unit, rest⟩

/-- The number and the unit quoted together. -/
def quotedBoth? (cs : List Char) : Option ScannedInterval := do
  let cs ← char? '\'' cs
  let (amount, cs) ← signedDigits? (trimStart cs)
  let (unit, cs) ← letters? (← blanks? cs)
  let rest ← char? '\'' (trimStart cs)
  return ⟨amount, unit, rest⟩

/-- The number and the unit without quotes. -/
def unquoted? (cs : List Char) : Option ScannedInterval := do
  let (amount, cs) ← signedDigits? cs
  let (unit, rest) ← letters? (← blanks? cs)
  return ⟨amount, unit, rest⟩

/-- The interval at the front of a text. -/
def scanInterval? (cs : List Char) : Option ScannedInterval := do
  let cs ← blanks? (← keyword? "interval" cs)
  quotedAmount? cs <|> quotedBoth? cs <|> unquoted? cs

/-- The amount and the unit of a scanned interval, if the amount fits in 64 bits and the unit is
known. -/
def ScannedInterval.value? (interval : ScannedInterval) : Option (Int × TimeUnit) := do
  return (← int64? interval.amount, ← TimeUnit.ofText? interval.unit)

/-- The amount and the unit of an interval that is the whole of `text`. -/
def interval? (text : List Char) : Option (Int × TimeUnit) := do
  let interval ← scanInterval? (trim text)
  if interval.rest.isEmpty then interval.value? else none

/-- The amount and the unit of a quoted modifier that is the whole of `text`. -/
def modifier? (text : List Char) : Option (Int × TimeUnit) := do
  let interval ← quotedBoth? text
  if interval.rest.isEmpty then interval.value? else none

end AskSql.Idiom
