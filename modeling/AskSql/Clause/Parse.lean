import AskSql.Clause.Basic
import AskSql.Fault
import AskSql.Json.Value
import AskSql.Text.Scan

/-! Clauses written as text.  A filter reads `field operator value`: the field ends before the first
operator that follows at least one character, and the value is read as JSON or else taken as it
stands.  A sort reads `field`, `field:asc` or `field:desc`. -/

namespace AskSql.Clause

open Text

/-- The keywords at the front of a text, white space between them, as written, and the rest.  The
last keyword ends a word. -/
def keywords? (keywords : List String) (cs : List Char) : Option (List Char × List Char) := do
  let rest ← match keywords with
    | [] => none
    | first :: others =>
      others.foldlM (fun cs word => do keyword? word (← blanks? cs)) (← keyword? first cs)
  if rest.head?.any isWordChar then none
  else return (cs.take (cs.length - rest.length), rest)

/-- The symbol at the front of a text and the rest. -/
def symbol? (symbol : String) (cs : List Char) : Option (List Char × List Char) :=
  (symbol.toList.isPrefixOf? cs).map fun rest => (symbol.toList, rest)

/-- The operator at the front of a text as written, and the rest.  `before` precedes the text, and
an operator that is a word begins one. -/
def operator? (before : Option Char) (cs : List Char) : Option (List Char × List Char) :=
  symbol? "!=" cs <|> symbol? ">=" cs <|> symbol? "<=" cs <|> symbol? "=" cs <|>
    symbol? ">" cs <|> symbol? "<" cs <|>
    if before.any isWordChar then none
    else
      keywords? ["not", "in"] cs <|> keywords? ["in"] cs <|> keywords? ["like"] cs <|>
        keywords? ["is", "not", "null"] cs <|> keywords? ["is", "null"] cs

/-- A capital letter of an operator as written.  The long s has one and the Kelvin sign is one. -/
def capital (c : Char) : Char :=
  if c = 'ſ' then 'S' else c.toUpper

/-- The operator that a text spells in capitals, its words apart by single spaces.  What spells no
other operator is the last. -/
def operatorOf (text : List Char) : FilterOperator :=
  (FilterOperator.names.lookup (String.ofList ((collapse text).map capital))).getD .isNotNull

/-- A filter as it is written. -/
structure WrittenFilter where
  field : List Char
  operator : List Char
  value : List Char
deriving Repr, DecidableEq

/-- The first operator of a text that follows at least one character.  `before` is what comes before
the text, read backwards. -/
def splitFilterFrom (before : List Char) : List Char → Option WrittenFilter
  | [] => none
  | c :: cs =>
    match (if before.isEmpty then none else operator? before.head? (c :: cs)) with
    | some (operator, rest) => some ⟨trim before.reverse, operator, trim rest⟩
    | none => splitFilterFrom (c :: before) cs

/-- The parts of a written filter.  If the text is all operator and value, white space before them
makes up for the field. -/
def splitFilter (cs : List Char) : Option WrittenFilter :=
  let bare := trimStart cs
  splitFilterFrom [] bare <|>
    if bare.length < cs.length then
      (operator? none bare).map fun (operator, rest) => ⟨[], operator, trim rest⟩
    else none

/-- The value of a written filter. -/
def readValue (text : String) : Json :=
  (Json.parse? text).getD (.str text)

/-- The filter that a text spells. -/
def parseFilter (text : String) : Except Fault Clause :=
  match splitFilter text.toList with
  | none => .error (.unparsedFilter text)
  | some written =>
    let operator := operatorOf written.operator
    let field := String.ofList written.field
    if operator.isUnary then .ok (.filter field operator .null false)
    else if written.value.isEmpty then .error (.filterWithoutValue text)
    else .ok (.filter field operator (readValue (String.ofList written.value)) false)

/-- What comes before the last `x` of a text and what comes after it. -/
def splitLast? (x : Char) (cs : List Char) : Option (List Char × List Char) :=
  let backwards := cs.reverse
  match backwards.dropWhile (· ≠ x) with
  | [] => none
  | _ :: front => some (front.reverse, (backwards.takeWhile (· ≠ x)).reverse)

/-- The sort that a text spells.  What follows the last colon is part of the field unless it is a
direction. -/
def parseSort (text : String) : Clause :=
  let cs := text.toList
  let (field, direction) :=
    match splitLast? ':' cs with
    | some (field, ending) =>
      if sameAscii (trim ending) "desc".toList then (field, SortDirection.desc)
      else if sameAscii (trim ending) "asc".toList then (field, SortDirection.asc)
      else (cs, .asc)
    | none => (cs, .asc)
  .sort (String.ofList (trim field)) direction

/-- The grouping that a text spells. -/
def parseGroupBy (text : String) : Clause :=
  .groupBy (trimmed text)

end AskSql.Clause
