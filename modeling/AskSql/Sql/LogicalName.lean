import AskSql.Keyed
import AskSql.Sql.Identifier
import AskSql.Sql.Region

/-! Configured conditions and orderings use the names of attributes.  In one pass over the text,
each occurrence of such a name as a whole word becomes the column of the attribute, unless it stands
in a string literal or after a dot.  Where several names fit, the longest counts. -/

namespace AskSql.Sql

open Text

/-- Whether a word begins or ends between two characters, of which either may be missing. -/
def isBoundary (before after : Option Char) : Bool :=
  before.any isWordChar != after.any isWordChar

/-- Whether a position lies after the opening quote of a string literal and before its closing
quote, where `before` is the text that precedes it, read backwards. -/
def isInsideLiteral (before : List Char) : List Char → Bool
  | [] => false
  | c :: cs =>
    if c = '\'' then
      if insideLiteral before then cs.head? == some '\'' else before.head? == some '\''
    else insideLiteral before

/-- The names with their columns, a longer name before a shorter one. -/
def byLength (columns : List (String × String)) : List (String × String) :=
  columns.mergeSort fun a b => b.1.utf8ByteSize ≤ a.1.utf8ByteSize

/-- The first of the names that stands at a position as a whole word.  Right after another name the
empty name does not count. -/
def nameAt? (columns : List (String × String)) (before : Option Char) (afterName : Bool)
    (cs : List Char) : Option (String × String) :=
  columns.find? fun (name, _) =>
    match name.toList.isPrefixOf? cs with
    | some rest =>
      isBoundary before cs.head? && !(afterName && name.isEmpty) &&
        isBoundary (name.toList.getLast?.or before) rest.head?
    | none => false

/-- What stands for a name at a position: its column in `dialect`, or the name itself where it must
not be replaced. -/
def replacement (dialect : Dialect) (before cs : List Char) (name column : String) : List Char :=
  if isInsideLiteral before cs || before.head? == some '.' then name.toList
  else escapeChars dialect column.toList

/-- The text with names replaced.  `before` is what comes before it, read backwards, `afterName`
says whether a name has just ended, and the first `skip` characters belong to that name. -/
def replaceNamesFrom (dialect : Dialect) (columns : List (String × String)) (before : List Char)
    (afterName : Bool) (skip : Nat) : List Char → List Char
  | [] =>
    match skip, nameAt? columns before.head? afterName [] with
    | 0, some (name, column) => replacement dialect before [] name column
    | _, _ => []
  | c :: cs =>
    match skip with
    | skip + 1 => replaceNamesFrom dialect columns (c :: before) true skip cs
    | 0 =>
      match nameAt? columns before.head? afterName (c :: cs) with
      | some (name, column) =>
        let text := replacement dialect before (c :: cs) name column
        if name.isEmpty then
          text ++ c :: replaceNamesFrom dialect columns (c :: before) false 0 cs
        else text ++ replaceNamesFrom dialect columns (c :: before) true (name.length - 1) cs
      | none => c :: replaceNamesFrom dialect columns (c :: before) false 0 cs

/-- A configured text with the names of attributes replaced by their columns. -/
def replaceNames (dialect : Dialect) (columns : Keyed String) (text : List Char) : List Char :=
  replaceNamesFrom dialect (byLength columns.entries) [] false 0 text

end AskSql.Sql
