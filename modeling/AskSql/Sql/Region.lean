import AskSql.Text.Blank

/-! Quoting in SQL text.  A scan stands in plain code, inside quotes of one of three kinds, or
inside square brackets, and each character moves it on.  A quote doubled inside quotes needs no rule
of its own: it leaves the quotes and enters them again before any other character is seen.  Whether
a position is inside a string literal depends on single quotes alone. -/

namespace AskSql.Sql

/-- Where in SQL text a scan stands. -/
inductive Region
  | code
  | quoted (quote : Char)
  | bracketed
deriving Repr, DecidableEq

namespace Region

/-- Whether `c` opens and closes quotes. -/
def isQuote (c : Char) : Bool :=
  c == '\'' || c == '"' || c == '`'

/-- The region after the character `c`. -/
def next (region : Region) (c : Char) : Region :=
  match region with
  | code => if isQuote c then quoted c else if c = '[' then bracketed else code
  | quoted quote => if c = quote then code else quoted quote
  | bracketed => if c = ']' then code else bracketed

/-- By how much the character `c` deepens the nesting of parentheses. -/
def nesting (region : Region) (c : Char) : Int :=
  match region with
  | code => if c = '(' then 1 else if c = ')' then -1 else 0
  | _ => 0

end Region

/-- Whether a position is inside a string literal, where `before` is the text that precedes it: an
odd number of single quotes comes first.  The position must not be that of a quote. -/
def insideLiteral (before : List Char) : Bool :=
  before.count '\'' % 2 == 1

end AskSql.Sql
