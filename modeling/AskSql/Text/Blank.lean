/-! White space, by the Unicode property of that name, and the operations that strip it or split at
it. -/

namespace AskSql.Text

/-- Whether `c` is white space. -/
def isBlank (c : Char) : Bool :=
  c == ' ' || ('\t' ≤ c && c ≤ '\r') || c == '\u0085' || c == '\u00a0' || c == '\u1680' ||
    ('\u2000' ≤ c && c ≤ '\u200a') || c == '\u2028' || c == '\u2029' || c == '\u202f' ||
    c == '\u205f' || c == '\u3000'

/-- Whether `cs` holds white space only. -/
def blank (cs : List Char) : Bool :=
  cs.all isBlank

/-- `cs` without its leading white space. -/
def trimStart (cs : List Char) : List Char :=
  cs.dropWhile isBlank

/-- `cs` without its trailing white space. -/
def trimEnd (cs : List Char) : List Char :=
  (cs.reverse.dropWhile isBlank).reverse

/-- `cs` without the white space at either end. -/
def trim (cs : List Char) : List Char :=
  trimEnd (trimStart cs)

/-- The words of `cs`: its maximal runs of characters that are not white space.  `word` is the word
being read, backwards. -/
def wordsFrom (word : List Char) : List Char → List (List Char)
  | [] => if word.isEmpty then [] else [word.reverse]
  | c :: cs =>
    if isBlank c then
      if word.isEmpty then wordsFrom [] cs else word.reverse :: wordsFrom [] cs
    else wordsFrom (c :: word) cs

/-- The maximal runs of characters that are not white space, in order. -/
def words (cs : List Char) : List (List Char) :=
  wordsFrom [] cs

/-- The words of `cs` joined by single spaces. -/
def collapse (cs : List Char) : List Char :=
  [' '].intercalate (words cs)

end AskSql.Text

namespace AskSql

/-- `s` without the white space at either end. -/
def trimmed (s : String) : String :=
  String.ofList (Text.trim s.toList)

/-- Whether `s` holds white space only. -/
def isBlankText (s : String) : Bool :=
  Text.blank s.toList

end AskSql
