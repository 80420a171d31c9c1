import AskSql.Text.Blank
import AskSql.Text.Case
import AskSql.Text.WordChar

/-! Steps of a scanner over a text given as the list of its characters.  Each takes what it looks
for off the front and returns the rest, or fails.  Keywords are matched without regard to case, and
a run is always taken whole. -/

namespace AskSql.Text

/-- The rest of a text after `word`, whose characters stand for all that fold to them. -/
def keywordChars? : List Char → List Char → Option (List Char)
  | [], cs => some cs
  | _ :: _, [] => none
  | w :: word, c :: cs => if fold c = w then keywordChars? word cs else none

/-- The rest of a text after the keyword `word`, given in small letters. -/
def keyword? (word : String) (cs : List Char) : Option (List Char) :=
  keywordChars? word.toList cs

/-- The rest of a text after the character `x`. -/
def char? (x : Char) : List Char → Option (List Char)
  | c :: cs => if c = x then some cs else none
  | [] => none

/-- The rest of a text after white space, of which there must be some. -/
def blanks? : List Char → Option (List Char)
  | c :: cs => if isBlank c then some (trimStart cs) else none
  | [] => none

/-- The characters at the front of `cs` that satisfy `p`, of which there must be some, and the
rest. -/
def run? (p : Char → Bool) (cs : List Char) : Option (List Char × List Char) :=
  let taken := cs.takeWhile p
  if taken.isEmpty then none else some (taken, cs.dropWhile p)

/-- A run of decimal digits and the rest. -/
def digits? (cs : List Char) : Option (List Char × List Char) :=
  run? isDecimalDigit cs

/-- A run of decimal digits that a sign may precede, and the rest. -/
def signedDigits? : List Char → Option (List Char × List Char)
  | [] => none
  | c :: cs =>
    if c = '+' || c = '-' then (digits? cs).map fun (ds, rest) => (c :: ds, rest)
    else digits? (c :: cs)

/-- A run of ASCII letters, or characters that fold to them, and the rest. -/
def letters? (cs : List Char) : Option (List Char × List Char) :=
  run? foldsToLetter cs

/-- The word at the front of `cs`, which is empty if none begins there, and the rest. -/
def word (cs : List Char) : List Char × List Char :=
  (cs.takeWhile isWordChar, cs.dropWhile isWordChar)

/-- Whether a word begins at `c` when `before` precedes it. -/
def beginsWord (before : Option Char) (c : Char) : Bool :=
  isWordChar c && !before.any isWordChar

/-- Whether `cs` has a word that reads `key`, given in small letters, up to case.  `before` is what
precedes `cs`. -/
def hasWordFrom (key : List Char) (before : Option Char) : List Char → Bool
  | [] => false
  | c :: cs =>
    (beginsWord before c && (word (c :: cs)).1.map fold == key) || hasWordFrom key (some c) cs

/-- Whether `cs` has a word that reads `key`, given in small letters, up to case. -/
def hasWord (key : String) (cs : List Char) : Bool :=
  hasWordFrom key.toList none cs

/-- The value of a run of ASCII digits, or nothing if it is empty or holds another character. -/
def natural? (cs : List Char) : Option Nat :=
  if cs.isEmpty || !cs.all Char.isDigit then none
  else some (cs.foldl (fun n c => 10 * n + (c.toNat - '0'.toNat)) 0)

/-- The integers that fit in 64 bits with a sign. -/
def fitsInt64 (n : Int) : Bool :=
  -9223372036854775808 ≤ n && n ≤ 9223372036854775807

/-- The value of an optionally signed run of ASCII digits, if it fits in 64 bits with a sign. -/
def int64? (cs : List Char) : Option Int :=
  let value : Option Int :=
    match cs with
    | '-' :: ds => (natural? ds).map fun n => -(n : Int)
    | '+' :: ds => (natural? ds).map fun n => (n : Int)
    | ds => (natural? ds).map fun n => (n : Int)
  value.filter fitsInt64

/-- `cs` in capital letters, which touches ASCII letters only. -/
def upperAscii (cs : List Char) : List Char :=
  cs.map Char.toUpper

/-- `cs` in small letters, which touches ASCII letters only. -/
def lowerAscii (cs : List Char) : List Char :=
  cs.map Char.toLower

end AskSql.Text
