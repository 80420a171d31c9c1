import AskSql.Idiom.Recognise
import AskSql.Idiom.Render

/-! Rewriting of SQL text into the idioms of one dialect.  Three scans follow each other: over the
clock keywords, over the calls, and over the intervals added to or subtracted from an operand.  Each
leaves string literals alone, and the first two leave alone a word that follows a dot, an at sign or
the opening of a quoted identifier.  The arguments of an idiom are rewritten in turn, which is why
rewriting takes a depth: each level works inside the arguments of the one above. -/

namespace AskSql.Idiom

open Text Sql

/-- Whether a word may be rewritten when `before` precedes it. -/
def isAnchored (before : Option Char) : Bool :=
  match before with
  | some c => !(c == '.' || c == '[' || c == '"' || c == '`' || c == '@')
  | none => true

/-- The clock that a keyword names. -/
def clockKeyword? (word : List Char) : Option Clock :=
  [("current_date", Clock.date), ("current_timestamp", .now)].lookup
    (String.ofList (word.map fold))

/-- The rest of a text after empty parentheses and the white space before and in them. -/
def emptyParens? (cs : List Char) : Option (List Char) := do
  let cs ← char? '(' (trimStart cs)
  char? ')' (trimStart cs)

/-- The clock keyword at the front of a text, and the rest after it and any empty parentheses. -/
def clockAt? (cs : List Char) : Option (Clock × List Char) :=
  let (word, rest) := word cs
  (clockKeyword? word).map fun clock => (clock, (emptyParens? rest).getD rest)

/-- The text with its words rewritten.  At the beginning of a word `rewriteAt?` sees the text from
there on, and may give new text for some of the characters at its front.  `before` precedes the
text, `literal` says whether it begins inside a string literal, and the first `skip` characters have
new text already. -/
def rewriteWordsFrom (rewriteAt? : List Char → Option (List Char × Nat)) (before : Option Char)
    (literal : Bool) (skip : Nat) : List Char → List Char
  | [] => []
  | c :: cs =>
    let inside := literal != (c == '\'')
    match skip with
    | skip + 1 => rewriteWordsFrom rewriteAt? (some c) inside skip cs
    | 0 =>
      if literal || !beginsWord before c || !isAnchored before then
        c :: rewriteWordsFrom rewriteAt? (some c) inside 0 cs
      else
        match rewriteAt? (c :: cs) with
        | some (text, length) =>
          text ++ rewriteWordsFrom rewriteAt? (some c) inside (length - 1) cs
        | none => c :: rewriteWordsFrom rewriteAt? (some c) inside 0 cs

/-- The text with its words rewritten as `rewriteAt?` says. -/
def rewriteWords (rewriteAt? : List Char → Option (List Char × Nat)) (text : List Char) :
    List Char :=
  rewriteWordsFrom rewriteAt? none false 0 text

/-- The new text of the clock keyword at the front of `cs` and the number of characters that it
replaces. -/
def rewriteClockAt? (write : Clock → List Char) (cs : List Char) : Option (List Char × Nat) :=
  (clockAt? cs).map fun (keyword, rest) => (write keyword, cs.length - rest.length)

/-- Writes every clock keyword as `write` says. -/
def rewriteClocks (write : Clock → List Char) (text : List Char) : List Char :=
  rewriteWords (rewriteClockAt? write) text

/-- The function called at the front of a text, the text between its parentheses, and the rest after
the call. -/
def callAt? (cs : List Char) : Option (DateFunction × List Char × List Char) := do
  let (name, rest) := word cs
  let function ← DateFunction.ofName? name
  let (inner, rest) ← closeCall (← char? '(' (trimStart rest))
  return (function, inner, rest)

/-- The new text of the call at the front of `cs` and the number of characters that it replaces, if
the call spells an idiom that `write` can write in another way. -/
def rewriteCallAt? (write : Idiom → Option (List Char)) (cs : List Char) :
    Option (List Char × Nat) := do
  let (function, inner, rest) ← callAt? cs
  let text ← write (← recognise function (splitArgs inner))
  let length := cs.length - rest.length
  if text = cs.take length then none else some (text, length)

/-- Writes every call that spells an idiom as `write` says. -/
def rewriteCalls (write : Idiom → Option (List Char)) (text : List Char) : List Char :=
  rewriteWords (rewriteCallAt? write) text

/-- The shift that the interval at the front of `cs` makes of the operand before it, which `before`
ends with, read backwards: its new text, what comes before the operand, read backwards, and what
comes after the interval.  `sign` stands between the two. -/
def shiftAt? (write : Idiom → Option (List Char)) (before : List Char) (sign : Char)
    (cs : List Char) : Option (List Char × List Char × List Char) := do
  if insideLiteral before then none
  let interval ← scanInterval? (trimStart cs)
  let (amount, unit) ← interval.value?
  let (operand, start) ← operandBefore before
  let amount ← if sign = '-' then negate? amount else some amount
  let base := trimEnd operand
  let text ← write (.shift unit amount base (clockOf base unit))
  return (text, start, interval.rest)

/-- Writes every interval that is added to or subtracted from an operand as `write` says.  `before`
is the text so far, read backwards, and the first `skip` characters are passed over. -/
def rewriteIntervalsFrom (write : Idiom → Option (List Char)) (before : List Char) (skip : Nat) :
    List Char → List Char
  | [] => before.reverse
  | c :: cs =>
    match skip with
    | skip + 1 => rewriteIntervalsFrom write before skip cs
    | 0 =>
      if c = '+' ∨ c = '-' then
        match shiftAt? write before c cs with
        | some (text, start, rest) =>
          rewriteIntervalsFrom write (text.reverse ++ start) (cs.length - rest.length) cs
        | none => rewriteIntervalsFrom write (c :: before) 0 cs
      else rewriteIntervalsFrom write (c :: before) 0 cs

/-- Writes every interval that is added to or subtracted from an operand as `write` says. -/
def rewriteIntervals (write : Idiom → Option (List Char)) (text : List Char) : List Char :=
  rewriteIntervalsFrom write [] 0 text

/-- An argument of an idiom in `dialect`, where `rewrite` rewrites a text.  SQLite keeps the time
value `'now'`, and takes it for the current date or moment too; elsewhere it is the current
moment. -/
def operandText (dialect : Dialect) (rewrite : List Char → List Char) (arg : List Char) :
    List Char :=
  let arg := trim arg
  if isNowLiteral arg then
    match dialect with
    | .sqlite => "'now'".toList
    | _ => renderClock dialect .now
  else
    let text := rewrite arg
    if dialect = .sqlite ∧
        (sameAscii text "date('now')".toList ∨ sameAscii text "datetime('now')".toList) then
      "'now'".toList
    else text

/-- `text` in the idioms of `dialect`, rewritten `depth` levels of arguments deep. -/
def rewriteWithin (dialect : Dialect) : Nat → List Char → List Char
  | 0, text => text
  | depth + 1, text =>
    let write := render dialect (operandText dialect (rewriteWithin dialect depth))
    rewriteIntervals write (rewriteCalls write (rewriteClocks (renderClock dialect) text))

/-- The levels of arguments in which a text is rewritten.  They are enough in SQLite, and elsewhere
for texts in which literals have the only quotes.  On some texts with quoted names no number of
levels would do. -/
def depthFor (text : List Char) : Nat :=
  8 * text.length + 64

/-- `text` in the idioms of `dialect`. -/
def rewrite (dialect : Dialect) (text : List Char) : List Char :=
  rewriteWithin dialect (depthFor text) text

end AskSql.Idiom
