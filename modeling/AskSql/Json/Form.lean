import AskSql.Text.Scan

/-! The written form of JSON, before its strings and numbers are given values.  Reading a form
checks the grammar only, so a form may hold a number out of range or half a surrogate pair; whoever
needs the value of such a part finds that it has none. -/

namespace AskSql.Json

/-- A piece of a written string: a character, or a code unit given by its number. -/
inductive StringPiece
  | char (c : Char)
  | code (unit : Nat)
deriving Repr, DecidableEq

/-- A written number.  The digits after the point and the exponent may be missing; the sign of the
exponent is kept apart from its digits. -/
structure Numeral where
  negative : Bool
  whole : List Char
  fraction : Option (List Char)
  exponent : Option (Bool × List Char)
deriving Repr, DecidableEq

/-- A written value. -/
inductive Form
  | null
  | bool (b : Bool)
  | number (n : Numeral)
  | string (pieces : List StringPiece)
  | array (items : List Form)
  | object (fields : List (List StringPiece × Form))
deriving Repr, Inhabited

namespace Form

/-- Whether `c` is white space of JSON. -/
def isSpace (c : Char) : Bool :=
  c == ' ' || c == '\n' || c == '\t' || c == '\r'

/-- The text after the white space at its front. -/
def skip (cs : List Char) : List Char :=
  cs.dropWhile isSpace

/-- The value of a hexadecimal digit. -/
def hexDigit? (c : Char) : Option Nat :=
  if '0' ≤ c ∧ c ≤ '9' then some (c.toNat - '0'.toNat)
  else if 'a' ≤ c ∧ c ≤ 'f' then some (c.toNat - 'a'.toNat + 10)
  else if 'A' ≤ c ∧ c ≤ 'F' then some (c.toNat - 'A'.toNat + 10)
  else none

/-- The value of four hexadecimal digits. -/
def hex4? (a b c d : Char) : Option Nat := do
  return (((← hexDigit? a) * 16 + (← hexDigit? b)) * 16 + (← hexDigit? c)) * 16 + (← hexDigit? d)

/-- The character that a backslash and `c` stand for. -/
def simpleEscape? (c : Char) : Option Char :=
  [('"', '"'), ('\\', '\\'), ('/', '/'), ('b', '\x08'), ('f', '\x0c'), ('n', '\n'), ('r', '\r'),
    ('t', '\t')].lookup c

/-- The pieces of a string whose opening quote has been read, and the text after its closing
quote. -/
def readString : List Char → Option (List StringPiece × List Char)
  | [] => none
  | '"' :: cs => some ([], cs)
  | '\\' :: 'u' :: a :: b :: c :: d :: cs => do
    let unit ← hex4? a b c d
    let (pieces, rest) ← readString cs
    return (.code unit :: pieces, rest)
  | '\\' :: c :: cs => do
    let c ← simpleEscape? c
    let (pieces, rest) ← readString cs
    return (.char c :: pieces, rest)
  | c :: cs => do
    if c = '\\' ∨ c.toNat < 32 then none
    let (pieces, rest) ← readString cs
    return (.char c :: pieces, rest)

/-- The digits at the front of a text, of which there must be some, and the rest. -/
def readDigits (cs : List Char) : Option (List Char × List Char) :=
  Text.run? Char.isDigit cs

/-- The digits after a point, if there is one, and the rest. -/
def readFraction : List Char → Option (Option (List Char) × List Char)
  | '.' :: cs => (readDigits cs).map fun (ds, rest) => (some ds, rest)
  | cs => some (none, cs)

/-- The sign and digits of an exponent, if there is one, and the rest. -/
def readExponent (cs : List Char) : Option (Option (Bool × List Char) × List Char) :=
  match cs with
  | [] => some (none, [])
  | e :: rest =>
    if e = 'e' ∨ e = 'E' then
      match rest with
      | '-' :: cs => (readDigits cs).map fun (ds, rest) => (some (true, ds), rest)
      | '+' :: cs => (readDigits cs).map fun (ds, rest) => (some (false, ds), rest)
      | cs => (readDigits cs).map fun (ds, rest) => (some (false, ds), rest)
    else some (none, cs)

/-- The number at the front of a text, and the rest.  Only a lone zero may begin with a zero. -/
def readNumeral (cs : List Char) : Option (Numeral × List Char) := do
  let (negative, cs) :=
    match cs with
    | '-' :: cs => (true, cs)
    | cs => (false, cs)
  let (whole, cs) ← readDigits cs
  if whole.head? = some '0' ∧ whole.length ≠ 1 then none
  let (fraction, cs) ← readFraction cs
  let (exponent, cs) ← readExponent cs
  return (⟨negative, whole, fraction, exponent⟩, cs)

mutual

/-- The value at the front of a text, white space aside, and the rest.  Each value begins with a
character of its own, so as much fuel as there are characters is enough. -/
def readValue : Nat → List Char → Option (Form × List Char)
  | 0, _ => none
  | fuel + 1, cs =>
    match skip cs with
    | 'n' :: 'u' :: 'l' :: 'l' :: cs => some (.null, cs)
    | 't' :: 'r' :: 'u' :: 'e' :: cs => some (.bool true, cs)
    | 'f' :: 'a' :: 'l' :: 's' :: 'e' :: cs => some (.bool false, cs)
    | '"' :: cs => (readString cs).map fun (pieces, rest) => (.string pieces, rest)
    | '[' :: cs =>
      match skip cs with
      | ']' :: cs => some (.array [], cs)
      | cs => (readItems fuel cs).map fun (items, rest) => (.array items, rest)
    | '\x7b' :: cs =>
      match skip cs with
      | '\x7d' :: cs => some (.object [], cs)
      | cs => (readFields fuel cs).map fun (fields, rest) => (.object fields, rest)
    | cs => (readNumeral cs).map fun (n, rest) => (.number n, rest)

/-- The items of an array up to its closing bracket, and the rest. -/
def readItems : Nat → List Char → Option (List Form × List Char)
  | 0, _ => none
  | fuel + 1, cs => do
    let (item, cs) ← readValue fuel cs
    match skip cs with
    | ',' :: cs =>
      let (items, rest) ← readItems fuel cs
      return (item :: items, rest)
    | ']' :: rest => return ([item], rest)
    | _ => none

/-- The fields of an object up to its closing brace, and the rest. -/
def readFields : Nat → List Char → Option (List (List StringPiece × Form) × List Char)
  | 0, _ => none
  | fuel + 1, cs => do
    let cs ← Text.char? '"' (skip cs)
    let (name, cs) ← readString cs
    let cs ← Text.char? ':' (skip cs)
    let (value, cs) ← readValue fuel cs
    match skip cs with
    | ',' :: cs =>
      let (fields, rest) ← readFields fuel cs
      return ((name, value) :: fields, rest)
    | '\x7d' :: rest => return ([(name, value)], rest)
    | _ => none

end

/-- The form that is the whole of a text, white space aside. -/
def parse? (text : String) : Option Form := do
  let cs := text.toList
  let (form, rest) ← readValue (cs.length + 1) cs
  if (skip rest).isEmpty then some form else none

end Form

end AskSql.Json
