import AskSql.Sql.Region
import AskSql.Text.Scan

/-! Calls in SQL text: the parenthesis that closes one, its arguments, its name, and, read
backwards, the operand that ends at a position.  The forward scans pass over quotes and brackets;
the backward scan of a call passes over string literals. -/

namespace AskSql.Sql

open Text

/-- The text up to the parenthesis that closes one opened just before, and the text after it.
`depth` counts the parentheses opened since. -/
def closeCallFrom (region : Region) (depth : Nat) : List Char → Option (List Char × List Char)
  | [] => none
  | c :: cs =>
    if region = .code ∧ c = ')' then
      match depth with
      | 0 => some ([], cs)
      | depth + 1 => (closeCallFrom .code depth cs).map fun (inner, rest) => (c :: inner, rest)
    else
      let deeper := if region = .code ∧ c = '(' then depth + 1 else depth
      (closeCallFrom (region.next c) deeper cs).map fun (inner, rest) => (c :: inner, rest)

/-- The text up to the parenthesis that closes one opened just before, and the text after it. -/
def closeCall (cs : List Char) : Option (List Char × List Char) :=
  closeCallFrom .code 0 cs

/-- The pieces of a text between its top-level commas, each trimmed.  `piece` is the piece being
read, backwards. -/
def splitArgsFrom (region : Region) (depth : Int) (piece : List Char) :
    List Char → List (List Char)
  | [] => [trim piece.reverse]
  | c :: cs =>
    if region = .code ∧ depth = 0 ∧ c = ',' then
      trim piece.reverse :: splitArgsFrom .code 0 [] cs
    else splitArgsFrom (region.next c) (depth + region.nesting c) (c :: piece) cs

/-- The arguments of a call, given the text between its parentheses.  Blank text holds none. -/
def splitArgs (inner : List Char) : List (List Char) :=
  if blank inner then [] else splitArgsFrom .code 0 [] inner

/-- Whether `c` can begin the name of a call. -/
def isNameStart (c : Char) : Bool :=
  c.isAlpha || c == '_'

/-- Whether `c` can stand in the name of a call. -/
def isNameChar (c : Char) : Bool :=
  c.isAlphanum || c == '_'

/-- The name and the text between the parentheses of `expr`, if the whole of it is one call. -/
def callParts (expr : List Char) : Option (List Char × List Char) :=
  let expr := trim expr
  if (expr.head?.map isNameStart).getD false then
    match trimStart (expr.dropWhile isNameChar) with
    | '(' :: cs =>
      match closeCall cs with
      | some (inner, []) => some (expr.takeWhile isNameChar, inner)
      | _ => none
    | _ => none
  else none

/-- The text of a call of `name`. -/
def call (name : String) (args : List (List Char)) : List Char :=
  name.toList ++ '(' :: ", ".toList.intercalate args ++ [')']

/-- Whether `c` is white space of ASCII, the vertical tab excepted. -/
def isAsciiBlank (c : Char) : Bool :=
  c == ' ' || c == '\t' || c == '\n' || c == '\r' || c == '\x0c'

/-- Whether `c` can stand in a plain, possibly dotted, operand. -/
def isOperandChar (c : Char) : Bool :=
  c.isAlphanum || c == '_' || c == '.' || 128 ≤ c.toNat

/-- Of a text read backwards from just before a closing quote, the part up to and including the
opening quote, and the rest.  A doubled quote belongs to the literal. -/
def openQuoteBefore : List Char → Option (List Char × List Char)
  | [] => none
  | '\'' :: '\'' :: cs =>
    (openQuoteBefore cs).map fun (taken, rest) => ('\'' :: '\'' :: taken, rest)
  | c :: cs =>
    if c = '\'' then some ([c], cs)
    else (openQuoteBefore cs).map fun (taken, rest) => (c :: taken, rest)

/-- Of a text read backwards, the part up to and including the first `x`, and the rest. -/
def upTo (x : Char) : List Char → Option (List Char × List Char)
  | [] => none
  | c :: cs =>
    if c = x then some ([c], cs) else (upTo x cs).map fun (taken, rest) => (c :: taken, rest)

/-- Of a text read backwards from just before a closing parenthesis, the part up to and including
the parenthesis that opens it, and the rest.  `literal` says whether the scan stands in a string
literal, and `depth` counts the parentheses closed since. -/
def openCallBefore (literal : Bool) (depth : Nat) : List Char → Option (List Char × List Char)
  | [] => none
  | c :: cs =>
    let keep := Option.map fun (taken, rest) => (c :: taken, rest)
    if c = '\'' then keep (openCallBefore (!literal) depth cs)
    else if literal then keep (openCallBefore literal depth cs)
    else if c = ')' then keep (openCallBefore literal (depth + 1) cs)
    else if c = '(' then
      match depth with
      | 0 => some ([c], cs)
      | depth + 1 => keep (openCallBefore literal depth cs)
    else keep (openCallBefore literal depth cs)

/-- Of a text read backwards, the operand at its front and the rest: a call, a string literal, a
quoted identifier, or a plain, possibly dotted, name. -/
def operandBackwards : List Char → Option (List Char × List Char)
  | [] => none
  | last :: cs =>
    if last = ')' then
      match openCallBefore false 0 cs with
      | some (taken, rest) =>
        some (last :: taken ++ rest.takeWhile isOperandChar, rest.dropWhile isOperandChar)
      | none => none
    else if last = '\'' then
      (openQuoteBefore cs).map fun (taken, rest) => (last :: taken, rest)
    else if last = ']' then
      (upTo '[' cs).map fun (taken, rest) => (last :: taken, rest)
    else if last = '`' ∨ last = '"' then
      (upTo last cs).map fun (taken, rest) => (last :: taken, rest)
    else if isOperandChar last then
      some ((last :: cs).takeWhile isOperandChar, (last :: cs).dropWhile isOperandChar)
    else none

/-- The operand that ends a text, white space aside, and what comes before it.  The text and the
rest are read backwards; the operand is not. -/
def operandBefore (before : List Char) : Option (List Char × List Char) :=
  match operandBackwards (before.dropWhile isAsciiBlank) with
  | some (taken, rest) => some (taken.reverse, rest)
  | none => none

end AskSql.Sql
