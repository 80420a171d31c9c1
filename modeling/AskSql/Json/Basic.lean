import AskSql.Keyed
import AskSql.Numeric.Decimal

/-! JSON values.  A number is an integer of 64 bits, with or without a sign, or a binary64 number.
The fields of an object that was read are in the order of their names. -/

namespace AskSql

open Numeric

/-- A JSON number. -/
inductive JsonNumber
  | int (n : Int)
  | real (x : Binary64)
deriving Repr, DecidableEq

/-- A JSON value. -/
inductive Json
  | null
  | bool (b : Bool)
  | num (n : JsonNumber)
  | str (s : String)
  | arr (items : List Json)
  | obj (fields : List (String × Json))
deriving Repr, BEq, Inhabited

/-- The text of a number. -/
def JsonNumber.text : JsonNumber → String
  | int n => toString n
  | real x => x.text

end AskSql
