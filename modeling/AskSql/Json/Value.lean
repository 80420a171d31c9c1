import AskSql.Json.Basic
import AskSql.Json.Form

/-! The values of written JSON.  An integer that fits in 64 bits, with or without a sign, keeps its
exact value.  Every other number is a binary64 number: its digits are gathered into a significand of
64 bits, those that no longer fit only counting for the exponent, and the significand is then scaled
by a power of ten.  Each of these steps rounds, so the result need not be the number nearest to the
text. -/

namespace AskSql.Json

open Numeric

/-- The characters of a written string, or nothing if it holds half a surrogate pair. -/
def decodePieces : List StringPiece → Option (List Char)
  | [] => some []
  | .char c :: pieces => (decodePieces pieces).map (c :: ·)
  | .code unit :: pieces =>
    if 0xDC00 ≤ unit ∧ unit ≤ 0xDFFF then none
    else if 0xD800 ≤ unit ∧ unit ≤ 0xDBFF then
      match pieces with
      | .code low :: pieces =>
        if 0xDC00 ≤ low ∧ low ≤ 0xDFFF then
          (decodePieces pieces).map
            (Char.ofNat (0x10000 + (unit - 0xD800) * 0x400 + (low - 0xDC00)) :: ·)
        else none
      | _ => none
    else (decodePieces pieces).map (Char.ofNat unit :: ·)

/-- The value of a written string. -/
def stringOf? (pieces : List StringPiece) : Option String :=
  (decodePieces pieces).map String.ofList

/-- Appends digits to `significand` as long as the result fits in 64 bits.  Also counts the digits
left over. -/
def gather (significand : Nat) : List Char → Nat × Nat
  | [] => (significand, 0)
  | d :: ds =>
    let next := 10 * significand + (d.toNat - '0'.toNat)
    if next < twoTo 64 then gather next ds else (significand, ds.length + 1)

/-- `x` times ten to the power of `exponent`.  A step of the scaling divides by at most `10 ^ 308`,
and after three steps nothing is left to divide. -/
def scaleByTen? : Nat → Binary64 → Int → Option Binary64
  | 0, x, _ => some x
  | fuel + 1, x, exponent =>
    let power := Binary64.nearest (tenTo (min exponent.natAbs 308)) 1
    let (top, bottom) := Binary64.ratio ⟨false, power.1, power.2⟩
    if exponent.natAbs ≤ 308 then
      if 0 ≤ exponent then x.scale? top bottom else x.scale? bottom top
    else if x.mantissa = 0 then some x
    else if 0 ≤ exponent then none
    else (x.scale? bottom top).bind fun x => scaleByTen? fuel x (exponent + 308)

/-- The number whose significand and exponent of ten are given. -/
def realOf? (negative : Bool) (significand : Nat) (exponent : Int) : Option Binary64 :=
  (Binary64.ofRatio? negative significand 1).bind fun x => scaleByTen? 4 x exponent

/-- The largest exponent that is read exactly. -/
def maxExponent : Nat := twoTo 31 - 1

/-- The value of a written number, or nothing if it is too large. -/
def Numeral.value? (n : Numeral) : Option JsonNumber :=
  let (significand, dropped) := gather 0 n.whole
  if dropped = 0 ∧ n.fraction = none ∧ n.exponent = none then
    if !n.negative then some (.int significand)
    else if 0 < significand ∧ significand ≤ twoTo 63 then some (.int (-significand))
    else (Binary64.ofRatio? true significand 1).map .real
  else
    let fraction := n.fraction.getD []
    let (significand, unused) := gather significand fraction
    let start : Int := dropped - (fraction.length - unused : Nat)
    let real : Option Binary64 :=
      match n.exponent with
      | none => realOf? n.negative significand start
      | some (down, digits) =>
        let exponent := digits.foldl (fun n d => 10 * n + (d.toNat - '0'.toNat)) 0
        if exponent ≤ maxExponent then
          realOf? n.negative significand (if down then start - exponent else start + exponent)
        else if significand ≠ 0 ∧ !down then none
        else Binary64.ofRatio? n.negative 0 1
    real.map .real

mutual

/-- The value of a form at `depth` levels from the deepest allowed. -/
def valueWithin (depth : Nat) : Form → Option Json
  | .null => some .null
  | .bool b => some (.bool b)
  | .number n => n.value?.map .num
  | .string pieces => (stringOf? pieces).map .str
  | .array items => if depth = 0 then none else (itemsWithin (depth - 1) items).map .arr
  | .object fields => if depth = 0 then none else (fieldsWithin (depth - 1) [] fields).map .obj

/-- The values of the items of an array. -/
def itemsWithin (depth : Nat) : List Form → Option (List Json)
  | [] => some []
  | item :: items => do
    let value ← valueWithin depth item
    return value :: (← itemsWithin depth items)

/-- The fields of an object in the order of their names, added to `entries`.  The last field of a
name counts. -/
def fieldsWithin (depth : Nat) (entries : List (String × Json)) :
    List (List StringPiece × Form) → Option (List (String × Json))
  | [] => some entries
  | (name, form) :: fields => do
    let name ← stringOf? name
    let value ← valueWithin depth form
    fieldsWithin depth (putEntry name value entries) fields

end

/-- The number of levels of arrays and objects that a value may have. -/
def maxDepth : Nat := 127

/-- The value that is the whole of a text. -/
def parse? (text : String) : Option Json := do
  valueWithin maxDepth (← Form.parse? text)

end AskSql.Json
