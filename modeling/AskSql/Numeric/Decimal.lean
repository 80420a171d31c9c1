import AskSql.Numeric.Binary64

/-! Decimal text of numbers.  `shortest` finds the decimal with the fewest digits that still reads
back as the same binary64 number, and of those the nearest; `Binary64.text` lays it out.  `fixed`
writes a rational with a given number of places, a half going to the even neighbour. -/

namespace AskSql.Numeric

/-- The decimal number `digits * 10 ^ exponent`. -/
structure Decimal where
  digits : Nat
  exponent : Int
deriving Repr, DecidableEq

/-- The least `k ≤ start + fuel` from `start` on with `den ≤ num * 10 ^ k`. -/
def leadingZeros (num den : Nat) : Nat → Nat → Nat
  | 0, k => k
  | fuel + 1, k => if den ≤ num * tenTo k then k else leadingZeros num den fuel (k + 1)

/-- The `k` with `10 ^ (k - 1) ≤ num / den < 10 ^ k`, for a ratio in the range of binary64. -/
def decimalPoint (num den : Nat) : Int :=
  if den ≤ num then (Nat.toDigits 10 (num / den)).length
  else 1 - (leadingZeros num den 400 1 : Int)

/-- Where the decimals that read back as a number lie: between `low / den` and `high / den`, the
ends included if `closed`. -/
structure Interval where
  low : Nat
  high : Nat
  den : Nat
  closed : Bool
deriving Repr, DecidableEq

/-- The decimals that read back as `x`, which is not zero. -/
def Binary64.interval (x : Binary64) : Interval :=
  let narrow := x.mantissa = twoTo 52 && minExponent < x.exponent
  let unit := twoTo x.exponent.toNat
  ⟨(4 * x.mantissa - (if narrow then 1 else 2)) * unit, (4 * x.mantissa + 2) * unit,
    4 * twoTo (-x.exponent).toNat, x.mantissa % 2 = 0⟩

/-- Whether a decimal lies in an interval. -/
def Interval.holds (i : Interval) (x : Decimal) : Bool :=
  let value := x.digits * tenTo x.exponent.toNat * i.den
  let scale := tenTo (-x.exponent).toNat
  if i.closed then i.low * scale ≤ value && value ≤ i.high * scale
  else i.low * scale < value && value < i.high * scale

/-- The decimal with the given exponent that is nearest to `num / den` among those in the interval,
if its neighbours hold one.  An exact tie goes to the even digits. -/
def onGrid? (i : Interval) (num den : Nat) (exponent : Int) : Option Decimal :=
  let n := num * tenTo (-exponent).toNat
  let d := den * tenTo exponent.toNat
  let near := roundHalfEven n d
  let below := n / d
  let other := if near = below then below + 1 else below
  if i.holds ⟨near, exponent⟩ then some ⟨near, exponent⟩
  else if i.holds ⟨other, exponent⟩ then some ⟨other, exponent⟩
  else none

/-- The first hit on a grid of at least `places` digits. -/
def firstGrid (i : Interval) (num den : Nat) (point : Int) : Nat → Nat → Decimal
  | 0, _ => ⟨0, 0⟩
  | fuel + 1, places =>
    match onGrid? i num den (point - places) with
    | some x => x
    | none => firstGrid i num den point fuel (places + 1)

/-- `x` with the zeros at the end of its digits moved into its exponent. -/
def Decimal.stripped (x : Decimal) : Decimal :=
  let digits := Nat.toDigits 10 x.digits
  let zeros := (digits.reverse.takeWhile (· == '0')).length
  if x.digits = 0 then x else ⟨x.digits / tenTo zeros, x.exponent + zeros⟩

/-- The shortest decimal that reads back as the magnitude of `x`. -/
def Binary64.shortest (x : Binary64) : Decimal :=
  if x.mantissa = 0 then ⟨0, 0⟩
  else
    let (num, den) := x.ratio
    (firstGrid x.interval num den (decimalPoint num den) 17 1).stripped

/-- A decimal with a point.  It is positional if the point stands between five places before the
first digit and sixteen after it, and otherwise has an exponent with a sign. -/
def Decimal.text (x : Decimal) : String :=
  let digits := Nat.toDigits 10 x.digits
  let point : Int := digits.length + x.exponent
  let chars : List Char :=
    if 0 ≤ x.exponent ∧ point ≤ 16 then
      digits ++ List.replicate x.exponent.toNat '0' ++ ['.', '0']
    else if 0 < point ∧ point ≤ 16 then
      digits.take point.toNat ++ '.' :: digits.drop point.toNat
    else if -5 < point ∧ point ≤ 0 then
      '0' :: '.' :: List.replicate (-point).toNat '0' ++ digits
    else
      let fraction := if digits.length = 1 then [] else '.' :: digits.drop 1
      let power := point - 1
      let sign := if power < 0 then '-' else '+'
      digits.take 1 ++ fraction ++ 'e' :: sign :: Nat.toDigits 10 power.natAbs
  String.ofList chars

/-- The shortest text of `x`. -/
def Binary64.text (x : Binary64) : String :=
  (if x.negative then "-" else "") ++ x.shortest.text

/-- `q` with the given number of places after the point. -/
def fixed (places : Nat) (q : Rat) : String :=
  let n := roundHalfEven (q.num.natAbs * tenTo places) q.den
  let fraction := Nat.toDigits 10 (n % tenTo places)
  let padding := List.replicate (places - fraction.length) '0'
  (if q.num < 0 then "-" else "") ++ toString (n / tenTo places) ++ "." ++
    String.ofList (padding ++ fraction)

end AskSql.Numeric
