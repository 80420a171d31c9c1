/-! Binary floating-point numbers of 64 bits, in exact arithmetic.  A finite number is a mantissa
below `2^53` times a power of two, with a sign of its own.  Every operation is the exact one on
natural numbers followed by rounding to the nearest number, a tie going to the even mantissa. -/

namespace AskSql.Numeric

/-- Two to the power of `n`. -/
def twoTo (n : Nat) : Nat :=
  Nat.pow 2 n

/-- Ten to the power of `n`. -/
def tenTo (n : Nat) : Nat :=
  Nat.pow 10 n

/-- The natural number nearest to `num / den`, a half going to the even neighbour. -/
def roundHalfEven (num den : Nat) : Nat :=
  let quotient := num / den
  let doubled := 2 * (num % den)
  if doubled < den ∨ (doubled = den ∧ quotient % 2 = 0) then quotient else quotient + 1

/-- A finite number: `mantissa * 2 ^ exponent`, negated if `negative`. -/
structure Binary64 where
  negative : Bool
  mantissa : Nat
  exponent : Int
deriving Repr, DecidableEq

namespace Binary64

/-- The least exponent of a number. -/
def minExponent : Int := -1074

/-- The greatest exponent of a finite number whose mantissa has its full width. -/
def maxExponent : Int := 971

/-- The numerator and denominator of `num / (den * 2 ^ exponent)`. -/
def scaled (num den : Nat) (exponent : Int) : Nat × Nat :=
  (num * twoTo (-exponent).toNat, den * twoTo exponent.toNat)

/-- The mantissa and exponent nearest to `num / den`, with no bound on the exponent from above. -/
def nearest (num den : Nat) : Nat × Int :=
  if num = 0 then (0, minExponent)
  else
    let guess : Int := (num.log2 : Int) - (den.log2 : Int) - 52
    let (n, d) := scaled num den guess
    let exponent := max minExponent (if n / d < twoTo 52 then guess - 1 else guess)
    let (n, d) := scaled num den exponent
    let mantissa := roundHalfEven n d
    if mantissa = twoTo 53 then (twoTo 52, exponent + 1) else (mantissa, exponent)

/-- The number nearest to `num / den`, or nothing if that is beyond the finite numbers. -/
def ofRatio? (negative : Bool) (num den : Nat) : Option Binary64 :=
  let (mantissa, exponent) := nearest num den
  if maxExponent < exponent then none else some ⟨negative, mantissa, exponent⟩

/-- The numerator and denominator of the magnitude of `x`. -/
def ratio (x : Binary64) : Nat × Nat :=
  (x.mantissa * twoTo x.exponent.toNat, twoTo (-x.exponent).toNat)

/-- The magnitude of `x` times `num / den`, rounded, with the sign of `x`. -/
def scale? (x : Binary64) (num den : Nat) : Option Binary64 :=
  let (n, d) := x.ratio
  ofRatio? x.negative (n * num) (d * den)

/-- The exact value of `x`. -/
def toRat (x : Binary64) : Rat :=
  let (n, d) := x.ratio
  let magnitude := mkRat n d
  if x.negative then -magnitude else magnitude

/-- The number nearest to `q`, which must lie in the finite range. -/
def ofRat (q : Rat) : Binary64 :=
  let (mantissa, exponent) := nearest q.num.natAbs q.den
  ⟨q.num < 0, mantissa, exponent⟩

/-- `q` rounded to the nearest number. -/
def round (q : Rat) : Rat :=
  (ofRat q).toRat

end Binary64

end AskSql.Numeric
