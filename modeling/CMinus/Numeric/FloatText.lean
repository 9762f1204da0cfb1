import CMinus.Numeric.Decimal

/-!
# FloatText: the two ways a float is written

A float literal has digits on both sides of its point and no exponent, so that scanning reads it
back (`literal`). The token listing is for people: very large and very small values are given an
exponent (`listed`). Both write the same digits, those of `Decimal.ofBinary64`.
-/

namespace CMinus.Binary64

/-- The sign, the word for an infinity, or the digits as `layout` arranges them. A NaN has no
    sign. -/
def textWith (layout : Decimal → List Char) (x : Binary64) : List Char :=
  if x.isNaN then ['N', 'a', 'N']
  else
    let body := if x.isFinite then layout (.ofBinary64 x) else ['i', 'n', 'f']
    if x.isNegative then '-' :: body else body

/-- `.0` behind a text without a point. -/
def withFraction (text : List Char) : List Char :=
  if '.' ∈ text then text else text ++ ['.', '0']

/-- The source form of a float: all digits at their places and always a point. -/
def literal (x : Binary64) : List Char :=
  withFraction (x.textWith Decimal.positional)

/-- Below `10 ^ (-4)` and from `10 ^ 16` on the listing writes an exponent; zero is zero. -/
def needsExponent (d : Decimal) : Bool :=
  d.digits ≠ 0 && (d.leadingExponent < -4 || 16 ≤ d.leadingExponent)

/-- The form of a float in the token listing. -/
def listed (x : Binary64) : List Char :=
  x.textWith fun d => if needsExponent d then d.scientific else withFraction d.positional

end CMinus.Binary64
