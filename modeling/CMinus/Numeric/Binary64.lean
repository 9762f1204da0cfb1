/-!
# Binary64: double precision numbers as words

A float constant is kept as its 64-bit pattern. Nothing here computes with machine floats: a
finite value is a whole number of *units*, one unit being `2 ^ (-1074)`, the smallest positive
value of the format, and reading a ratio of natural numbers is exact arithmetic followed by one
rounding.

Why reading is one sum: a finite magnitude with stored pattern `p < 2 ^ 63` stands for
`m * 2 ^ s` units, where `p = s * 2 ^ 52 + m`. A significand that rounds up to `2 ^ 53` carries
into the exponent by itself, and past the largest finite value the pattern of infinity follows.
-/

namespace CMinus

/-- Powers are the built-in ones, also beside a library that brings powers of its own. -/
@[default_instance 20000]
instance (priority := high) builtinPow : Pow Nat Nat :=
  instPowNat

/-- A double precision number, as its bit pattern. Two of them are equal when the patterns are. -/
structure Binary64 where
  /-- Sign, exponent and fraction, from the top bit down. -/
  bits : UInt64
deriving DecidableEq, Inhabited

namespace Binary64

/-! ## 1. The fields of a word -/

/-- The sign bit: set for negative numbers and for negative zero. -/
def isNegative (x : Binary64) : Bool :=
  2 ^ 63 ≤ x.bits.toNat

/-- The pattern without its sign bit. Patterns of this kind are ordered as the values are. -/
def magnitude (x : Binary64) : Nat :=
  x.bits.toNat % 2 ^ 63

/-- The magnitude of infinity. Smaller patterns are finite, larger ones are not numbers. -/
def infinityMagnitude : Nat :=
  2047 * 2 ^ 52

/-- The number is neither infinite nor a NaN. -/
def isFinite (x : Binary64) : Bool :=
  x.magnitude < infinityMagnitude

/-- The pattern is no number. -/
def isNaN (x : Binary64) : Bool :=
  infinityMagnitude < x.magnitude

/-- Zero of either sign. -/
def isZero (x : Binary64) : Bool :=
  x.magnitude == 0

/-- The value with a clear sign bit whose magnitude is `p`. -/
def ofMagnitude (p : Nat) : Binary64 :=
  ⟨p.toUInt64⟩

/-- Comparison as numbers: a NaN equals nothing, and the two zeros are equal. -/
def sameNumber (x y : Binary64) : Bool :=
  !x.isNaN && !y.isNaN && (x.bits == y.bits || x.isZero && y.isZero)

/-! ## 2. The value of a word, in units -/

/-- How often the significand is doubled. -/
def scale (p : Nat) : Nat :=
  p / 2 ^ 52 - 1

/-- The significand, with its leading bit. -/
def significand (p : Nat) : Nat :=
  p - scale p * 2 ^ 52

/-- The finite magnitude `p` as a whole number of units. -/
def units (p : Nat) : Nat :=
  significand p * 2 ^ scale p

/-- How many units make one. -/
def unitsPerOne : Nat :=
  2 ^ 1074

/-! ## 3. Rounding a ratio of units to a word -/

/-- `n / d` to the nearest whole number, a half going to the even neighbour. -/
def roundHalfEven (n d : Nat) : Nat :=
  let q := n / d
  let r := n % d
  if 2 * r < d then q
  else if d < 2 * r then q + 1
  else q + q % 2

/-- The magnitude nearest to `n / d` units: the ratio is scaled so that at most 53 bits stand
    before the point, rounded, and put together; what lies too high is infinity. -/
def nearestMagnitude (n d : Nat) : Nat :=
  let s := (n / d).log2 - 52
  min (s * 2 ^ 52 + roundHalfEven n (d * 2 ^ s)) infinityMagnitude

/-- The number nearest to `n / d`, ties to even. -/
def ofRatio (n d : Nat) : Binary64 :=
  ofMagnitude (nearestMagnitude (n * unitsPerOne) d)

end Binary64

end CMinus
