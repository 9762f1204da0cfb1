import CMinus.Numeric.Binary64

/-!
# Decimal: numbers with a finite decimal expansion

A `Decimal` is `digits * 10 ^ exponent`. It is what a float literal says and what a float is
written as. `ofBinary64` picks the decimal to write: the fewest digits that read back as the same
word, the nearer of two candidates, the larger one of two equally near.

The search asks the reader itself (`toBinary64`) whether a candidate reads back. Where no
candidate of at most 17 digits did, the exact expansion would be taken, so that what is written
reads back whatever the search found.
-/

namespace CMinus

/-- The number `digits * 10 ^ exponent`. -/
structure Decimal where
  digits : Nat
  exponent : Int
deriving DecidableEq, Inhabited

namespace Decimal

/-! ## 1. Reading -/

/-- The word nearest to the decimal. -/
def toBinary64 (d : Decimal) : Binary64 :=
  .ofRatio (d.digits * 10 ^ d.exponent.toNat) (10 ^ (-d.exponent).toNat)

/-! ## 2. Candidates

A finite nonzero magnitude lies between `10 ^ (k - 1)` and `10 ^ k` for one `k`. The decimals of
`n` digits around it are the multiples of `10 ^ (k - n)`. -/

/-- The number of decimal digits of `n`. -/
def length (n : Nat) : Nat :=
  (Nat.toDigits 10 n).length

/-- The `k` with `10 ^ (k - 1) ≤ v < 10 ^ k`, for a value `v` of `u` units. Every positive value
    is above `10 ^ (-324)`, so that `v * 10 ^ 324` has the digits before its point that count. -/
def place (u : Nat) : Int :=
  length (u * 10 ^ 324 / Binary64.unitsPerOne) - 324

/-- `n * 10 ^ e` with up to `fuel` zeros at the end of `n` moved to the exponent. -/
def strip : (fuel : Nat) → (n : Nat) → (e : Int) → Decimal
  | 0, n, e => ⟨n, e⟩
  | fuel + 1, n, e => if n % 10 = 0 then strip fuel (n / 10) (e + 1) else ⟨n, e⟩

/-- The two neighbours of `u` units among the multiples of `10 ^ e`, the nearer one first, and the
    larger one first when both are equally near. -/
def neighbours (u : Nat) (e : Int) : List Decimal :=
  let n := u * 10 ^ (-e).toNat
  let d := Binary64.unitsPerOne * 10 ^ e.toNat
  let below := strip 17 (n / d) e
  let above := strip 17 (n / d + 1) e
  if 2 * (n % d) < d then [below, above] else [above, below]

/-- The candidates of one digit, then of two, up to 17, which are always enough. -/
def candidates (u : Nat) : List Decimal :=
  (List.range 17).flatMap fun n => neighbours u (place u - (n + 1 : Nat))

/-- All digits of `u` units: one unit is `5 ^ 1074` times `10 ^ (-1074)`. -/
def expansion (u : Nat) : Decimal :=
  ⟨u * 5 ^ 1074, -1074⟩

/-! ## 3. The decimal to write -/

/-- The shortest decimal that reads back as the finite magnitude `p`. -/
def ofMagnitude (p : Nat) : Decimal :=
  if p = 0 then ⟨0, 0⟩
  else
    let u := Binary64.units p
    ((candidates u).find? (·.toBinary64 = .ofMagnitude p)).getD (expansion u)

/-- The decimal a finite word is written as, sign aside. -/
def ofBinary64 (x : Binary64) : Decimal :=
  ofMagnitude x.magnitude

/-! ## 4. Digits -/

/-- The digits, without a sign or a point. -/
def figures (d : Decimal) : List Char :=
  Nat.toDigits 10 d.digits

/-- The exponent when the point follows the first digit. -/
def leadingExponent (d : Decimal) : Int :=
  d.exponent + (d.figures.length - 1 : Nat)

/-- Every digit at its place: a point only when a fraction follows, no exponent. -/
def positional (d : Decimal) : List Char :=
  let figures := d.figures
  let below := (-d.exponent).toNat
  if 0 ≤ d.exponent then figures ++ List.replicate d.exponent.toNat '0'
  else if below < figures.length then
    figures.take (figures.length - below) ++ '.' :: figures.drop (figures.length - below)
  else '0' :: '.' :: List.replicate (below - figures.length) '0' ++ figures

/-- One digit, the others after a point, and the exponent. -/
def scientific (d : Decimal) : List Char :=
  let exponent := 'e' :: (toString d.leadingExponent).toList
  match d.figures with
  | c :: [] => c :: exponent
  | c :: rest => c :: '.' :: rest ++ exponent
  | [] => exponent

end Decimal

end CMinus
