/-!
# Ranges: sets of characters as lists of code point ranges
-/

namespace CMinus

/-- A set of characters, as pairs of a first and a last code point. -/
abbrev Ranges := List (Nat × Nat)

/-- The character lies in one of the ranges. -/
def Ranges.has (rs : Ranges) (c : Char) : Bool :=
  rs.any fun (first, last) => first ≤ c.toNat && c.toNat ≤ last

end CMinus
