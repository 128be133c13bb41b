/-!
# Sets of characters as ranges

The character classes of this library are finite unions of ranges of code
points. A class is a list of ranges, both ends included.
-/

namespace UntypedLambda

/-- Ranges of code points, first and last one each. -/
abbrev CharRanges := List (Nat × Nat)

/-- Whether a character lies in one of the ranges. -/
def CharRanges.contains (ranges : CharRanges) (c : Char) : Bool :=
  ranges.any fun (first, last) => first ≤ c.toNat && c.toNat ≤ last

end UntypedLambda
