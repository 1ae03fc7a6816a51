/-! # Sets of characters as ranges

A property of characters is given by ranges of code points, each by its first and its last. -/

namespace BraceScript

/-- Whether a character falls into one of the ranges. -/
def inRanges (ranges : List (Nat × Nat)) (c : Char) : Bool :=
  ranges.any fun (first, last) => first ≤ c.toNat && c.toNat ≤ last

end BraceScript
