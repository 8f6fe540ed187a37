/-!
# Ranges of code points

A class of characters is given by a list of closed ranges of code points, in increasing order and
apart from each other. The classes of this folder are those of version 17 of the character standard.
-/

namespace IndexAlgebra.Text

/-- Whether a code point lies in one of the ranges. -/
def inRanges (ranges : List (Nat × Nat)) (n : Nat) : Bool :=
  ranges.any fun (first, last) => first ≤ n && n ≤ last

end IndexAlgebra.Text
