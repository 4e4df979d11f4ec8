/-!
Sets of characters, given as rising lists of ranges of code points.
-/

namespace StructuredText.CodePoints

/-- Whether a code point lies in one of the ranges, both ends of which belong to them. The ranges
rise, so the search ends at the first that starts beyond the code point. -/
def covers : List (Nat × Nat) → Nat → Bool
  | [], _ => false
  | (low, high) :: ranges, n =>
    if n < low then false else n ≤ high || covers ranges n

end StructuredText.CodePoints
