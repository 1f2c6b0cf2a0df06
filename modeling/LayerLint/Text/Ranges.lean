/-!
# Sorted ranges of code points

A property of characters is given by a table: closed ranges of code points, in increasing order.
-/

namespace LayerLint

/-- Membership in a table whose ranges increase; the search ends at the first range beyond `n`. -/
def inRanges : List (Nat × Nat) → Nat → Bool
  | [], _ => false
  | (low, high) :: rest, n => if n < low then false else if n ≤ high then true else inRanges rest n

end LayerLint
