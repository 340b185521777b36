/-! # Ranges of code points

A character class is a sorted list of inclusive ranges of code points.
-/

namespace Monogram

/-- Whether `n` lies in one of `ranges`, which are sorted and do not overlap. -/
def inRanges : List (Nat × Nat) → Nat → Bool
  | [], _ => false
  | (low, high) :: rest, n => if n < low then false else n ≤ high || inRanges rest n

end Monogram
