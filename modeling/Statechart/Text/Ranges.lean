/-!
# Ranges of characters

A large class of characters is given by the closed ranges of its code points, from least to
greatest.
-/

namespace Statechart.Text

/-- Whether a number lies in one of some closed ranges in increasing order. -/
def inRanges (n : Nat) : List (Nat × Nat) → Bool
  | [] => false
  | (low, high) :: rest => if n < low then false else n ≤ high || inRanges n rest

end Statechart.Text
