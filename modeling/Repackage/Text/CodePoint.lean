/-!
# Classes of code points

A class of characters is given as the list of its ranges, in ascending order.
`inRanges` looks a character up; it stops at the first range that lies above,
so that the characters met most often are settled by the first few ranges.
-/

namespace Repackage.Text

/-- Closed ranges of code points, ascending and disjoint. -/
abbrev Ranges := List (Nat × Nat)

def inRanges (n : Nat) : Ranges → Bool
  | [] => false
  | (lo, hi) :: rest => if n < lo then false else if n ≤ hi then true else inRanges n rest

end Repackage.Text
