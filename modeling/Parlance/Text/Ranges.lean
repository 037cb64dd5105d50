/-!
# Sets of characters given by ranges

A property of characters is stored as a list of closed ranges of code points in
increasing order. Membership walks the list and stops at the first range that
begins beyond the code point.
-/

namespace Parlance.Text

/-- Closed ranges of code points, disjoint and in increasing order. -/
abbrev Ranges := List (Nat × Nat)

/-- Whether `code` lies in one of the ranges. -/
def Ranges.contains : Ranges → Nat → Bool
  | [], _ => false
  | (first, last) :: rest, code =>
    if code < first then false else if code ≤ last then true else Ranges.contains rest code

end Parlance.Text
