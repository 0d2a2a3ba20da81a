/-!
# Tables of code points

A property of characters is given by a table of ranges of code points, and a map on characters by
a table of ranges that are shifted as a whole.  Tables are in increasing order.
-/

namespace Pseudocode

namespace Text

/-- The code point lies in one of the ranges; both ends of a range belong to it. -/
def inRanges : List (Nat × Nat) → Nat → Bool
  | [], _ => false
  | (lo, hi) :: rest, n => if n < lo then false else n ≤ hi || inRanges rest n

/-- The image of a code point.  An entry `(lo, hi, step, image)` sends `lo + k * step` to
`image + k * step` as far as `hi`; a code point in no entry stays as it is. -/
def mapRanges : List (Nat × Nat × Nat × Nat) → Nat → Nat
  | [], n => n
  | (lo, hi, step, image) :: rest, n =>
    if n < lo then n
    else if n ≤ hi then (if (n - lo) % step = 0 then image + (n - lo) else n)
    else mapRanges rest n

end Text

end Pseudocode
