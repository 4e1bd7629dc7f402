/-!
# Ranges of code points

A property of characters is given as a table: closed ranges of code points in
ascending order, with a gap between each two of them.
-/
namespace StructEdit.Text

/-- Whether a code point lies in a table. The ranges ascend, so that the search ends at the first
one that starts behind the code point. -/
def inRanges : List (Nat × Nat) → Nat → Bool
  | [], _ => false
  | (lo, hi) :: rs, n => if n < lo then false else decide (n ≤ hi) || inRanges rs n

end StructEdit.Text
