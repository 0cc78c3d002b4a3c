/-!
# Character classes as ranges

A class of characters is a list of closed ranges of code points.
-/

namespace CanonicalLR.Text

/-- Whether a code point lies in one of the closed ranges. -/
def inRanges (ranges : List (Nat × Nat)) (n : Nat) : Bool :=
  ranges.any fun range => range.1 ≤ n && n ≤ range.2

end CanonicalLR.Text
