/-!
# Code point ranges

Unicode properties are given as lists of inclusive code point ranges in ascending order.
-/

namespace TypedReply.Text

abbrev CodeRange := Nat × Nat

/-- Whether a code point lies in one of the ranges. -/
def inRanges (ranges : List CodeRange) (code : Nat) : Bool :=
  ranges.any fun (low, high) => low ≤ code && code ≤ high

end TypedReply.Text
