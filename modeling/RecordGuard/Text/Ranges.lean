/-!
# Ranges of code points

A set of characters is kept as the list of its ranges in increasing order.
-/

namespace RecordGuard.Text

/-- Whether a code point lies in one of the ranges, given by first and last code point. -/
def inRanges (ranges : List (Nat × Nat)) (code : Nat) : Bool :=
  ranges.any fun range => decide (range.1 ≤ code ∧ code ≤ range.2)

theorem inRanges_iff {ranges : List (Nat × Nat)} {code : Nat} :
    inRanges ranges code ↔ ∃ range ∈ ranges, range.1 ≤ code ∧ code ≤ range.2 := by
  simp [inRanges]

end RecordGuard.Text
