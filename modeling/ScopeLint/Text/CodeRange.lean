/-!
# Ranges of code points

A class of characters is written down as the list of its ranges, both ends included. The tables of this folder
hold the ranges beyond ASCII only, for Unicode 14.0; below 128 each class is said by a rule.
-/

namespace ScopeLint.Text

/-- Ranges of code points, both ends included. -/
abbrev CodeRanges := List (Nat × Nat)

/-- Some range holds the code point. -/
def CodeRanges.covers (ranges : CodeRanges) (code : Nat) : Bool :=
  ranges.any fun range => decide (range.1 ≤ code) && decide (code ≤ range.2)

/-- Some range holds the code point at an even distance from its first one. -/
def CodeRanges.coversAlternate (ranges : CodeRanges) (code : Nat) : Bool :=
  ranges.any fun range => decide (range.1 ≤ code) && decide (code ≤ range.2) && (code - range.1) % 2 == 0

theorem CodeRanges.covers_iff (ranges : CodeRanges) (code : Nat) :
    ranges.covers code = true ↔ ∃ range ∈ ranges, range.1 ≤ code ∧ code ≤ range.2 := by
  simp [covers]

end ScopeLint.Text
