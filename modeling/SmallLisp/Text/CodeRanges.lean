/-!
# Sets of characters given by ranges of code points

A character class of the Unicode standard is kept as a list of closed ranges in ascending order.
Main statement: `contains_iff`, a character is in the class when one of the ranges holds its code
point.
-/

namespace SmallLisp.Text

/-- Closed ranges of code points, lowest first. -/
abbrev CodeRanges := List (Nat × Nat)

namespace CodeRanges

/-- A character belongs to the class when its code point lies in one of the ranges. -/
def contains (ranges : CodeRanges) (c : Char) : Bool :=
  ranges.any fun range => range.1 ≤ c.toNat && c.toNat ≤ range.2

theorem contains_iff {ranges : CodeRanges} {c : Char} :
    ranges.contains c = true ↔ ∃ range ∈ ranges, range.1 ≤ c.toNat ∧ c.toNat ≤ range.2 := by
  simp [contains]

end CodeRanges

end SmallLisp.Text
