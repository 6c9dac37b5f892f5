/-!
# Ranges of characters

A character class of the Unicode standard is a long sorted list of inclusive code point ranges.
This module holds the one operation the class tables need: membership of a character.
-/

namespace Pegwork.Text

/-- An inclusive range of code points. -/
abbrev CodeRange := Nat × Nat

/-- Whether `c` lies in one of the ranges. -/
def inRanges (ranges : List CodeRange) (c : Char) : Bool :=
  ranges.any fun r => r.1 ≤ c.toNat && c.toNat ≤ r.2

end Pegwork.Text
