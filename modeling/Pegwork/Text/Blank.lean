import Pegwork.Text.Ranges

/-!
# Blank characters

The code points with the `White_Space` property of Unicode 17. The vertical tab and the form feed
are among them, the zero width space is not.
-/

namespace Pegwork.Text

/-- The `White_Space` code points, in order. -/
def blankRanges : List CodeRange :=
  [
    (0x9, 0xD), (0x20, 0x20), (0x85, 0x85), (0xA0, 0xA0), (0x1680, 0x1680), (0x2000, 0x200A),
    (0x2028, 0x2029), (0x202F, 0x202F), (0x205F, 0x205F), (0x3000, 0x3000)]

/-- Whether `c` is white space. -/
def isBlank (c : Char) : Bool := inRanges blankRanges c

end Pegwork.Text
