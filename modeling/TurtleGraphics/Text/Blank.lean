import TurtleGraphics.Text.Strip

namespace TurtleGraphics.Text

/-!
# Blanks

A blank is a character with Unicode's `White_Space` property. The property is fixed: it holds of 25
characters, among them the no-break spaces and the line and paragraph separators, but not of the
zero-width space or the byte order mark.

* `isBlank`: the property.
* `trim`: a text without the blanks at its two ends.
-/

/-- The character has the `White_Space` property. -/
def isBlank (c : Char) : Bool :=
  let n := c.toNat
  (0x0009 ≤ n && n ≤ 0x000D) || n == 0x0020 || n == 0x0085 || n == 0x00A0 || n == 0x1680
    || (0x2000 ≤ n && n ≤ 0x200A) || n == 0x2028 || n == 0x2029 || n == 0x202F || n == 0x205F
    || n == 0x3000

/-- The text without the blanks before its first and after its last other character. -/
def trim (s : String) : String :=
  strip isBlank s

end TurtleGraphics.Text
