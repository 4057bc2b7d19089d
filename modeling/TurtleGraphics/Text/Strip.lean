namespace TurtleGraphics.Text

/-!
# Stripping

Taking the characters of some class off the ends of a text.

* `stripEnd`: off the end only.
* `strip`: off both ends.
-/

/-- The characters without those of the class `p` at the end. -/
def stripEnd (p : Char → Bool) (cs : List Char) : List Char :=
  (cs.reverse.dropWhile p).reverse

/-- The text without the characters of the class `p` at its two ends. -/
def strip (p : Char → Bool) (s : String) : String :=
  String.ofList (stripEnd p (s.toList.dropWhile p))

end TurtleGraphics.Text
