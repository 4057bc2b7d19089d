namespace TurtleGraphics.Decimal

/-!
# Decimal digits

* `natOfDigits`: the value of a list of digits.
* `isDigits`, `digits?`: a text of one or more digits and nothing else, and its value.
* `unsigned?`: the same with an optional plus sign in front, which is how counts and indices are
  written.

Digits are the ten ASCII ones; no other script's digits, separators or blanks are taken.
-/

/-- The value of a digit. -/
def digitValue (d : Char) : Nat :=
  d.toNat - '0'.toNat

/-- The value of a list of digits, most significant first. -/
def natOfDigits (ds : List Char) : Nat :=
  ds.foldl (fun n d => 10 * n + digitValue d) 0

/-- The text consists of digits, of which there is at least one. -/
def isDigits (cs : List Char) : Bool :=
  !cs.isEmpty && cs.all Char.isDigit

/-- The value of a text that consists of digits. -/
def digits? (cs : List Char) : Option Nat :=
  if isDigits cs then some (natOfDigits cs) else none

/-- The value of a text that consists of digits after an optional plus sign. -/
def unsigned? (text : String) : Option Nat :=
  match text.toList with
  | '+' :: cs => digits? cs
  | cs => digits? cs

end TurtleGraphics.Decimal
