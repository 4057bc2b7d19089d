import TurtleGraphics.Binary64.Exact
import TurtleGraphics.Decimal.Digits

namespace TurtleGraphics.Decimal

/-!
# Reading decimal numbers

The written form of a number is an optional sign and then either a word or a magnitude.

* The words are `inf`, `infinity` and `nan`, in any case.
* A magnitude has digits before a point, after it, or on both sides (`1`, `1.`, `.5`, `1.5`), and may
  end in an exponent: `e` or `E`, an optional sign, and digits.

Nothing may stand before, between or after these parts. The value is the double nearest to the
number written, a tie going to the even neighbour, and is infinite when that is too large.
-/

/-- From here on an exponent grows no further. -/
def exponentLimit : Nat := Nat.pow 2 16

/-- The value of an exponent's digits, most significant first. Digits after the limit is reached
count for nothing: the number is far out of range by then, unless its magnitude has hundreds of
thousands of digits. -/
def exponentOfDigits (ds : List Char) : Nat :=
  ds.foldl (fun n d => if n < exponentLimit then 10 * n + digitValue d else n) 0

/-- The value of a text of one or more digits as an exponent. -/
def exponentDigits? (ds : List Char) : Option Nat :=
  if isDigits ds then some (exponentOfDigits ds) else none

/-- The exponent part of a magnitude, which may be absent. -/
def exponent? : List Char → Option Int
  | [] => some 0
  | e :: cs =>
    if e == 'e' || e == 'E' then
      match cs with
      | '-' :: ds => (exponentDigits? ds).map fun n => -(n : Int)
      | '+' :: ds => (exponentDigits? ds).map Int.ofNat
      | ds => (exponentDigits? ds).map Int.ofNat
    else none

/-- The double nearest to `m * 10 ^ e`. -/
def scaled (m : Nat) (e : Int) : Float :=
  Float.ofScientific m (e < 0) e.natAbs

/-- The digits after the point of a text that follows a magnitude's first digits, and what is left
after them. -/
def fraction : List Char → List Char × List Char
  | '.' :: cs => (cs.takeWhile Char.isDigit, cs.dropWhile Char.isDigit)
  | cs => ([], cs)

/-- The value of a magnitude. -/
def magnitude? (cs : List Char) : Option Float :=
  let whole := cs.takeWhile Char.isDigit
  let (part, rest) := fraction (cs.dropWhile Char.isDigit)
  if whole.isEmpty && part.isEmpty then none
  else (exponent? rest).map fun e => scaled (natOfDigits (whole ++ part)) (e - part.length)

/-- The value of a number without its sign. -/
def unsignedFloat? (cs : List Char) : Option Float :=
  match String.ofList (cs.map Char.toLower) with
  | "inf" => some Binary64.infinity
  | "infinity" => some Binary64.infinity
  | "nan" => some Binary64.nan
  | _ => magnitude? cs

/-- The value of a number as written. -/
def float? (text : String) : Option Float :=
  match text.toList with
  | '-' :: cs => (unsignedFloat? cs).map Float.neg
  | '+' :: cs => unsignedFloat? cs
  | cs => unsignedFloat? cs

/-- The value of a number as written, if it is finite. -/
def finite? (text : String) : Option Float :=
  (float? text).filter Float.isFinite

end TurtleGraphics.Decimal
