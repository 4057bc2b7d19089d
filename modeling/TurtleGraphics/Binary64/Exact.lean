namespace TurtleGraphics.Binary64

open Float.Model

/-!
# Doubles as exact numbers

A finite double is a whole number times a power of two. What a double cannot do in one rounding
step, such as taking a remainder or finding its shortest decimal, is done here on that whole number
and its exponent, in exact arithmetic, and rounded once at the end.

* `exact`: the sign, whole number and exponent of a double; infinities, zeros and NaN stay apart.
* `nearest`: the double nearest to a given whole number times a power of two, a tie going to the
  even neighbour.
-/

/-- The exact value of a double. A finite one is `± m * 2 ^ e` with `m` of 53 binary digits, or of
fewer and `e = -1074`. -/
def exact (x : Float) : UnpackedFloat :=
  x.toModel.unpack

/-- The double nearest to `± m * 2 ^ e`; a value too large for any finite double is infinite, and
zero takes the sign given. -/
def nearest (sign : UnpackedFloat.Sign) (m : Nat) (e : Int) : Float :=
  .ofModel (Float.Model.pack (UnpackedFloat.round Format.binary64 sign m e))

/-- Positive infinity. -/
def infinity : Float := 1 / 0

/-- The double that is not a number. -/
def nan : Float := 0 / 0

/-- `m * 2 ^ e` as a whole number of `2 ^ f`, for `f ≤ e`. -/
def atExponent (m : Nat) (e f : Int) : Nat :=
  m <<< (e - f).toNat

end TurtleGraphics.Binary64
