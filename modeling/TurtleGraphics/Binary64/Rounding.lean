import TurtleGraphics.Binary64.Exact

namespace TurtleGraphics.Binary64

open Float.Model

/-!
# Rounding a double to a whole number

* `ceil`: the least whole number not below.
* `roundHalfAway`: the nearest whole number, a half going away from zero.

Both keep the sign of the argument, so that a result of zero can be negative, and both leave
infinities and NaN alone. A double with a nonnegative exponent is whole already.
-/

/-- The least whole number that is not below `x`. -/
def ceil (x : Float) : Float :=
  match exact x with
  | .finite sign m e _ =>
    if 0 ≤ e then x
    else
      let unit := Nat.pow 2 (-e).toNat
      match sign with
      | .positive => nearest .positive ((m + unit - 1) / unit) 0
      | .negative => nearest .negative (m / unit) 0
  | _ => x

/-- The whole number nearest to `x`; of two equally near, the one farther from zero. -/
def roundHalfAway (x : Float) : Float :=
  match exact x with
  | .finite sign m e _ =>
    if 0 ≤ e then x
    else
      let unit := Nat.pow 2 (-e).toNat
      nearest sign ((2 * m + unit) / (2 * unit)) 0
  | _ => x

end TurtleGraphics.Binary64
