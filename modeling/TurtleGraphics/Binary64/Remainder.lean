import TurtleGraphics.Binary64.Exact

namespace TurtleGraphics.Binary64

open Float.Model

/-!
# Remainders of doubles

The remainder of two doubles is itself a double, so it can be computed without any error: both are
written as whole numbers of the smaller of their two units, and the remainder of those is taken.

* `truncatedRemainder`: the remainder with the sign of the dividend.
* `euclideanRemainder`: the remainder moved into the nonnegative numbers. The move is one rounded
  addition, so a tiny negative remainder can come out as the divisor itself, and a remainder of
  negative zero stays negative zero.
-/

/-- What is left of `x` after taking away as many whole `y` as fit, counted toward zero. -/
def truncatedRemainder (x y : Float) : Float :=
  match exact x, exact y with
  | .finite sign m e _, .finite _ n f _ =>
    let unit := min e f
    nearest sign (atExponent m e unit % atExponent n f unit) unit
  | .finite .., .infinity _ => x
  | .zero _, .finite .. => x
  | .zero _, .infinity _ => x
  | _, _ => nan

/-- The remainder of `x` by `y` that is not negative. -/
def euclideanRemainder (x y : Float) : Float :=
  let r := truncatedRemainder x y
  if r < 0 then r + y.abs else r

end TurtleGraphics.Binary64
