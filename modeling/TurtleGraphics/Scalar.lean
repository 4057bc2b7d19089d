import TurtleGraphics.Binary64.Hypot
import TurtleGraphics.Binary64.Remainder
import TurtleGraphics.Binary64.Rounding

namespace TurtleGraphics

/-!
# Scalars

The numbers that positions, angles and widths are made of. The geometry of the turtle and of the
plotter is written over `Scalar`, so that the same definitions run on doubles and can be read over
exact numbers; nothing in it depends on how the arithmetic rounds.

Comparisons are Boolean and need not be total: a scalar that is not a number compares with nothing,
not even with itself.

* `larger`, `smaller`: the larger and the smaller of two scalars, passing over one that is not a
  number.
* `clamp`: the scalar moved into an interval.
* `wrapDegrees`: an angle brought into one turn.
* `Scalar Float`: the doubles.
-/

/-- Numbers with the operations that geometry needs. -/
class Scalar (α : Type) extends Add α, Sub α, Mul α, Div α, Neg α where
  /-- A whole number. -/
  nat : Nat → α
  /-- Less than. -/
  lt : α → α → Bool
  /-- At most. -/
  le : α → α → Bool
  /-- Equal as numbers. -/
  eq : α → α → Bool
  /-- The magnitude. -/
  abs : α → α
  /-- The least whole number that is not below. -/
  ceil : α → α
  /-- A whole number as a count: nothing if it is negative, and no more than 64 bits hold. -/
  count : α → Nat
  /-- The remainder that is not negative. -/
  emod : α → α → α
  /-- Half a turn in radians. -/
  pi : α
  /-- The sine of an angle in radians. -/
  sin : α → α
  /-- The cosine of an angle in radians. -/
  cos : α → α
  /-- The vector with the first two arguments as its sides is shorter than the third. -/
  shorter : α → α → α → Bool

namespace Scalar

variable {α : Type} [Scalar α]

/-- The larger of two scalars; the other one if either is not a number. Of two equal ones it is the
second, which tells only for zeros of different signs. -/
def larger (a b : α) : α :=
  if eq b b then (if lt b a then a else b) else a

/-- The smaller of two scalars; the other one if either is not a number. Of two equal ones it is the
second, which tells only for zeros of different signs. -/
def smaller (a b : α) : α :=
  if eq b b then (if lt a b then a else b) else a

/-- The scalar, or the end of the interval that it lies beyond. What is not a number stays so. -/
def clamp (low high x : α) : α :=
  let y := if lt x low then low else x
  if lt high y then high else y

/-- An angle in radians. -/
def radians (degrees : α) : α :=
  degrees * (pi / nat 180)

/-- The angle in degrees brought into `[0, 360)`. A remainder that came out as a whole turn, which a
rounded one can for a tiny negative angle, counts as no turn. -/
def wrapDegrees (degrees : α) : α :=
  let r := emod degrees (nat 360)
  if le (nat 360) r then nat 0 else r

end Scalar

instance : Scalar Float where
  nat := Float.ofNat
  lt := Float.lt
  le := Float.le
  eq := Float.beq
  abs := Float.abs
  ceil := Binary64.ceil
  count x := x.toUInt64.toNat
  emod := Binary64.euclideanRemainder
  pi := 3.141592653589793
  sin := Float.sin
  cos := Float.cos
  shorter x y d := Float.lt (Binary64.hypot x y) d

end TurtleGraphics
