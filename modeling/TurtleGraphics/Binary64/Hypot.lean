namespace TurtleGraphics.Binary64

/-!
# The length of a vector

`hypot x y` is the square root of `x * x + y * y`, computed in doubles so that neither square can
overflow or vanish. The plain root is off by more than half a unit for many arguments; one
correction step against the smaller of its two residues removes nearly all of that error.
-/

/-- The root of `a * a + b * b` for `b ≤ a`, neither so large nor so small that a square is lost. -/
def correctedRoot (a b : Float) : Float :=
  let h := (a * a + b * b).sqrt
  if h ≤ 2 * b then
    let δ := h - b
    let t₁ := a * (2 * δ - a)
    let t₂ := (δ - 2 * (a - b)) * δ
    h - (t₁ + t₂) / (2 * h)
  else
    let δ := h - a
    let t₁ := 2 * δ * (a - 2 * b)
    let t₂ := (4 * δ - b) * b + δ * δ
    h - (t₁ + t₂) / (2 * h)

/-- `2 ^ -600`, which brings the squares of very large numbers back into range, and divides very
small ones out of the subnormals. -/
def hypotScale : Float := .ofBits 0x1A70000000000000

/-- `2 ^ 511`: above it a square can overflow. -/
def hypotLarge : Float := .ofBits 0x5FE0000000000000

/-- `2 ^ -459`: below it a square can lose digits. -/
def hypotTiny : Float := .ofBits 0x2340000000000000

/-- `2 ^ -54`: a vector whose shorter side is below this part of its longer side has the length of
its longer side. -/
def hypotNegligible : Float := .ofBits 0x3C90000000000000

/-- The length of the vector `(x, y)`. An infinite side makes it infinite even beside a NaN. -/
def hypot (x y : Float) : Float :=
  if x.isInf || y.isInf then 1 / 0
  else if x.isNaN || y.isNaN then 0 / 0
  else
    let a := if x.abs < y.abs then y.abs else x.abs
    let b := if x.abs < y.abs then x.abs else y.abs
    if hypotLarge < a then
      if b ≤ a * hypotNegligible then a + b
      else correctedRoot (a * hypotScale) (b * hypotScale) / hypotScale
    else if b < hypotTiny then
      if b / hypotNegligible ≤ a then a + b
      else correctedRoot (a / hypotScale) (b / hypotScale) * hypotScale
    else if b ≤ a * hypotNegligible then a + b
    else correctedRoot a b

end TurtleGraphics.Binary64
