import TurtleGraphics.Binary64.Exact

namespace TurtleGraphics.Decimal

open Float.Model

/-!
# Writing doubles in decimal

A finite double is written with the fewest significant digits that read back as the same double; of
several such numerals the one nearest to the double's exact value is taken, and of two equally near
the larger. The digits are written out in positional notation whatever the magnitude, without an
exponent, without a point when the number is whole, and with the sign of a negative zero.

* `Interval`: the numbers that round to a given positive double, as whole numbers of a common unit.
* `shortest`: the digits and their decimal exponent.
* `text`: the written form.

The numerals with decimal exponent `k` are the multiples of `10 ^ k`. If any of them lies in the
interval, then so does one of the two next to the exact value, so it is enough to try those two, for
falling `k`, until one fits.
-/

/-- A whole number times a power of ten. -/
structure Numeral where
  digits : Nat
  exponent : Int
deriving DecidableEq, Repr

/-- The numbers that round to one positive double: those from `low` to `high`, with `value` the
double itself, all as whole numbers of `2 ^ unit`; the ends belong to it if `closed`. -/
structure Interval where
  low : Nat
  value : Nat
  high : Nat
  unit : Int
  closed : Bool

/-- The numbers that round to `m * 2 ^ e`. A tie goes to the even neighbour, so the ends count when
`m` is even. Below a power of two the next double is only half as far away, unless the double is the
least of the normal ones or subnormal. -/
def Interval.around (m : Nat) (e : Int) : Interval where
  low := if m = Nat.pow 2 52 ∧ -1074 < e then 4 * m - 1 else 4 * m - 2
  value := 4 * m
  high := 4 * m + 2
  unit := e - 2
  closed := m % 2 = 0

/-- The interval with its unit replaced by a smaller one in which `10 ^ k` is a whole number too,
and that whole number. -/
def Interval.onGrid (i : Interval) (k : Int) : Interval × Nat :=
  let scale := Nat.pow 2 i.unit.toNat * Nat.pow 10 (-k).toNat
  ({ i with low := i.low * scale, value := i.value * scale, high := i.high * scale },
    Nat.pow 10 k.toNat * Nat.pow 2 (-i.unit).toNat)

/-- The number `n` rounds to the double. -/
def Interval.contains (i : Interval) (n : Nat) : Bool :=
  if i.closed then i.low ≤ n && n ≤ i.high else i.low < n && n < i.high

/-- The multiple of `10 ^ k` that rounds to the double and is nearest to it, if there is one. -/
def Interval.multiple? (i : Interval) (k : Int) : Option Nat :=
  let (j, step) := i.onGrid k
  let below := j.value / step
  let above := below + 1
  match j.contains (below * step), j.contains (above * step) with
  | true, true => if j.value - below * step < above * step - j.value then some below else some above
  | true, false => some below
  | false, true => some above
  | false, false => none

/-- The numeral with the greatest exponent among `k, k - 1, …`, trying at most `tries` of them. -/
def Interval.search (i : Interval) (k : Int) : (tries : Nat) → Numeral
  | 0 => ⟨0, 0⟩
  | tries + 1 => match i.multiple? k with
    | some n => ⟨n, k⟩
    | none => i.search (k - 1) tries

/-- A decimal exponent `k` with `m * 2 ^ e ≤ 10 ^ k`, and at most a few too large. `m * 2 ^ e` is
below `2 ^ b` for the number `b` of its binary digits, and a binary digit is worth between 0.30102
and 0.30103 decimal ones. -/
def exponentBound (m : Nat) (e : Int) : Int :=
  let b : Int := Nat.log2 m + 1 + e
  if 0 ≤ b then b * 30103 / 100000 + 1 else -(-b * 30102 / 100000)

/-- The shortest numeral that reads back as `m * 2 ^ e`. Seventeen digits are always enough, so the
search ends within twenty-one steps. -/
def shortest (m : Nat) (e : Int) : Numeral :=
  (Interval.around m e).search (exponentBound m e) 21

/-- A numeral in positional notation. -/
def Numeral.positional (n : Numeral) : List Char :=
  let ds := Nat.toDigits 10 n.digits
  if 0 ≤ n.exponent then ds ++ List.replicate n.exponent.toNat '0'
  else
    let places := (-n.exponent).toNat
    if places < ds.length then
      ds.take (ds.length - places) ++ '.' :: ds.drop (ds.length - places)
    else '0' :: '.' :: List.replicate (places - ds.length) '0' ++ ds

/-- A minus sign before the magnitude of a negative number. -/
def signed : UnpackedFloat.Sign → List Char → List Char
  | .positive, cs => cs
  | .negative, cs => '-' :: cs

/-- The characters of a double's written form. -/
def characters (x : Float) : List Char :=
  match Binary64.exact x with
  | .notANumber => ['N', 'a', 'N']
  | .infinity sign => signed sign ['i', 'n', 'f']
  | .zero sign => signed sign ['0']
  | .finite sign m e _ => signed sign (shortest m e).positional

/-- A double's written form. -/
def text (x : Float) : String :=
  String.ofList (characters x)

end TurtleGraphics.Decimal
