namespace TurtleGraphics

/-!
# Colors

* `Color`: red, green and blue, eight bits each.
* `Color.text`: the written form `#rrggbb`, in lower case.
* `Color.ofHex?`: reads `#rrggbb` and `#rgb`, in either case. A single digit stands for itself
  doubled, so that `#f80` is `#ff8800`.
-/

/-- A color by its three channels. -/
structure Color where
  red : UInt8
  green : UInt8
  blue : UInt8
deriving DecidableEq, Repr

namespace Color

def black : Color := ⟨0, 0, 0⟩

def white : Color := ⟨255, 255, 255⟩

/-- The digit for a number below sixteen. -/
def hexDigit (n : Nat) : Char :=
  if n < 10 then Char.ofNat ('0'.toNat + n) else Char.ofNat ('a'.toNat + (n - 10))

/-- The number that a digit of either case stands for. -/
def hexValue? (c : Char) : Option Nat :=
  if c.isDigit then some (c.toNat - '0'.toNat)
  else if 'a' ≤ c ∧ c ≤ 'f' then some (c.toNat - 'a'.toNat + 10)
  else if 'A' ≤ c ∧ c ≤ 'F' then some (c.toNat - 'A'.toNat + 10)
  else none

/-- A channel as two digits. -/
def channelText (v : UInt8) : List Char :=
  [hexDigit (v.toNat / 16), hexDigit (v.toNat % 16)]

/-- The written form of a color. -/
def text (c : Color) : String :=
  String.ofList ('#' :: (channelText c.red ++ channelText c.green ++ channelText c.blue))

/-- The channel with the two digits `high` and `low`. -/
def channel (high low : Nat) : UInt8 :=
  UInt8.ofNat (16 * high + low)

/-- The color that the digits after the number sign stand for: three digits, or six. -/
def ofDigits? : List Nat → Option Color
  | [r, g, b] => some ⟨channel r r, channel g g, channel b b⟩
  | [r₁, r₀, g₁, g₀, b₁, b₀] => some ⟨channel r₁ r₀, channel g₁ g₀, channel b₁ b₀⟩
  | _ => none

/-- The color that a text stands for. -/
def ofHex? (s : String) : Option Color :=
  match s.toList with
  | '#' :: cs => (cs.mapM hexValue?).bind ofDigits?
  | _ => none

end Color

end TurtleGraphics
