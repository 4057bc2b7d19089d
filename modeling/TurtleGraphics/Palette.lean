import TurtleGraphics.Color
import TurtleGraphics.Decimal.Digits
import TurtleGraphics.Text.Upper

namespace TurtleGraphics

/-!
# Palettes

A program names its colors, and a palette says what the names mean. Two kinds are provided.

* `NamedPalette`: names in any case, with fourteen colors to begin with.
* `IndexedPalette`: sixteen colors by number.

A `Palette` is what the two have in common: a partial map from names, and the color that a fresh pen
has and that stands in for names without a meaning.
-/

/-- The meaning of color names. -/
structure Palette where
  /-- The color that a name, free of quotes, stands for. -/
  resolve : String → Option Color
  /-- The color to use without a name, or for a name that stands for none. -/
  fallback : Color

/-! ## Colors by name -/

/-- Colors by upper-case name. The first entry for a name counts. -/
structure NamedPalette where
  entries : List (String × Color)

namespace NamedPalette

/-- No names at all. -/
def empty : NamedPalette := ⟨[]⟩

/-- The common color names. -/
def standard : NamedPalette where
  entries := [
    ("BLACK", ⟨0x00, 0x00, 0x00⟩), ("WHITE", ⟨0xff, 0xff, 0xff⟩), ("RED", ⟨0xff, 0x00, 0x00⟩),
    ("GREEN", ⟨0x00, 0xff, 0x00⟩), ("BLUE", ⟨0x00, 0x00, 0xff⟩), ("YELLOW", ⟨0xff, 0xff, 0x00⟩),
    ("CYAN", ⟨0x00, 0xff, 0xff⟩), ("MAGENTA", ⟨0xff, 0x00, 0xff⟩), ("ORANGE", ⟨0xff, 0xa5, 0x00⟩),
    ("PURPLE", ⟨0x80, 0x00, 0x80⟩), ("BROWN", ⟨0xa5, 0x2a, 0x2a⟩), ("PINK", ⟨0xff, 0xc0, 0xcb⟩),
    ("GRAY", ⟨0x80, 0x80, 0x80⟩), ("GREY", ⟨0x80, 0x80, 0x80⟩)]

/-- The palette with one more name, or a new color for a name that it has. -/
def insert (p : NamedPalette) (name : String) (color : Color) : NamedPalette :=
  ⟨(Text.upper name, color) :: p.entries⟩

/-- The color of a name in any case. -/
def resolve (p : NamedPalette) (name : String) : Option Color :=
  p.entries.lookup (Text.upper name)

/-- Its fallback is black, whatever its entries. -/
def toPalette (p : NamedPalette) : Palette where
  resolve := p.resolve
  fallback := .black

end NamedPalette

/-! ## Colors by number -/

/-- Sixteen colors, numbered from zero. -/
structure IndexedPalette where
  colors : Vector Color 16

namespace IndexedPalette

/-- The classic layout: the eight pure colors by their blue, green and red bits, and eight shades. -/
def standard : IndexedPalette where
  colors := #v[
    ⟨0, 0, 0⟩, ⟨0, 0, 255⟩, ⟨0, 255, 0⟩, ⟨0, 255, 255⟩,
    ⟨255, 0, 0⟩, ⟨255, 0, 255⟩, ⟨255, 255, 0⟩, ⟨255, 255, 255⟩,
    ⟨155, 96, 59⟩, ⟨197, 136, 18⟩, ⟨100, 162, 64⟩, ⟨120, 187, 187⟩,
    ⟨255, 149, 119⟩, ⟨144, 113, 208⟩, ⟨255, 163, 0⟩, ⟨183, 183, 183⟩]

/-- The palette with a new color for a number; a number beyond the last changes nothing. -/
def insert (p : IndexedPalette) (index : Nat) (color : Color) : IndexedPalette :=
  ⟨p.colors.setIfInBounds index color⟩

/-- The color of a number written in decimal. -/
def resolve (p : IndexedPalette) (name : String) : Option Color :=
  (Decimal.unsigned? name).bind fun i => p.colors[i]?

/-- Its fallback is its first color. -/
def toPalette (p : IndexedPalette) : Palette where
  resolve := p.resolve
  fallback := p.colors[0]

end IndexedPalette

end TurtleGraphics
