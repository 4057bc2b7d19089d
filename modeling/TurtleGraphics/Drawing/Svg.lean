import TurtleGraphics.Decimal.Shortest
import TurtleGraphics.Turtle.Basic

namespace TurtleGraphics.Svg

/-!
# Drawings as SVG

A drawing becomes an `svg` element of the surface's size, which holds a white background and then one
`line` element for each segment, in the order in which the segments were drawn.

Each element stands on a line of its own, with its attributes in the alphabetical order of their
names. No value needs quoting: they are numbers, colors and fixed words, none of which holds a quote
or an angle bracket.
-/

/-- An attribute with a blank in front. -/
def assign (name value : String) : String :=
  " " ++ name ++ "=\"" ++ value ++ "\""

/-- A tag's name and attributes. -/
def tag (name : String) (attributes : List (String × String)) : String :=
  name ++ String.join (attributes.map fun a => assign a.1 a.2)

/-- An element without content. -/
def leaf (name : String) (attributes : List (String × String)) : String :=
  "<" ++ tag name attributes ++ "/>"

/-- The line for a segment. Its ends are round, so that consecutive segments join. -/
def line (s : Segment Float) : String :=
  leaf "line" [
    ("stroke", s.color.text),
    ("stroke-linecap", "round"),
    ("stroke-width", Decimal.text s.width),
    ("x1", Decimal.text s.x₁),
    ("x2", Decimal.text s.x₂),
    ("y1", Decimal.text s.y₁),
    ("y2", Decimal.text s.y₂)]

/-- The background. -/
def background (width height : Float) : String :=
  leaf "rect" [
    ("fill", Color.white.text),
    ("height", Decimal.text height),
    ("width", Decimal.text width)]

/-- What opens the drawing. -/
def opening (width height : Float) : String :=
  "<" ++ tag "svg" [
    ("height", Decimal.text height),
    ("viewBox", "0 0 " ++ Decimal.text width ++ " " ++ Decimal.text height),
    ("width", Decimal.text width),
    ("xmlns", "http://www.w3.org/2000/svg")] ++ ">"

/-- The lines of a drawing's text. -/
def lines (segments : List (Segment Float)) (width height : Float) : List String :=
  opening width height :: background width height :: segments.map line ++ ["</svg>"]

/-- The text of a drawing, whose last line is not ended. -/
def document (segments : List (Segment Float)) (width height : Float) : String :=
  "\n".intercalate (lines segments width height)

end TurtleGraphics.Svg
