import TurtleGraphics.Color
import TurtleGraphics.Scalar

namespace TurtleGraphics

open Scalar

/-!
# The turtle

A turtle is a place, a heading and a pen. The surface's `y` grows downwards; heading 0 points up and
headings grow clockwise, so heading 90 points to the right.

* `Segment`: a line as it was drawn, with the pen's color and width at that moment.
* `Turtle`: the state.
* `Trail`: a turtle together with the segments that it has drawn along the way. The motions are
  operations on trails, and all of them are built from `Trail.moveTo`.
-/

variable {α : Type}

/-- A place on a surface. -/
structure Point (α : Type) where
  x : α
  y : α
deriving DecidableEq, Repr

/-- Where the turtle is and, in degrees, where it looks. -/
structure Pose (α : Type) where
  x : α
  y : α
  heading : α
deriving DecidableEq, Repr

/-- The pen. Whether the turtle itself can be seen belongs to it too, and changes no line. -/
structure Pen (α : Type) where
  down : Bool
  color : Color
  width : α
  visible : Bool
deriving DecidableEq, Repr

/-- A straight line drawn with a pen. -/
structure Segment (α : Type) where
  x₁ : α
  y₁ : α
  x₂ : α
  y₂ : α
  color : Color
  width : α
deriving DecidableEq, Repr

/-- A turtle and the place that it calls home. -/
structure Turtle (α : Type) where
  pose : Pose α
  pen : Pen α
  home : Point α
deriving DecidableEq, Repr

/-- A turtle and what it has drawn on its way here. -/
structure Trail (α : Type) where
  turtle : Turtle α
  drawn : Array (Segment α)

variable [Scalar α]

/-- The width that a pen takes when asked for `width`: never less than one. -/
def penWidth (width : α) : α :=
  larger width (nat 1)

namespace Turtle

/-- A turtle at home, looking up, with its pen down. -/
def new (home : Point α) (color : Color) (width : α) : Turtle α where
  pose := ⟨home.x, home.y, nat 0⟩
  pen := ⟨true, color, penWidth width, true⟩
  home := home

/-- The turtle turned clockwise. -/
def right (t : Turtle α) (degrees : α) : Turtle α :=
  { t with pose := { t.pose with heading := wrapDegrees (t.pose.heading + degrees) } }

/-- The turtle turned counterclockwise. -/
def left (t : Turtle α) (degrees : α) : Turtle α :=
  { t with pose := { t.pose with heading := wrapDegrees (t.pose.heading - degrees) } }

/-- The turtle turned to a given heading. -/
def setHeading (t : Turtle α) (degrees : α) : Turtle α :=
  { t with pose := { t.pose with heading := wrapDegrees degrees } }

/-- The turtle put back home, looking up, without drawing. Its pen stays as it is. -/
def reset (t : Turtle α) : Turtle α :=
  { t with pose := ⟨t.home.x, t.home.y, nat 0⟩ }

/-- The line from the turtle to a place, in its pen. -/
def lineTo (t : Turtle α) (x y : α) : Segment α :=
  ⟨t.pose.x, t.pose.y, x, y, t.pen.color, t.pen.width⟩

/-- The trail of a turtle that has not moved yet. -/
def still (t : Turtle α) : Trail α :=
  ⟨t, #[]⟩

end Turtle

namespace Trail

/-- The trail with its turtle changed and nothing drawn. -/
def mapTurtle (w : Trail α) (f : Turtle α → Turtle α) : Trail α :=
  { w with turtle := f w.turtle }

/-- The way straight to a place: one segment if the pen is down, and none otherwise. -/
def moveTo (w : Trail α) (x y : α) : Trail α :=
  let t := w.turtle
  { turtle := { t with pose := { t.pose with x := x, y := y } }
    drawn := if t.pen.down then w.drawn.push (t.lineTo x y) else w.drawn }

/-- The way straight ahead. Headings run clockwise from up and angles counterclockwise from the
right, so the angle is the heading's complement; `y` grows downwards, so the sine is subtracted. -/
def forward (w : Trail α) (distance : α) : Trail α :=
  let pose := w.turtle.pose
  let angle := radians (nat 90 - pose.heading)
  w.moveTo (pose.x + distance * cos angle) (pose.y - distance * sin angle)

/-- The way straight home, where the turtle looks up. -/
def goHome (w : Trail α) : Trail α :=
  (w.moveTo w.turtle.home.x w.turtle.home.y).mapTurtle fun t =>
    { t with pose := { t.pose with heading := nat 0 } }

/-- One side of a polygon: a way ahead and a turn. -/
def side (length turn : α) (w : Trail α) : Trail α :=
  (w.forward length).mapTurtle (·.right turn)

/-- An arc to the right (to the left if `degrees` is negative) that begins along the heading. It is a
polygon with a side for every degree begun: the sides are equal, and so are the turns after them,
which add up to `degrees`. A radius that is not positive, or no degrees at all, make no arc. -/
def arc (w : Trail α) (degrees radius : α) : Trail α :=
  if le radius (nat 0) || eq degrees (nat 0) then w
  else
    let sides := ceil (abs degrees)
    let length := abs degrees * pi * radius / nat 180
    Nat.repeat (side (length / sides) (degrees / sides)) (count sides) w

end Trail

end TurtleGraphics
