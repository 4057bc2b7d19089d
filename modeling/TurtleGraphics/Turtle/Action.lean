import TurtleGraphics.Turtle.Basic

namespace TurtleGraphics

/-!
# Actions

An action is a primitive with its inputs known. Most of them are done by the turtle alone
(`Turtle.act`); clearing the screen and the three questions concern more than the turtle, and leave
it as it is here.
-/

variable {α : Type}

/-- A primitive with its inputs. -/
inductive Action (α : Type) where
  | forward (distance : α)
  | back (distance : α)
  | left (degrees : α)
  | right (degrees : α)
  | penUp
  | penDown
  | home
  | clearScreen
  | setPenColor (color : Color)
  | setPenWidth (width : α)
  | setHeading (degrees : α)
  | setX (x : α)
  | setY (y : α)
  | setXY (x y : α)
  | hideTurtle
  | showTurtle
  | arc (degrees radius : α)
  | xcor
  | ycor
  | heading
deriving DecidableEq, Repr

variable [Scalar α]

namespace Trail

/-- The trail with its turtle's pen changed. -/
def mapPen (w : Trail α) (f : Pen α → Pen α) : Trail α :=
  w.mapTurtle fun t => { t with pen := f t.pen }

/-- The trail after one more action. -/
def act (w : Trail α) : Action α → Trail α
  | .forward d => w.forward d
  | .back d => w.forward (-d)
  | .left a => w.mapTurtle (·.left a)
  | .right a => w.mapTurtle (·.right a)
  | .penUp => w.mapPen fun p => { p with down := false }
  | .penDown => w.mapPen fun p => { p with down := true }
  | .home => w.goHome
  | .setPenColor c => w.mapPen fun p => { p with color := c }
  | .setPenWidth a => w.mapPen fun p => { p with width := penWidth a }
  | .setHeading a => w.mapTurtle (·.setHeading a)
  | .setX x => w.moveTo x w.turtle.pose.y
  | .setY y => w.moveTo w.turtle.pose.x y
  | .setXY x y => w.moveTo x y
  | .hideTurtle => w.mapPen fun p => { p with visible := false }
  | .showTurtle => w.mapPen fun p => { p with visible := true }
  | .arc degrees radius => w.arc degrees radius
  | .clearScreen | .xcor | .ycor | .heading => w

end Trail

/-- What a turtle becomes and draws by an action. -/
def Turtle.act (t : Turtle α) (a : Action α) : Trail α :=
  t.still.act a

end TurtleGraphics
