namespace TurtleGraphics

/-!
# Primitives

The commands that the turtle knows from the start. Each has a name, perhaps some shorter aliases, and
a number of inputs that it takes.

* `Primitive.all`: all of them, in the order in which they are looked up.
* `Primitive.find?`: the primitive that a word in upper case names.

`REPEAT` is not among them: it is part of how programs are built, not something the turtle does.
-/

/-- A command that the turtle knows. -/
inductive Primitive where
  | forward | backward | right | left
  | penUp | penDown
  | home | clearScreen
  | setPenColor | setPenWidth
  | setHeading | setX | setY | setXY
  | hideTurtle | showTurtle
  | arc
  | xcor | ycor | heading
deriving DecidableEq, Repr

namespace Primitive

/-- Every primitive, once. -/
def all : List Primitive :=
  [.forward, .backward, .right, .left, .penUp, .penDown, .home, .clearScreen, .setPenColor,
    .setPenWidth, .setHeading, .setX, .setY, .setXY, .hideTurtle, .showTurtle, .arc, .xcor, .ycor,
    .heading]

/-- The full name. -/
def name : Primitive → String
  | .forward => "FORWARD"
  | .backward => "BACKWARD"
  | .right => "RIGHT"
  | .left => "LEFT"
  | .penUp => "PENUP"
  | .penDown => "PENDOWN"
  | .home => "HOME"
  | .clearScreen => "CLEARSCREEN"
  | .setPenColor => "SETPENCOLOR"
  | .setPenWidth => "SETPENWIDTH"
  | .setHeading => "SETHEADING"
  | .setX => "SETX"
  | .setY => "SETY"
  | .setXY => "SETXY"
  | .hideTurtle => "HIDETURTLE"
  | .showTurtle => "SHOWTURTLE"
  | .arc => "ARC"
  | .xcor => "XCOR"
  | .ycor => "YCOR"
  | .heading => "HEADING"

/-- The other names. -/
def aliases : Primitive → List String
  | .forward => ["FD"]
  | .backward => ["BK", "BACK"]
  | .right => ["RT"]
  | .left => ["LT"]
  | .penUp => ["PU"]
  | .penDown => ["PD"]
  | .clearScreen => ["CS"]
  | .setPenColor => ["SETPC"]
  | .setPenWidth => ["SETPW"]
  | .setHeading => ["SETH"]
  | .hideTurtle => ["HT"]
  | .showTurtle => ["ST"]
  | _ => []

/-- How many inputs the command takes. -/
def arity : Primitive → Nat
  | .setXY | .arc => 2
  | .forward | .backward | .right | .left | .setPenColor | .setPenWidth | .setHeading | .setX
  | .setY => 1
  | .penUp | .penDown | .home | .clearScreen | .hideTurtle | .showTurtle | .xcor | .ycor
  | .heading => 0

/-- The word is the primitive's name or one of its aliases. -/
def isNamed (p : Primitive) (word : String) : Bool :=
  p.name == word || p.aliases.contains word

/-- The primitive that a word names. -/
def find? (word : String) : Option Primitive :=
  all.find? (·.isNamed word)

end Primitive

end TurtleGraphics
