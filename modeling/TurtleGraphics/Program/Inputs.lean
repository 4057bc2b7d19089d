import TurtleGraphics.Decimal.Read
import TurtleGraphics.Palette
import TurtleGraphics.Program.Basic
import TurtleGraphics.Text.Strip
import TurtleGraphics.Turtle.Action

namespace TurtleGraphics

open Text (Token)

/-!
# Giving commands their inputs

A command becomes an action when its inputs are read. An input that is missing or unusable does not
stop it: zero, or the palette's fallback color, takes its place, and a warning says so.

* `Command.number`, `Command.color`: one input, with the warnings that reading it gives rise to.
* `Command.action`: the action, with the warnings for its inputs in the order of the inputs.
-/

/-- A value that was read, with the warnings that it gave rise to. -/
structure Warned (β : Type) where
  value : β
  warnings : List Warning

namespace Command

/-- The input at place `i` as a number. -/
def number (c : Command) (i : Nat) : Warned Float :=
  match c.inputs[i]? with
  | none => ⟨0, [.missingInput c.primitive c.span]⟩
  | some t => match Decimal.finite? t.text with
    | some x => ⟨x, []⟩
    | none => ⟨0, [.malformedInput c.primitive t.text t.span]⟩

/-- A color's name without the double quotes around it. -/
def unquote (s : String) : String :=
  Text.strip (· == '"') s

/-- The first input as a color: a name that the palette knows, or else the written form of a color. -/
def color (c : Command) (palette : Palette) : Warned Color :=
  match c.inputs[0]? with
  | none => ⟨palette.fallback, [.missingInput c.primitive c.span]⟩
  | some t =>
    let name := unquote t.text
    match (palette.resolve name).or (Color.ofHex? name) with
    | some color => ⟨color, []⟩
    | none => ⟨palette.fallback, [.unknownColor name palette.fallback t.span]⟩

/-- The action that makes use of the first input. -/
def one (c : Command) (f : Float → Action Float) : Warned (Action Float) :=
  let x := c.number 0
  ⟨f x.value, x.warnings⟩

/-- The action that makes use of the first two inputs. -/
def two (c : Command) (f : Float → Float → Action Float) : Warned (Action Float) :=
  let x := c.number 0
  let y := c.number 1
  ⟨f x.value y.value, x.warnings ++ y.warnings⟩

/-- The action that a command stands for. -/
def action (c : Command) (palette : Palette) : Warned (Action Float) :=
  match c.primitive with
  | .forward => c.one .forward
  | .backward => c.one .back
  | .right => c.one .right
  | .left => c.one .left
  | .penUp => ⟨.penUp, []⟩
  | .penDown => ⟨.penDown, []⟩
  | .home => ⟨.home, []⟩
  | .clearScreen => ⟨.clearScreen, []⟩
  | .setPenColor =>
    let x := c.color palette
    ⟨.setPenColor x.value, x.warnings⟩
  | .setPenWidth => c.one .setPenWidth
  | .setHeading => c.one .setHeading
  | .setX => c.one .setX
  | .setY => c.one .setY
  | .setXY => c.two .setXY
  | .hideTurtle => ⟨.hideTurtle, []⟩
  | .showTurtle => ⟨.showTurtle, []⟩
  | .arc => c.two .arc
  | .xcor => ⟨.xcor, []⟩
  | .ycor => ⟨.ycor, []⟩
  | .heading => ⟨.heading, []⟩

end Command

end TurtleGraphics
