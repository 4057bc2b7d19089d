import TurtleGraphics.Decimal.Shortest
import TurtleGraphics.Program.Control
import TurtleGraphics.Program.Inputs
import TurtleGraphics.Program.Reading

namespace TurtleGraphics

/-!
# The workspace

A workspace holds what lasts from one input text to the next: the turtle, the path drawn since the
screen was last cleared, and the settings. Running a text in it (`Workspace.interpret`) gives the
workspace afterwards, a report about that text alone, and the calls made on the drawing surface in
the order in which they were made.

* `Canvas`, `SurfaceCall`: a surface keeps the lines drawn on it until it is cleared.
* `Execution`: the state while a text is carried out. A segment is recorded three times, on the path,
  in the report and on the surface, always together; clearing empties all three.
-/

/-- The settings of a workspace: the size of the surface, and the pen's width at the start. -/
structure Config where
  width : Float := 1200
  height : Float := 900
  penWidth : Float := 1

/-- Home is the middle of the surface. -/
def Config.home (c : Config) : Point Float :=
  ⟨c.width / 2, c.height / 2⟩

/-! ## Surfaces -/

/-- The lines on a surface, in the order in which they were drawn. -/
abbrev Canvas := Array (Segment Float)

/-- What a surface is asked to do. -/
inductive SurfaceCall where
  | drawLine (s : Segment Float)
  | clear
deriving DecidableEq

/-- The canvas after one more call. -/
def SurfaceCall.onto (canvas : Canvas) : SurfaceCall → Canvas
  | .drawLine s => canvas.push s
  | .clear => #[]

/-- The canvas after some more calls. -/
def Canvas.after (canvas : Canvas) (calls : Array SurfaceCall) : Canvas :=
  calls.foldl SurfaceCall.onto canvas

/-! ## Running a text -/

/-- What happened during one text. -/
structure Report where
  /-- What was drawn since the text last cleared the screen, or all that it drew. -/
  segments : Array (Segment Float)
  /-- Whether the text cleared the screen. -/
  cleared : Bool
  /-- Where the turtle is afterwards. -/
  pose : Pose Float
  /-- The pen afterwards. -/
  pen : Pen Float
  /-- The answers to questions. -/
  output : Array String
  problems : Array Problem
  warnings : Array Warning

/-- What lasts from one text to the next. -/
structure Workspace where
  config : Config
  palette : Palette
  turtle : Turtle Float
  path : Canvas

/-- What comes of running a text. -/
structure Outcome where
  workspace : Workspace
  report : Report
  calls : Array SurfaceCall

/-- The state while a text is carried out. -/
structure Execution where
  turtle : Turtle Float
  path : Canvas
  calls : Array SurfaceCall
  segments : Array (Segment Float)
  cleared : Bool
  output : Array String
  problems : Array Problem
  warnings : Array Warning

namespace Execution

/-- Nothing carried out yet. -/
def start (turtle : Turtle Float) (path : Canvas) : Execution :=
  ⟨turtle, path, #[], #[], false, #[], #[], #[]⟩

/-- One more answer. -/
def say (e : Execution) (line : String) : Execution :=
  { e with output := e.output.push line }

/-- One more problem. -/
def complain (e : Execution) (p : Problem) : Execution :=
  { e with problems := e.problems.push p }

/-- One more segment. -/
def draw (e : Execution) (s : Segment Float) : Execution :=
  { e with
    path := e.path.push s
    segments := e.segments.push s
    calls := e.calls.push (.drawLine s) }

/-- The screen is cleared: the turtle is put back home, and what was drawn is gone. -/
def clearScreen (e : Execution) : Execution :=
  { e with
    turtle := e.turtle.reset
    path := #[]
    segments := #[]
    cleared := true
    calls := e.calls.push .clear }

/-- Carries out an action. -/
def perform (e : Execution) (action : Action Float) : Execution :=
  match action with
  | .clearScreen => e.clearScreen
  | .xcor => e.say ("X coordinate: " ++ Decimal.text e.turtle.pose.x)
  | .ycor => e.say ("Y coordinate: " ++ Decimal.text e.turtle.pose.y)
  | .heading => e.say ("Heading: " ++ Decimal.text e.turtle.pose.heading ++ "°")
  | action =>
    let trail := e.turtle.act action
    trail.drawn.foldl draw { e with turtle := trail.turtle }

/-- Carries out a statement. -/
def act (palette : Palette) (e : Execution) : Statement → Execution
  | .command c =>
    let action := c.action palette
    perform { e with warnings := e.warnings ++ action.warnings } action.value
  | .unknown word span => e.complain (.unknownWord word span)
  | .stray value span => e.complain (.unusedValue value span)

/-- Carries out a program, and then complains about what stopped the reading of it. -/
def run (palette : Palette) (e : Execution) (program : Program) : Execution :=
  let e := (Control.start program.code).run program.code (act palette) e
  match program.fault with
  | some p => e.complain p
  | none => e

/-- The report about what was carried out. -/
def report (e : Execution) : Report :=
  ⟨e.segments, e.cleared, e.turtle.pose, e.turtle.pen, e.output, e.problems, e.warnings⟩

end Execution

namespace Workspace

/-- A new workspace: the turtle at home with a pen of the palette's fallback color. -/
def new (config : Config) (palette : Palette) : Workspace where
  config := config
  palette := palette
  turtle := Turtle.new config.home palette.fallback config.penWidth
  path := #[]

/-- The workspace with its turtle put back home and its path forgotten; the pen stays as it is. -/
def reset (w : Workspace) : Workspace :=
  { w with turtle := w.turtle.reset, path := #[] }

/-- Runs a text. -/
def interpret (w : Workspace) (text : String) : Outcome :=
  let e := (Execution.start w.turtle w.path).run w.palette (Program.read text)
  ⟨{ w with turtle := e.turtle, path := e.path }, e.report, e.calls⟩

end Workspace

end TurtleGraphics
