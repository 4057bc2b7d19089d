import TurtleGraphics.CommandLine.Output
import TurtleGraphics.CommandLine.Request
import TurtleGraphics.Drawing.Plotter
import TurtleGraphics.Drawing.Svg
import TurtleGraphics.Text.Lines
import TurtleGraphics.Transcript

namespace TurtleGraphics.CommandLine

/-!
# Doing a job

A job runs a program, from a file or line by line, and then writes the files asked for.

* `Session`: the workspace and the transcript, which is all that lasts from line to line.
* `Session.outputs`: the files asked for with what goes into them, in the order in which they are
  written: drawing, session report, plotter commands. Only the plotter commands go through a buffer.
* `Failure`: why a job fails. Problems in a program fail the job only when the program is a file, and
  only after the files are written; input that cannot be read fails it before any is.
* `Job.run`: the whole of a job, from the files and the input to the files and the output.
-/

/-- Why a job fails. -/
inductive Failure where
  /-- The surface's width or height is not positive. -/
  | emptySurface
  /-- The program's file could not be read. -/
  | unreadableProgram (path cause : String)
  /-- A line of the input is not text. -/
  | invalidInput
  /-- A file could not be written. -/
  | unwritableFile (cause : OsError)
  /-- The program has problems. -/
  | problems (count : Nat)
deriving DecidableEq, Repr

/-- The complaint about bytes that are not text. -/
def invalidText : String := "stream did not contain valid UTF-8"

/-- The wording of a failure. -/
def Failure.message : Failure → String
  | .emptySurface => "the drawing surface must have a positive size"
  | .unreadableProgram path cause => "Failed to open input file " ++ path ++ ": " ++ cause
  | .invalidInput => invalidText
  | .unwritableFile cause => cause.message
  | .problems count => Nat.repr count ++ " error(s) while running the program"

/-- The palette of a given kind. -/
def PaletteKind.palette : PaletteKind → Palette
  | .named => NamedPalette.standard.toPalette
  | .indexed => IndexedPalette.standard.toPalette

/-- What lasts from line to line. -/
structure Session where
  workspace : Workspace
  transcript : Transcript

/-- A report as it is shown: answers, warnings, problems, each on a line. -/
def shown (r : Report) : String :=
  String.join (r.output.toList.map (· ++ "\n"))
    ++ String.join (r.warnings.toList.map fun w => "Warning: " ++ w.text ++ "\n")
    ++ String.join (r.problems.toList.map fun p => "Error: " ++ p.text ++ "\n")

namespace Session

/-- A session on a surface of positive size. -/
def start (s : Settings) : Except Failure Session :=
  if Float.lt 0 s.width && Float.lt 0 s.height then
    .ok ⟨.new { width := s.width, height := s.height } s.palette.palette, .empty⟩
  else .error .emptySurface

/-- Runs a text and takes it down. -/
def enter (x : Session) (text : String) : Session × Report :=
  let o := x.workspace.interpret text
  (⟨o.workspace, x.transcript.record text o.report⟩, o.report)

/-- The drawing. -/
def drawing (x : Session) : String :=
  let w := x.workspace
  Svg.document w.path.toList w.config.width w.config.height

/-- The session report. -/
def report (x : Session) : String :=
  x.transcript.render x.workspace.turtle.pose x.workspace.turtle.pen

/-- What the plotter is told to do, with the whole surface in the area of the plotter at hand. -/
def plotterOps (x : Session) : List (PlotOp Float) :=
  let config := x.workspace.config
  let plotter := Plotter.fit Plotter.standard.area config.width config.height
  (plotter.ops config.home x.workspace.path.toList).toList

/-- The plotter commands. -/
def plotterCommands (x : Session) : String := plotText x.plotterOps

/-- The plotter commands on their way into a file, piece by piece. -/
def plotterBuffer (x : Session) : Buffer := .ofPieces (x.plotterOps.flatMap PlotOp.pieces)

/-- The files asked for, in order. -/
def outputs (x : Session) (s : Settings) : List Output :=
  (s.svg.map fun path => ⟨path, .whole x.drawing⟩).toList
    ++ (s.history.map fun path => ⟨path, .whole x.report⟩).toList
    ++ (s.plot.map fun path => ⟨path, x.plotterBuffer⟩).toList

/-- The files asked for, in order, with their contents. -/
def files (x : Session) (s : Settings) : List (String × String) :=
  (x.outputs s).map Output.named

end Session

/-! ## The program from a file -/

/-- The text of a program's file, once the file was read. -/
def programText (path : String) : Except OsError ByteArray → Except Failure String
  | .error e => .error (.unreadableProgram path e.message)
  | .ok bytes => match String.fromUTF8? bytes with
    | some text => .ok text
    | none => .error (.unreadableProgram path invalidText)

/-- The failure that a program's problems amount to. -/
def failure? (r : Report) : Option Failure :=
  if r.problems.isEmpty then none else some (.problems r.problems.size)

/-! ## The program line by line -/

/-- What is shown before each line. -/
def prompt : String := "? "

/-- A session under way, with what was shown so far. -/
structure Dialogue where
  session : Session
  output : String

/-- Takes in one line, for which the prompt has been shown. -/
def Dialogue.line (d : Dialogue) (line : ByteArray) : Except Failure Dialogue :=
  match Text.decodeLine? line with
  | none => .error .invalidInput
  | some text =>
    let (session, report) := d.session.enter text
    .ok ⟨session, d.output ++ shown report⟩

/-- Takes in all lines. A failure comes with what was shown before it. -/
def Dialogue.lines (d : Dialogue) : List ByteArray → Except (Failure × String) Dialogue
  | [] => .ok ⟨d.session, d.output ++ prompt ++ "\n"⟩
  | line :: rest =>
    let asked : Dialogue := ⟨d.session, d.output ++ prompt⟩
    match asked.line line with
    | .ok d => d.lines rest
    | .error failure => .error (failure, asked.output)

/-! ## The whole job -/

/-- How a job ends. -/
structure Result where
  exitCode : Nat
  stdout : String
  stderr : String
  files : FileSystem

/-- A job that failed, or did not. -/
def Result.of (files : FileSystem) (stdout : String) : Option Failure → Result
  | none => ⟨0, stdout, "", files⟩
  | some f => ⟨1, stdout, "Error: " ++ f.message ++ "\n", files⟩

/-- Writes some files in order, up to the first of which an error is reported. -/
def writeAll (fs : FileSystem) : List Output → FileSystem × Option Failure
  | [] => (fs, none)
  | o :: rest => match fs.write o with
    | (fs, none) => writeAll fs rest
    | (fs, some e) => (fs, some (.unwritableFile e))

/-- The end of a job: the files are written, and then it fails for the reason given, if any. -/
def conclude (fs : FileSystem) (s : Settings) (x : Session) (stdout : String)
    (failure : Option Failure) : Result :=
  let (fs, unwritable) := writeAll fs (x.outputs s)
  .of fs stdout (unwritable.or failure)

/-- A job on given files and input. -/
def Job.run (j : Job) (fs : FileSystem) (stdin : ByteArray) : Result :=
  match Session.start j.settings with
  | .error f => .of fs "" (some f)
  | .ok x => match j.task with
    | .run path => match programText path (fs.read path) with
      | .error f => .of fs "" (some f)
      | .ok text =>
        let (x, report) := x.enter text
        conclude fs j.settings x (shown report) (failure? report)
    | .repl => match (Dialogue.mk x "").lines (Text.byteLines stdin) with
      | .error (f, stdout) => .of fs stdout (some f)
      | .ok d => conclude fs j.settings d.session d.output none

/-- What a whole command line does: the usage error if it is not taken, and else how it ends. -/
def execute (args : List String) (fs : FileSystem) (stdin : ByteArray) :
    Except UsageError Result :=
  match Request.read args with
  | .error e => .error e
  | .ok .help => .ok (.of fs helpText none)
  | .ok .version => .ok (.of fs versionText none)
  | .ok (.job j) => .ok (j.run fs stdin)

end TurtleGraphics.CommandLine
