import TurtleGraphics.Text.Blank
import TurtleGraphics.Workspace

namespace TurtleGraphics

/-!
# Transcripts

A transcript keeps what was typed in a session and what came back.

* `Transcript.record`: takes down one input with its report. Blank inputs leave no trace. An input
  that cleared the screen clears the log before it is logged itself; the list of commands is never
  cleared.
* `Transcript.render`: the session report, a plain text with the turtle's state, some statistics, the
  numbered commands and the log.
-/

/-- What a line of the log is. -/
inductive EntryKind where
  | input
  | output
  | error
deriving DecidableEq, Repr

/-- The word for it in the session report. -/
def EntryKind.tag : EntryKind → String
  | .input => "INPUT"
  | .output => "OUTPUT"
  | .error => "ERROR"

/-- A line of the log. -/
structure Entry where
  kind : EntryKind
  line : String
deriving DecidableEq, Repr

/-- The entry as a line of the session report. -/
def Entry.text (e : Entry) : String :=
  "[" ++ e.kind.tag ++ "] " ++ e.line

/-- What a report has to say, in the order in which it is shown: warnings, answers, problems. -/
def Report.entries (r : Report) : List Entry :=
  r.warnings.toList.map (fun w => ⟨.output, "Warning: " ++ w.text⟩)
    ++ r.output.toList.map (fun line => ⟨.output, line⟩)
    ++ r.problems.toList.map (fun p => ⟨.error, "Error: " ++ p.text⟩)

/-- The inputs so far, and the log. -/
structure Transcript where
  commands : Array String
  log : Array Entry
deriving DecidableEq, Repr

namespace Transcript

/-- Nothing typed yet. -/
def empty : Transcript := ⟨#[], #[]⟩

/-- How many lines of the log are errors. -/
def errors (t : Transcript) : Nat :=
  t.log.countP (·.kind = .error)

/-- Takes down an input with its report. -/
def record (t : Transcript) (input : String) (r : Report) : Transcript :=
  let input := Text.trim input
  if input.isEmpty then t
  else
    let log := if r.cleared then #[] else t.log
    { commands := t.commands.push input
      log := log.push ⟨.input, "? " ++ input⟩ ++ r.entries }

/-! ## The session report -/

/-- The line between the parts. -/
def rule : String := "========================================"

/-- The coordinate as the session report shows it: to the nearest whole number. -/
def rounded (x : Float) : String :=
  Decimal.text (Binary64.roundHalfAway x)

/-- The commands, numbered from `n`. -/
def numbered (n : Nat) : List String → List String
  | [] => []
  | c :: cs => (Nat.repr n ++ ". " ++ c) :: numbered (n + 1) cs

/-- The lines of the session report. -/
def lines (t : Transcript) (pose : Pose Float) (pen : Pen Float) : List String :=
  ["LOGO Programming Session History",
    rule,
    "",
    "SESSION INFORMATION:",
    "- Turtle Position: (" ++ rounded pose.x ++ ", " ++ rounded pose.y ++ ")",
    "- Turtle Heading: " ++ rounded pose.heading ++ "°",
    "- Pen Status: " ++ (if pen.down then "DOWN" else "UP"),
    "- Pen Color: " ++ pen.color.text,
    "- Pen Width: " ++ Decimal.text pen.width ++ "px",
    "",
    "STATISTICS:",
    "- Total Commands Executed: " ++ Nat.repr t.commands.size,
    "- Errors Encountered: " ++ Nat.repr t.errors,
    "",
    "COMMAND HISTORY:",
    rule]
  ++ numbered 1 t.commands.toList
  ++ ["",
    "SESSION OUTPUT LOG:",
    rule]
  ++ t.log.toList.map Entry.text
  ++ ["",
    rule,
    "End of LOGO Programming Session History"]

/-- The session report, each line ended. -/
def render (t : Transcript) (pose : Pose Float) (pen : Pen Float) : String :=
  String.join ((t.lines pose pen).map (· ++ "\n"))

end Transcript

end TurtleGraphics
