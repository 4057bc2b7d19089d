import TurtleGraphics.Color
import TurtleGraphics.Primitive
import TurtleGraphics.Text.Span

namespace TurtleGraphics

open Text (Span)

/-!
# Problems and warnings

What can be wrong with a program, by cause. Every diagnostic carries the place in the text that it is
about; its wording is given by one function for each kind.

* `Problem`: a part of the program that was not carried out. One of them stops the reading of the
  text (`malformed`), the others only skip a word or a value.
* `Warning`: a command that was carried out with an input other than the one written.

Nothing is fatal: a program with problems still does all the rest.
-/

/-- What breaks the rules by which programs are built. -/
inductive SyntaxFault where
  /-- `REPEAT` is not followed by a count. -/
  | missingCount
  /-- The text in the place of a count is not one. -/
  | badCount (text : String)
  /-- A count is not followed by a block. -/
  | missingBody
  /-- A block never ends. -/
  | unmatchedOpen
  /-- A block ends that never began. -/
  | unmatchedClose
  /-- A block stands where no `REPEAT` asks for it. -/
  | unexpectedOpen
deriving DecidableEq, Repr

/-- The wording of a fault. -/
def SyntaxFault.text : SyntaxFault → String
  | .missingCount => "REPEAT needs a count"
  | .badCount count => "REPEAT doesn't like " ++ count ++ " as a count"
  | .missingBody => "REPEAT needs a [ ... ] list to run"
  | .unmatchedOpen => "[ without a matching ]"
  | .unmatchedClose => "] without a matching ["
  | .unexpectedOpen => "[ only makes sense after REPEAT"

/-- A part of a program that was not carried out. -/
inductive Problem where
  /-- Nothing from here on could be read. -/
  | malformed (fault : SyntaxFault) (span : Span)
  /-- The word is not a command. -/
  | unknownWord (word : String) (span : Span)
  /-- A value stands where a command should. -/
  | unusedValue (value : String) (span : Span)
deriving DecidableEq, Repr

/-- The place that a problem is about. -/
def Problem.span : Problem → Span
  | .malformed _ span | .unknownWord _ span | .unusedValue _ span => span

/-- The wording of a problem. -/
def Problem.text : Problem → String
  | .malformed fault span => "syntax error at " ++ span.text ++ ": " ++ fault.text
  | .unknownWord word _ => "I don't know how to " ++ word
  | .unusedValue value _ => "You don't say what to do with " ++ value

/-- An input of a command that was replaced. -/
inductive Warning where
  /-- The input is not a finite number; zero was used. -/
  | malformedInput (command : Primitive) (input : String) (span : Span)
  /-- There is no such input; zero, or the palette's fallback, was used. -/
  | missingInput (command : Primitive) (span : Span)
  /-- The name stands for no color; the palette's fallback was used. -/
  | unknownColor (name : String) (fallback : Color) (span : Span)
deriving DecidableEq, Repr

/-- The place that a warning is about. -/
def Warning.span : Warning → Span
  | .malformedInput _ _ span | .missingInput _ span | .unknownColor _ _ span => span

/-- The wording of a warning. -/
def Warning.text : Warning → String
  | .malformedInput command input _ =>
    command.name ++ " doesn't like " ++ input ++ " as input, using 0"
  | .missingInput command _ => "not enough inputs to " ++ command.name
  | .unknownColor name fallback _ => "unknown color " ++ name ++ ", using " ++ fallback.text

end TurtleGraphics
