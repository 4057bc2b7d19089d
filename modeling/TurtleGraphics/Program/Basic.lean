import TurtleGraphics.Diagnostic
import TurtleGraphics.Text.Token

namespace TurtleGraphics

open Text (Span Token)

/-!
# Programs

A program is a sequence of statements, some of which are loops around further statements. It is kept
in one list: a loop comes right before everything in its body, inner loops and their bodies
included, and says how many instructions that is. Nothing that goes through a program then has to
recurse into it, however deep its loops are nested.
-/

/-- A primitive with its inputs as written. -/
structure Command where
  primitive : Primitive
  inputs : List Token
  span : Span
deriving DecidableEq, Repr

/-- A statement that is not a loop. -/
inductive Statement where
  | command (c : Command)
  /-- A word that names no command; it is reported when its turn comes. -/
  | unknown (word : String) (span : Span)
  /-- A value in the place of a command; it is reported when its turn comes. -/
  | stray (value : String) (span : Span)
deriving DecidableEq, Repr

/-- An item of a program's list. -/
inductive Instr where
  | statement (s : Statement)
  /-- The next `len` instructions, `count` times. -/
  | loop (count len : Nat) (span : Span)
deriving DecidableEq, Repr

/-- What was read from a text: the instructions before the first syntax fault, and that fault. -/
structure Program where
  code : Array Instr
  fault : Option Problem
deriving DecidableEq, Repr

end TurtleGraphics
