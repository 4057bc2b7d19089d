import TurtleGraphics.Decimal.Read

namespace TurtleGraphics.CommandLine

/-!
# Command lines

A command line names one of two tasks and gives options, before the task or after it.

* An option is written `--name value` or `--name=value`. Without the equals sign a value cannot
  begin with a minus sign, unless it is nothing else. Before the task and after it an option can be
  given once each; what is given after the task counts.
* After a bare `--` nothing is an option.
* `--help` and `--version` end the reading as soon as they are met.

`Request.read` reads a command line; what it does not take is a `UsageError`.
-/

/-- What color names mean. -/
inductive PaletteKind where
  | named
  | indexed
deriving DecidableEq, Repr

/-- The options that a command line can give. -/
inductive Flag where
  | width | height | palette | svg | history | plot
deriving DecidableEq, Repr

/-- The option's name, without the dashes. -/
def Flag.name : Flag → String
  | .width => "width"
  | .height => "height"
  | .palette => "palette"
  | .svg => "svg"
  | .history => "history"
  | .plot => "plot"

/-- The option with a given name. -/
def Flag.find? (name : String) : Option Flag :=
  [Flag.width, .height, .palette, .svg, .history, .plot].find? (·.name == name)

/-- The options given on one side of the task. -/
structure Options where
  width : Option Float := none
  height : Option Float := none
  palette : Option PaletteKind := none
  svg : Option String := none
  history : Option String := none
  plot : Option String := none

/-- What is to be done. -/
inductive Task where
  /-- Run a whole file. -/
  | run (input : String)
  /-- Read commands line by line. -/
  | repl
deriving DecidableEq, Repr

/-- The options that a task is done under. -/
structure Settings where
  width : Float
  height : Float
  palette : PaletteKind
  svg : Option String
  history : Option String
  plot : Option String
deriving DecidableEq, Repr

/-- A task under some settings. -/
structure Job where
  settings : Settings
  task : Task
deriving DecidableEq, Repr

/-- What a command line asks for. -/
inductive Request where
  | help
  | version
  | job (j : Job)
deriving DecidableEq, Repr

/-- Why a command line is not taken. -/
inductive UsageError where
  | unknownArgument (text : String)
  | missingValue (flag : Flag)
  | badValue (flag : Flag) (text : String)
  | repeated (flag : Flag)
  | unexpectedValue (text : String)
  | missingTask
  | missingInput
deriving DecidableEq, Repr

/-- The wording of a usage error. -/
def UsageError.text : UsageError → String
  | .unknownArgument text => "unexpected argument '" ++ text ++ "'"
  | .missingValue flag => "a value is required for '--" ++ flag.name ++ "'"
  | .badValue flag text => "invalid value '" ++ text ++ "' for '--" ++ flag.name ++ "'"
  | .repeated flag => "the argument '--" ++ flag.name ++ "' cannot be used multiple times"
  | .unexpectedValue text => "unexpected value in '" ++ text ++ "'"
  | .missingTask => "a subcommand is required"
  | .missingInput => "an input file is required"

/-! ## Values -/

/-- A palette by its name. -/
def PaletteKind.read? (text : String) : Option PaletteKind :=
  if text = "named" then some .named else if text = "indexed" then some .indexed else none

/-- A file's path, which cannot be empty. -/
def path? (text : String) : Option String :=
  if text.isEmpty then none else some text

/-- Fills a place that has to be free with a value that has to be readable. -/
def fill {β : Type} (flag : Flag) (place : Option β) (read? : String → Option β) (text : String) :
    Except UsageError (Option β) :=
  match read? text with
  | none => .error (.badValue flag text)
  | some v => if place.isSome then .error (.repeated flag) else .ok (some v)

/-- The options with one more. -/
def Options.give (o : Options) (flag : Flag) (text : String) : Except UsageError Options :=
  match flag with
  | .width => (fill flag o.width Decimal.float? text).map fun v => { o with width := v }
  | .height => (fill flag o.height Decimal.float? text).map fun v => { o with height := v }
  | .palette => (fill flag o.palette PaletteKind.read? text).map fun v => { o with palette := v }
  | .svg => (fill flag o.svg path? text).map fun v => { o with svg := v }
  | .history => (fill flag o.history path? text).map fun v => { o with history := v }
  | .plot => (fill flag o.plot path? text).map fun v => { o with plot := v }

/-- The settings that the options before and after the task amount to. -/
def Settings.of (before after : Options) : Settings where
  width := (after.width.or before.width).getD 1200
  height := (after.height.or before.height).getD 900
  palette := (after.palette.or before.palette).getD .named
  svg := after.svg.or before.svg
  history := after.history.or before.history
  plot := after.plot.or before.plot

/-! ## Arguments -/

/-- An argument by its form. -/
inductive Argument where
  /-- Two dashes and nothing else. -/
  | escape
  /-- Two dashes and a name, perhaps with a value. -/
  | long (name : String) (value : Option String)
  /-- One dash and at least one letter, of which the first is given. -/
  | short (letter : Char)
  /-- Anything else, a single dash included. -/
  | word (text : String)

/-- The form of an argument. -/
def Argument.of (text : String) : Argument :=
  match text.toList with
  | ['-', '-'] => .escape
  | '-' :: '-' :: cs =>
    let name := String.ofList (cs.takeWhile (· != '='))
    match cs.dropWhile (· != '=') with
    | [] => .long name none
    | _ :: value => .long name (some (String.ofList value))
  | '-' :: c :: _ => .short c
  | _ => .word text

/-- The argument can be the value of the option before it. -/
def isValue (text : String) : Bool :=
  match Argument.of text with
  | .word _ => true
  | _ => false

/-- What is known after the task's name: the task, the options before it, those after it so far, its
input so far, and whether a bare `--` has come. -/
structure Afterwards where
  isRun : Bool
  before : Options
  after : Options := {}
  input : Option String := none
  escaped : Bool := false

namespace Afterwards

/-- The command line ends. -/
def finish (a : Afterwards) : Except UsageError Request :=
  let settings := Settings.of a.before a.after
  if a.isRun then
    match a.input with
    | some input => .ok (.job ⟨settings, .run input⟩)
    | none => .error .missingInput
  else .ok (.job ⟨settings, .repl⟩)

/-- An argument that is not an option: the input, which only one task takes, and once. -/
def take (a : Afterwards) (text : String) : Except UsageError Afterwards :=
  if a.isRun && a.input.isNone && !text.isEmpty then .ok { a with input := some text }
  else .error (.unknownArgument text)

/-- Reads the arguments after the task's name. -/
def read (a : Afterwards) : List String → Except UsageError Request
  | [] => a.finish
  | text :: rest =>
    if a.escaped then
      match a.take text with
      | .error e => .error e
      | .ok a => a.read rest
    else match Argument.of text with
      | .escape => { a with escaped := true : Afterwards }.read rest
      | .word _ => match a.take text with
        | .error e => .error e
        | .ok a => a.read rest
      | .short letter => if letter = 'h' then .ok .help else .error (.unknownArgument text)
      | .long name value => match Flag.find? name, value with
        | none, none => if name = "help" then .ok .help else .error (.unknownArgument text)
        | none, some _ => .error (.unknownArgument text)
        | some flag, some value => match a.after.give flag value with
          | .error e => .error e
          | .ok after => { a with after := after : Afterwards }.read rest
        | some flag, none => match rest with
          | [] => .error (.missingValue flag)
          | value :: rest =>
            if isValue value then
              match a.after.give flag value with
              | .error e => .error e
              | .ok after => { a with after := after : Afterwards }.read rest
            else .error (.missingValue flag)

end Afterwards

/-- Reads what follows the word `help`: nothing, or the name of a task, or that word again. -/
def readHelp : List String → Except UsageError Request
  | [] => .ok .help
  | topic :: rest =>
    if ["run", "repl", "help"].contains topic then
      match rest with
      | [] => .ok .help
      | extra :: _ => .error (.unknownArgument extra)
    else .error (.unknownArgument topic)

/-- Reads a command line, of which the options `before` have been met. -/
def readFrom (before : Options) : List String → Except UsageError Request
  | [] => .error .missingTask
  | text :: rest => match Argument.of text with
    | .escape => .error .missingTask
    | .word word =>
      if word = "run" then { isRun := true, before := before : Afterwards }.read rest
      else if word = "repl" then { isRun := false, before := before : Afterwards }.read rest
      else if word = "help" then readHelp rest
      else .error (.unknownArgument text)
    | .short letter =>
      if letter = 'h' then .ok .help
      else if letter = 'V' then .ok .version
      else .error (.unknownArgument text)
    | .long name value => match Flag.find? name, value with
      | none, none =>
        if name = "help" then .ok .help
        else if name = "version" then .ok .version
        else .error (.unknownArgument text)
      | none, some _ => .error (.unexpectedValue text)
      | some flag, some value => match before.give flag value with
        | .error e => .error e
        | .ok before => readFrom before rest
      | some flag, none => match rest with
        | [] => .error (.missingValue flag)
        | value :: rest =>
          if isValue value then
            match before.give flag value with
            | .error e => .error e
            | .ok before => readFrom before rest
          else .error (.missingValue flag)

/-- What a command line asks for. -/
def Request.read (args : List String) : Except UsageError Request :=
  readFrom {} args

/-- The answer to `--version`. -/
def versionText : String := "turtlelogo_host 0.1.0\n"

/-- The answer to `--help`. -/
def helpText : String :=
  "A turtle graphics LOGO interpreter\n\n"
    ++ "Usage: turtlelogo [OPTIONS] <COMMAND>\n\n"
    ++ "Commands:\n"
    ++ "  run <INPUT>  Run a whole file\n"
    ++ "  repl         Read commands from stdin, one line at a time\n"
    ++ "  help         Print this message\n\n"
    ++ "Options:\n"
    ++ "      --width <WIDTH>      Width of the drawing surface [default: 1200]\n"
    ++ "      --height <HEIGHT>    Height of the drawing surface [default: 900]\n"
    ++ "      --palette <PALETTE>  How to interpret the argument to SETPENCOLOR "
    ++ "[default: named] [possible values: named, indexed]\n"
    ++ "      --svg <SVG>          Write the drawing to this SVG file\n"
    ++ "      --history <HISTORY>  Write a session report to this file\n"
    ++ "      --plot <PLOT>        Write pen plotter commands to this file\n"
    ++ "  -h, --help               Print help\n"
    ++ "  -V, --version            Print version\n"

end TurtleGraphics.CommandLine
