import TurtleGraphics.CommandLine.Job

open TurtleGraphics TurtleGraphics.CommandLine

/-!
# The command line program

Does what `CommandLine.execute` says, on the real files and with the input taken line by line, so
that the answers to a line are shown before the next one is asked for.
-/

namespace TurtleGraphics.CommandLine

/-- An error by its number, which some calls give with a minus sign, and its text. -/
def OsError.ofCode (code : UInt32) (text : String) : OsError :=
  let code := if code < 0x80000000 then code.toNat else (0 - code).toNat
  let known : List OsError := [.notFound, .notDirectory, .isDirectory, .noSpace, .nameTooLong]
  (known.find? (·.code == code)).getD ⟨text, code⟩

/-- An error of the operating system as it came. -/
def OsError.ofSystem : IO.Error → OsError
  | .noFileOrDirectory _ _ _ => .notFound
  | .noSuchThing _ code text => .ofCode code text
  | .inappropriateType _ code text => .ofCode code text
  | .permissionDenied _ code text => .ofCode code text
  | .alreadyExists _ code text => .ofCode code text
  | .resourceExhausted _ code text => .ofCode code text
  | .invalidArgument _ code text => .ofCode code text
  | .otherError code text => .ofCode code text
  | e => ⟨e.toString, 5⟩

/-- Does something that the operating system can refuse. -/
def attempt {β : Type} (action : IO β) : IO (Except OsError β) := do
  match ← action.toBaseIO with
  | .ok v => pure (.ok v)
  | .error e => pure (.error (.ofSystem e))

/-- Reads one line of bytes, its ending included; nothing at the end of the input. -/
partial def nextLine (input : IO.FS.Stream) (line : ByteArray) : IO (Option ByteArray) := do
  let byte ← input.read 1
  if byte.isEmpty then
    pure (if line.isEmpty then none else some line)
  else if byte[0]! = Text.lineFeed then pure (some (line ++ byte))
  else nextLine input (line ++ byte)

/-- Shows a text at once. -/
def display (text : String) : IO Unit := do
  let out ← IO.getStdout
  out.putStr text
  out.flush

/-- The end of a job that failed, or did not. -/
def exitWith : Option Failure → IO UInt32
  | none => pure 0
  | some f => do
    IO.eprint ("Error: " ++ f.message ++ "\n")
    pure 1

/-- Hands a text over to a file. -/
def handOver (file : IO.FS.Handle) (text : String) : IO Unit := do
  file.putStr text
  file.flush

/-- Writes a file. Of what is handed over last no error is reported. -/
def writeFile (o : Output) : IO (Except OsError Unit) := do
  let file ← attempt (IO.FS.Handle.mk ⟨o.path⟩ .write)
  match file with
  | .error e => pure (.error e)
  | .ok file =>
    let written ← attempt (o.buffer.blocks.forM (handOver file))
    let _ ← attempt (handOver file o.buffer.kept)
    pure written

/-- Writes some files in order, up to the first of which an error is reported. -/
def writeFiles : List Output → IO (Option Failure)
  | [] => pure none
  | o :: rest => do
    match ← writeFile o with
    | .ok _ => writeFiles rest
    | .error e => pure (some (.unwritableFile e))

/-- The end of a job: the files are written, and then it fails for the reason given, if any. -/
def finishJob (s : Settings) (x : Session) (failure : Option Failure) : IO UInt32 := do
  let unwritable ← writeFiles (x.outputs s)
  exitWith (unwritable.or failure)

/-- Takes in lines until the input ends or is not text. -/
partial def converse (input : IO.FS.Stream) (x : Session) : IO (Except Failure Session) := do
  display prompt
  match ← nextLine input .empty with
  | none =>
    display "\n"
    pure (.ok x)
  | some line =>
    match (Dialogue.mk x "").line line with
    | .error f => pure (.error f)
    | .ok d =>
      display d.output
      converse input d.session

/-- Does a job. -/
def perform (j : Job) : IO UInt32 := do
  match Session.start j.settings with
  | .error f => exitWith (some f)
  | .ok x =>
    match j.task with
    | .run path =>
      match programText path (← attempt (IO.FS.readBinFile ⟨path⟩)) with
      | .error f => exitWith (some f)
      | .ok text =>
        let (x, report) := x.enter text
        display (shown report)
        finishJob j.settings x (failure? report)
    | .repl =>
      match ← converse (← IO.getStdin) x with
      | .error f => exitWith (some f)
      | .ok x => finishJob j.settings x none

end TurtleGraphics.CommandLine

def main (args : List String) : IO UInt32 := do
  match Request.read args with
  | .error e =>
    IO.eprint ("error: " ++ e.text ++ "\n\nFor more information, try '--help'.\n")
    pure 2
  | .ok .help =>
    display helpText
    pure 0
  | .ok .version =>
    display versionText
    pure 0
  | .ok (.job j) => perform j
