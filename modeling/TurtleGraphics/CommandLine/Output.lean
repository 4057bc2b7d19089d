import TurtleGraphics.CommandLine.FileSystem

namespace TurtleGraphics.CommandLine

/-!
# Writing a file

A text is handed over to its file as a whole, or by way of a buffer.

* `Buffer`: text on its way into a file. `Buffer.add` keeps a piece back until there is no room for
  more, and then hands over what was kept.
* `FileSystem.write`: a file is opened, and what was handed over goes into it. What is still kept back
  goes into it last, when the buffer is given up, and an error that comes of this is not reported.
-/

/-- Text on its way into a file: what was handed over, block by block, and what is kept back. -/
structure Buffer where
  blocks : Array String
  kept : String
deriving DecidableEq, Repr

namespace Buffer

/-- How many bytes are kept back at most. -/
def capacity : Nat := 8192

def empty : Buffer := ⟨#[], ""⟩

/-- Text that is handed over at once. -/
def whole (text : String) : Buffer := ⟨#[text], ""⟩

/-- What is kept back is handed over. -/
def flush (b : Buffer) : Buffer := ⟨b.blocks.push b.kept, ""⟩

/-- One more piece. What was kept is handed over if there is no room for both, and the piece itself if
it would fill the buffer. -/
def add (b : Buffer) (piece : String) : Buffer :=
  let b := if capacity < b.kept.utf8ByteSize + piece.utf8ByteSize then b.flush else b
  if capacity ≤ piece.utf8ByteSize then { b with blocks := b.blocks.push piece }
  else { b with kept := b.kept ++ piece }

/-- Some pieces one after the other. -/
def ofPieces (pieces : List String) : Buffer := pieces.foldl add empty

/-- What was handed over. -/
def handedOver (b : Buffer) : String := String.join b.blocks.toList

/-- The whole text. -/
def text (b : Buffer) : String := b.handedOver ++ b.kept

end Buffer

/-- A file that is asked for, with the text that goes into it. -/
structure Output where
  path : String
  buffer : Buffer
deriving DecidableEq, Repr

/-- The path and the content of a file that is asked for. -/
def Output.named (o : Output) : String × String := (o.path, o.buffer.text)

/-- The files after writing one, and the error that is reported. -/
def FileSystem.write (fs : FileSystem) (o : Output) : FileSystem × Option OsError :=
  match fs.create o.path with
  | .error e => (fs, some e)
  | .ok (target, fs) => match fs.appendAll target o.buffer.blocks.toList with
    | (fs, some e) => (fs, some e)
    | (fs, none) => ((fs.append target o.buffer.kept.toUTF8).1, none)

end TurtleGraphics.CommandLine
