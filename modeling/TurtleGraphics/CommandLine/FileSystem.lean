namespace TurtleGraphics.CommandLine

/-!
# Files

The files of a machine as the program sees them. A directory is there if a file lies in it, or if the
surroundings say so. No name stands for another: there are no links.

* `Surroundings`: what the program finds and does not change, such as the directory that it runs in,
  the files that may not be opened, and those that cannot take in everything.
* `FileSystem.locate`: what a path leads to. Its names are followed one after the other, and the first
  that leads nowhere decides about the error.
* `FileSystem.read`: the whole of a file.
* `FileSystem.create`, `FileSystem.append`: an empty file, new or in place of an old one, and more at
  the end of a file. No directory is ever made. A file that runs full keeps what it had room for.
-/

/-- An error of the operating system, by its text and its number. -/
structure OsError where
  text : String
  code : Nat
deriving DecidableEq, Repr

namespace OsError

def notFound : OsError := ⟨"No such file or directory", 2⟩

def notDirectory : OsError := ⟨"Not a directory", 20⟩

def isDirectory : OsError := ⟨"Is a directory", 21⟩

def noSpace : OsError := ⟨"No space left on device", 28⟩

def nameTooLong : OsError := ⟨"File name too long", 36⟩

/-- The wording of an error. -/
def message (e : OsError) : String :=
  e.text ++ " (os error " ++ Nat.repr e.code ++ ")"

end OsError

/-! ## What is found and not changed -/

/-- How many bytes a file can hold, and the error when there are more. -/
structure Limit where
  size : Nat
  error : OsError
deriving DecidableEq, Repr

/-- What the program finds and does not change. Paths are given by their names from the topmost
directory on. -/
class Surroundings where
  /-- The working directory. -/
  here : List String
  /-- Directories that are there even if no file lies in them. -/
  directories : List (List String)
  /-- The error with which a file is not opened for reading. -/
  unreadable : List String → Option OsError
  /-- The error with which a file is neither opened nor made for writing. -/
  unwritable : List String → Option OsError
  /-- The limit of a file, if it has one. -/
  limit : List String → Option Limit

namespace Surroundings

/-- Every file may be opened and has room for everything, but for a device that is always full. -/
instance usual : Surroundings where
  here := ["home", "turtle"]
  directories := [["dev"]]
  unreadable _ := none
  unwritable _ := none
  limit path := if path = ["dev", "full"] then some ⟨0, .noSpace⟩ else none

/-- What a file takes of a content that it is to have, and the error if that is not all. -/
def take (s : Surroundings) (path : List String) (content : ByteArray) :
    ByteArray × Option OsError :=
  match s.limit path with
  | none => (content, none)
  | some limit =>
    if limit.size < content.size then (content.extract 0 limit.size, some limit.error)
    else (content, none)

end Surroundings

/-- Files under paths of names, which begin in the topmost directory if the first name is empty, and
else in the working directory. The first one under a path counts. The surroundings are the usual ones
if no others are given. -/
structure FileSystem where
  [surroundings : Surroundings]
  files : List (List String × ByteArray)

/-- The name is longer than a name can be, which is 255 bytes. -/
def isLongName (name : String) : Bool :=
  255 < name.utf8ByteSize

/-- The path is longer than a path can be, which is 4095 bytes. -/
def isLongPath (path : String) : Bool :=
  4095 < path.utf8ByteSize

/-- The names in what is left of a path, of which the one under way has the characters `current`, last
character first. -/
def namesFrom (current : List Char) : List Char → List String
  | [] => [String.ofList current.reverse]
  | c :: cs =>
    if c = '/' then String.ofList current.reverse :: namesFrom [] cs
    else namesFrom (c :: current) cs

/-- The names in a path, with slashes between them. Names can be empty. -/
def names (path : String) : List String :=
  namesFrom [] path.toList

/-- What a path leads to, with the path from the topmost directory. -/
inductive Place where
  | file (path : List String) (content : ByteArray)
  | directory
  /-- Nothing yet, in a directory that is there. -/
  | free (path : List String)

/-- The path of a place for a file. -/
def Place.target? : Place → Option (List String)
  | .file path _ => some path
  | .directory => none
  | .free path => some path

namespace FileSystem

/-- The path from the topmost directory. -/
def absolute (fs : FileSystem) : List String → List String
  | "" :: names => names
  | names => fs.surroundings.here ++ names

/-- The files under their paths from the topmost directory. -/
def entries (fs : FileSystem) : List (List String × ByteArray) :=
  fs.files.map fun f => (fs.absolute f.1, f.2)

/-- The file under a path. -/
def file? (fs : FileSystem) (path : List String) : Option ByteArray :=
  fs.entries.lookup path

/-- There is a directory under the path. -/
def hasDirectory (fs : FileSystem) (path : List String) : Bool :=
  (fs.surroundings.here :: fs.surroundings.directories).any (path.isPrefixOf ·)
    || fs.entries.any fun f => path.isPrefixOf f.1 && path != f.1

/-! ## Following a path -/

/-- What the names lead to from a directory. The topmost directory lies in itself. -/
def walk (fs : FileSystem) (here : List String) : List String → Except OsError Place
  | [] => .ok .directory
  | name :: names =>
    if name = "" || name = "." then fs.walk here names
    else if name = ".." then fs.walk here.dropLast names
    else if isLongName name then .error .nameTooLong
    else
      let path := here ++ [name]
      if fs.hasDirectory path then fs.walk path names
      else match fs.file? path, names with
        | some content, [] => .ok (.file path content)
        | some _, _ => .error .notDirectory
        | none, [] => .ok (.free path)
        | none, _ => .error .notFound

/-- The directory in which a path begins. A slash in front stands for the topmost one. -/
def start (fs : FileSystem) (path : String) : List String :=
  if path.toList.head? == some '/' then [] else fs.surroundings.here

/-- What a path as written leads to by way of some names. -/
def follow (fs : FileSystem) (path : String) (names : List String) : Except OsError Place :=
  if path.isEmpty then .error .notFound
  else if isLongPath path then .error .nameTooLong
  else fs.walk (fs.start path) names

/-- What a path as written leads to. -/
def locate (fs : FileSystem) (path : String) : Except OsError Place :=
  fs.follow path (names path)

/-- What a path as written leads to when a file is to be made there. A slash at the end makes it the
path of a directory, whatever its last name leads to: only the names before are followed. -/
def locateNew (fs : FileSystem) (path : String) : Except OsError Place :=
  let names := names path
  if names.getLast? = some "" then
    let bare := names.reverse.dropWhile (· = "")
    fs.follow path (bare.tail.reverse ++ ["."])
  else fs.follow path names

/-! ## Reading and writing -/

/-- The content of a file. -/
def read (fs : FileSystem) (path : String) : Except OsError ByteArray :=
  match fs.locate path with
  | .ok (.file path content) => match fs.surroundings.unreadable path with
    | some e => .error e
    | none => .ok content
  | .ok .directory => .error .isDirectory
  | .ok (.free _) => .error .notFound
  | .error e => .error e

/-- The files with one of them replaced, or with a new one. -/
def put (fs : FileSystem) (path : List String) (content : ByteArray) : FileSystem :=
  { fs with files := ("" :: path, content) :: fs.files.filter (fs.absolute ·.1 != path) }

/-- The files with an empty one that was opened for writing, and its path. -/
def create (fs : FileSystem) (path : String) : Except OsError (List String × FileSystem) :=
  match fs.locateNew path with
  | .error e => .error e
  | .ok place => match place.target? with
    | none => .error .isDirectory
    | some target => match fs.surroundings.unwritable target with
      | some e => .error e
      | none => .ok (target, fs.put target .empty)

/-- The files with more at the end of one of them, and the error if not all of it has room. -/
def append (fs : FileSystem) (path : List String) (bytes : ByteArray) :
    FileSystem × Option OsError :=
  let (content, error) := fs.surroundings.take path ((fs.file? path).getD .empty ++ bytes)
  (fs.put path content, error)

/-- The files after appending some texts in order, up to the first that does not have room. -/
def appendAll (fs : FileSystem) (path : List String) : List String → FileSystem × Option OsError
  | [] => (fs, none)
  | text :: texts => match fs.append path text.toUTF8 with
    | (fs, none) => fs.appendAll path texts
    | (fs, some e) => (fs, some e)

end FileSystem

end TurtleGraphics.CommandLine
