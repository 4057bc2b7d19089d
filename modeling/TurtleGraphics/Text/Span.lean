namespace TurtleGraphics.Text

/-!
# Places in a text

A text is located in three counts at once: bytes (of its UTF-8 form) from the start, lines, and
characters within the line. Only `'\n'` ends a line.

* `Position`: a point between two characters.
* `Span`: a stretch that starts at a position.
* `Span.fragment`: the stretch cut out of its text, and the empty text if there is no such stretch.
-/

/-- A point in a text: bytes before it, its line from 1, its column in characters from 1. -/
structure Position where
  offset : Nat
  line : Nat
  column : Nat
deriving DecidableEq, Repr

/-- The point before the first character. -/
def Position.start : Position := ⟨0, 1, 1⟩

/-- The point after one more character. -/
def Position.advance (p : Position) (c : Char) : Position :=
  if c = '\n' then ⟨p.offset + c.utf8Size, p.line + 1, 1⟩
  else ⟨p.offset + c.utf8Size, p.line, p.column + 1⟩

/-- The point after some more characters. -/
def Position.advanceOver (p : Position) (cs : List Char) : Position :=
  cs.foldl Position.advance p

@[simp] theorem Position.advanceOver_nil (p : Position) : p.advanceOver [] = p := rfl

@[simp] theorem Position.advanceOver_cons (p : Position) (c : Char) (cs : List Char) :
    p.advanceOver (c :: cs) = (p.advance c).advanceOver cs := rfl

theorem Position.advanceOver_append (p : Position) (cs ds : List Char) :
    p.advanceOver (cs ++ ds) = (p.advanceOver cs).advanceOver ds :=
  List.foldl_append

/-- The length of the characters in bytes. -/
def byteLength (cs : List Char) : Nat :=
  cs.foldr (fun c n => c.utf8Size + n) 0

@[simp] theorem byteLength_nil : byteLength [] = 0 := rfl

@[simp] theorem byteLength_cons (c : Char) (cs : List Char) :
    byteLength (c :: cs) = c.utf8Size + byteLength cs := rfl

/-- A stretch of text: where it starts and its length in bytes. -/
structure Span where
  offset : Nat
  len : Nat
  line : Nat
  column : Nat
deriving DecidableEq, Repr

/-- The stretch of `cs` that starts at `p`. -/
def Span.at (p : Position) (cs : List Char) : Span :=
  ⟨p.offset, byteLength cs, p.line, p.column⟩

/-- A span is shown as its line and column. -/
def Span.text (s : Span) : String :=
  Nat.repr s.line ++ ":" ++ Nat.repr s.column

/-- What is left after the first `n` bytes, if `n` bytes are a number of whole characters. -/
def dropBytes? (n : Nat) : List Char → Option (List Char)
  | [] => if n = 0 then some [] else none
  | c :: cs =>
    if n = 0 then some (c :: cs)
    else if c.utf8Size ≤ n then dropBytes? (n - c.utf8Size) cs else none

/-- The first `n` bytes, if they are a number of whole characters. -/
def takeBytes? (n : Nat) : List Char → Option (List Char)
  | [] => if n = 0 then some [] else none
  | c :: cs =>
    if n = 0 then some []
    else if c.utf8Size ≤ n then (takeBytes? (n - c.utf8Size) cs).map (c :: ·) else none

/-- The part of some characters that the span covers. A span that reaches past the end, or that
starts or ends inside a character, covers nothing. -/
def Span.cut (s : Span) (source : List Char) : List Char :=
  ((dropBytes? s.offset source).bind (takeBytes? s.len)).getD []

/-- The part of a text that the span covers. -/
def Span.fragment (s : Span) (source : String) : String :=
  String.ofList (s.cut source.toList)

end TurtleGraphics.Text
