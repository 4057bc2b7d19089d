namespace TurtleGraphics.Text

/-!
# Lines of bytes

Input that comes line by line comes as bytes, and may turn out not to be text.

* `byteLines`: the lines of an input, each with the byte that ends it; only the last can be without.
* `decodeLine?`: a line as text, without its ending, which is `"\n"` or `"\r\n"`.
-/

/-- The byte that ends a line. -/
def lineFeed : UInt8 := 10

/-- The lines of some bytes, of which the line that is under way has the bytes `current`, last byte
first. -/
def byteLinesFrom (current : List UInt8) (lines : Array ByteArray) : List UInt8 → Array ByteArray
  | [] => if current.isEmpty then lines else lines.push ⟨current.reverse.toArray⟩
  | b :: bs =>
    if b = lineFeed then byteLinesFrom [] (lines.push ⟨(b :: current).reverse.toArray⟩) bs
    else byteLinesFrom (b :: current) lines bs

/-- The lines of an input. -/
def byteLines (input : ByteArray) : List ByteArray :=
  (byteLinesFrom [] #[] input.data.toList).toList

/-- The characters of a line without its ending. -/
def dropLineEnd (cs : List Char) : List Char :=
  match cs.reverse with
  | '\n' :: '\r' :: front => front.reverse
  | '\n' :: front => front.reverse
  | _ => cs

/-- A line as text, if its bytes are UTF-8. -/
def decodeLine? (line : ByteArray) : Option String :=
  (String.fromUTF8? line).map fun s => String.ofList (dropLineEnd s.toList)

end TurtleGraphics.Text
