import TurtleGraphics.Text.Blank
import TurtleGraphics.Text.Span
import TurtleGraphics.Text.Upper

namespace TurtleGraphics.Text

/-!
# Tokens

A text is a sequence of tokens between blanks. A bracket is a token by itself; any other token is a
longest run of characters that are neither blanks nor brackets.

* `Token`: a token's upper case, and where it stands in the text.
* `nextToken?`: the first token after a position and what follows it.
* `tokens`: all tokens of a text, in order. Since `nextToken?` fails only when nothing but blanks is
  left, no tail of the text is lost.
-/

/-- A bracket or a word, in upper case. -/
structure Token where
  text : String
  span : Span
deriving DecidableEq, Repr

/-- The token opens a block. -/
def Token.isOpen (t : Token) : Bool := t.text == "["

/-- The token closes a block. -/
def Token.isClose (t : Token) : Bool := t.text == "]"

/-- The two characters that are tokens by themselves. -/
def isBracket (c : Char) : Bool := c == '[' || c == ']'

/-- A character that can be part of a word. -/
def isWordChar (c : Char) : Bool := !isBlank c && !isBracket c

/-- The token made of the characters `cs` at `p`. -/
def Token.of (p : Position) (cs : List Char) : Token :=
  ⟨upper (String.ofList cs), Span.at p cs⟩

/-- The characters of the token that the text starts with. -/
def lexeme : List Char → List Char
  | [] => []
  | c :: cs => if isBracket c then [c] else c :: cs.takeWhile isWordChar

/-- A token, and the rest of the text with the position where it starts. -/
structure Scanned where
  token : Token
  after : Position
  rest : List Char

/-- The first token of the text `cs`, which stands at `p`; none if `cs` is blank. -/
def nextToken? (p : Position) (cs : List Char) : Option Scanned :=
  let blanks := cs.takeWhile isBlank
  let start := p.advanceOver blanks
  match cs.dropWhile isBlank with
  | [] => none
  | c :: ds =>
    let word := lexeme (c :: ds)
    some ⟨Token.of start word, start.advanceOver word, (c :: ds).drop word.length⟩

theorem lexeme_length_pos (c : Char) (cs : List Char) : 0 < (lexeme (c :: cs)).length := by
  simp only [lexeme]; split <;> simp

/-- A token takes up text, so scanning comes to an end. -/
theorem nextToken?_rest_length {p : Position} {cs : List Char} {s : Scanned}
    (h : nextToken? p cs = some s) : s.rest.length < cs.length := by
  have hle : (cs.dropWhile isBlank).length ≤ cs.length :=
    (List.dropWhile_suffix isBlank).length_le
  unfold nextToken? at h
  split at h
  · cases h
  · rename_i c ds hd
    have hpos := lexeme_length_pos c ds
    rw [hd] at hle
    obtain rfl := Option.some.inj h
    simp only [List.length_drop, List.length_cons] at hle ⊢
    omega

/-- The tokens of the text `cs`, which stands at `p`, after those already found. -/
def tokensFrom (p : Position) (cs : List Char) (found : Array Token) : Array Token :=
  match h : nextToken? p cs with
  | none => found
  | some s =>
    have := nextToken?_rest_length h
    tokensFrom s.after s.rest (found.push s.token)
termination_by cs.length

/-- The tokens of a text, in order. -/
def tokens (s : String) : List Token :=
  (tokensFrom .start s.toList #[]).toList

end TurtleGraphics.Text
