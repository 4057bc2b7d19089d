import TurtleGraphics.Text.UpperTable

namespace TurtleGraphics.Text

/-!
# Upper case

Words are folded to upper case before they mean anything, so that `fd`, `Fd` and `FD` are one word.
The folding is Unicode's, character by character: a character may become several (`ß` is `SS`), and
never depends on the characters around it.
-/

/-- The upper case of one character: by rule in ASCII, from the tables elsewhere. -/
def upperChar (c : Char) : List Char :=
  if c.toNat < 128 then [c.toUpper]
  else match caseRuns.find? (·.contains c.toNat) with
    | some r => [Char.ofNat (r.partner c.toNat)]
    | none => match caseExpansions.lookup c.toNat with
      | some ns => ns.map Char.ofNat
      | none => [c]

/-- The upper case of a text. -/
def upper (s : String) : String :=
  String.ofList (s.toList.flatMap upperChar)

@[simp] theorem toList_upper (s : String) : (upper s).toList = s.toList.flatMap upperChar := by
  simp [upper]

end TurtleGraphics.Text
