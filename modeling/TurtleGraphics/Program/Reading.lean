import TurtleGraphics.Decimal.Read
import TurtleGraphics.Program.Basic

namespace TurtleGraphics

open Text (Token tokens)

/-!
# Reading programs

A program is built from tokens by these rules.

* `REPEAT`, a count and a block in brackets make a loop. A count is a whole number below `2 ^ 32`.
* A primitive's name or alias is followed by its inputs: as many as it takes, unless a token that
  cannot be an input comes first.
* A finite number, or a word that begins with a double quote, is a value that nothing asks for.
* Any other word is unknown, and what could be its inputs goes with it.

An input is any token that is not a bracket, `REPEAT`, or the name or alias of a primitive.

The reading (`Draft.run`) goes through the tokens once. A loop's length is not known before its
block ends, so it is entered as zero and filled in then; the loops still open are kept on a stack,
innermost first. The reading stops at the first token that breaks a rule, and then a loop that is
still open is dropped altogether, with all that was read after it.
-/

/-- The word that begins a loop. -/
def repeatWord : String := "REPEAT"

/-- The token can be the input of a command. -/
def Text.Token.isInput (t : Token) : Bool :=
  !t.isOpen && !t.isClose && t.text != repeatWord && (Primitive.find? t.text).isNone

/-- The token is a value: a finite number, or a quoted word. -/
def Text.Token.isValue (t : Token) : Bool :=
  (Decimal.finite? t.text).isSome || t.text.toList.head? == some '"'

/-- The count that a token stands for. -/
def readCount? (text : String) : Option Nat :=
  (Decimal.unsigned? text).filter (· < UInt32.size)

/-- A statement that begins with the token `first`, and the tokens after it. -/
def readStatement (first : Token) (rest : List Token) : Except Problem (Statement × List Token) :=
  if first.isOpen then .error (.malformed .unexpectedOpen first.span)
  else match Primitive.find? first.text with
    | some p =>
      let inputs := (rest.take p.arity).takeWhile (·.isInput)
      .ok (.command ⟨p, inputs, first.span⟩, rest.drop inputs.length)
    | none =>
      if first.isValue then .ok (.stray first.text first.span, rest)
      else .ok (.unknown first.text first.span, rest.dropWhile (·.isInput))

/-- What follows the word that begins a loop: the count, the bracket, and the tokens after it. -/
structure LoopHead where
  count : Nat
  bracket : Token
  rest : List Token

/-- Reads what follows the token `start` that begins a loop. -/
def readLoopHead (start : Token) : List Token → Except Problem LoopHead
  | [] => .error (.malformed .missingCount start.span)
  | t :: rest =>
    if t.isOpen || t.isClose then .error (.malformed .missingCount start.span)
    else match readCount? t.text with
      | none => .error (.malformed (.badCount t.text) t.span)
      | some count => match rest with
        | [] => .error (.malformed .missingBody t.span)
        | b :: rest =>
          if b.isOpen then .ok ⟨count, b, rest⟩ else .error (.malformed .missingBody b.span)

/-! ## The reading -/

/-- A loop whose block has not ended: its place in the code, and the bracket that began the block. -/
structure OpenLoop where
  index : Nat
  bracket : Token

/-- A program being read. -/
structure Draft where
  rest : List Token
  code : Array Instr
  opened : List OpenLoop

/-- A loop with its length filled in. -/
def Instr.withLen (len : Nat) : Instr → Instr
  | .loop count _ span => .loop count len span
  | .statement s => .statement s

namespace Draft

/-- Nothing read yet. -/
def start (tokens : List Token) : Draft := ⟨tokens, #[], []⟩

/-- The outermost loop that is still open. -/
def outermost? (d : Draft) : Option OpenLoop := d.opened.getLast?

/-- The program that was read when the reading ends, which leaves out a loop that is still open. -/
def finish (d : Draft) (fault : Option Problem) : Program :=
  match d.outermost? with
  | some o => ⟨d.code.take o.index, fault⟩
  | none => ⟨d.code, fault⟩

/-- Reads one statement, the beginning of a loop or the end of one. -/
@[inline] def step (d : Draft) : Draft ⊕ Program :=
  match d.rest with
  | [] => .inr (d.finish (d.outermost?.map fun o => .malformed .unmatchedOpen o.bracket.span))
  | t :: rest =>
    if t.isClose then
      match d.opened with
      | [] => .inr (d.finish (some (.malformed .unmatchedClose t.span)))
      | o :: opened =>
        let len := d.code.size - o.index - 1
        .inl ⟨rest, d.code.modify o.index (.withLen len), opened⟩
    else if t.text = repeatWord then
      match readLoopHead t rest with
      | .error p => .inr (d.finish (some p))
      | .ok head =>
        let opened := ⟨d.code.size, head.bracket⟩ :: d.opened
        .inl ⟨head.rest, d.code.push (.loop head.count 0 t.span), opened⟩
    else
      match readStatement t rest with
      | .error p => .inr (d.finish (some p))
      | .ok (s, rest) => .inl ⟨rest, d.code.push (.statement s), d.opened⟩

end Draft

theorem readStatement_rest_length {first : Token} {rest : List Token} {r : Statement × List Token}
    (h : readStatement first rest = .ok r) : r.2.length ≤ rest.length := by
  have hdrop := (List.dropWhile_suffix (l := rest) (·.isInput)).length_le
  unfold readStatement at h
  split at h
  · cases h
  · split at h
    · cases h; simp
    · split at h <;> cases h
      · exact Nat.le_refl _
      · exact hdrop

theorem readLoopHead_rest_length {start : Token} {rest : List Token} {head : LoopHead}
    (h : readLoopHead start rest = .ok head) : head.rest.length < rest.length := by
  unfold readLoopHead at h
  split at h
  · cases h
  · split at h
    · cases h
    · split at h
      · cases h
      · split at h
        · cases h
        · split at h
          · cases h; simp only [List.length_cons]; omega
          · cases h

/-- Every step takes up at least one token. -/
theorem Draft.step_rest_length {d d' : Draft} (h : d.step = .inl d') :
    d'.rest.length < d.rest.length := by
  unfold Draft.step at h
  split at h
  · cases h
  · rename_i t rest hrest
    rw [hrest, List.length_cons]
    split at h
    · split at h
      · cases h
      · cases h; exact Nat.lt_succ_self _
    · split at h
      · split at h
        · cases h
        · rename_i head hhead
          have := readLoopHead_rest_length hhead
          cases h
          dsimp only
          omega
      · split at h
        · cases h
        · rename_i s rest' hs
          have := readStatement_rest_length hs
          cases h
          dsimp only at this ⊢
          omega

/-- Reads on until the tokens end or break a rule. -/
def Draft.run (d : Draft) : Program :=
  match h : d.step with
  | .inl d' =>
    have := Draft.step_rest_length h
    d'.run
  | .inr p => p
termination_by d.rest.length

/-- The program that a text stands for. -/
def Program.read (text : String) : Program :=
  (Draft.start (tokens text)).run

end TurtleGraphics
