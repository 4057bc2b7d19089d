import TurtleGraphics.Proofs.Looping
import TurtleGraphics.Proofs.Relocation

namespace TurtleGraphics

open Text (Span Token Position tokens byteLength)

/-! # One text after another

Two texts run one after the other do what they do as one text, with a line break between them.

* `tokens_append`, `read_append`: the tokens and the program of the joined text. What comes from
  the second text lies further on by the bytes and the lines of the first.
* `Execution.andThen`: an execution continued by another that began where it ended, with its own
  empty report. Every statement respects it (`Execution.andThen_act`), so whole programs do
  (`Execution.run_onTop`).
* `interpret_append`: the two reports put together are the report on the joined text.
-/

/-! ## The joined text -/

/-- The position after a text and the end of its last line. -/
theorem advanceOver_line (cs : List Char) :
    (Position.start.advanceOver cs).advance '\n' =
      Position.start.moved (byteLength cs + 1) (cs.count '\n' + 1) := by
  have hoffset := Position.offset_advanceOver .start cs
  have hline := Position.line_advanceOver .start cs
  have hend : ∀ p : Position, p.advance '\n' = ⟨p.offset + 1, p.line + 1, 1⟩ := fun p => rfl
  rw [hend, hoffset, hline]
  show (⟨0 + byteLength cs + 1, 1 + cs.count '\n' + 1, 1⟩ : Position) =
    ⟨0 + (byteLength cs + 1), 1 + (cs.count '\n' + 1), 1⟩
  simp only [Position.mk.injEq]
  exact ⟨by omega, by omega, trivial⟩

/-- The spans of a text that comes after `a` on a new line. -/
def afterLines (a : String) : Span → Span :=
  Span.moved (byteLength a.toList + 1) (a.toList.count '\n' + 1)

theorem tokens_append (a b : String) :
    tokens (a ++ "\n" ++ b) = tokens a ++ (tokens b).map (·.mapSpan (afterLines a)) := by
  have hb := (Text.lexes_tokensAt .start b.toList).moved (byteLength a.toList + 1)
    (a.toList.count '\n' + 1)
  have htext : (a ++ "\n" ++ b).toList = a.toList ++ '\n' :: b.toList := by simp
  rw [Text.tokens_eq_tokensAt, htext, Text.tokensAt_append_blank (by decide), advanceOver_line,
    hb.tokensAt_eq]
  rfl

theorem StartsFresh.mapSpan {ts : List Token} (h : StartsFresh ts) (f : Span → Span) :
    StartsFresh (ts.map (·.mapSpan f)) := by
  cases ts with
  | nil => exact startsFresh_nil
  | cons t ts =>
    have ht := startsFresh_cons.mp h
    exact startsFresh_cons.mpr ht

/-- A text without a fault is read as it is without the text after it, and what comes after it is
read on top of its program. -/
theorem read_append {a b : String} (ha : (Program.read a).fault = none)
    (hb : StartsFresh (tokens b)) :
    Program.read (a ++ "\n" ++ b) =
      (Program.read b).onTop (afterLines a) (Program.read a).code := by
  obtain ⟨block, hblock⟩ := exists_sentence_of_fault_none ha
  rw [hblock.read_eq, Program.read, tokens_append,
    hblock.run_append (afterLines a) (hb.mapSpan (afterLines a))]
  rfl

/-! ## The joined execution -/

namespace Execution

/-- An execution continued by another, which began where the first ended and with nothing in its
report. The spans of the second are changed by `f`. -/
def andThen (first : Execution) (f : Span → Span) (second : Execution) : Execution where
  turtle := second.turtle
  path := second.path
  calls := first.calls ++ second.calls
  segments := if second.cleared then second.segments else first.segments ++ second.segments
  cleared := first.cleared || second.cleared
  output := first.output ++ second.output
  problems := first.problems ++ second.problems.map (·.mapSpan f)
  warnings := first.warnings ++ second.warnings.map (·.mapSpan f)

variable (first : Execution) (f : Span → Span)

theorem andThen_start : first.andThen f (start first.turtle first.path) = first := by
  simp [andThen, start]

theorem andThen_say (e : Execution) (line : String) :
    (first.andThen f e).say line = first.andThen f (e.say line) := by
  cases hcleared : e.cleared <;> simp [andThen, say, hcleared]

theorem andThen_complain (e : Execution) (p : Problem) :
    (first.andThen f e).complain (p.mapSpan f) = first.andThen f (e.complain p) := by
  cases hcleared : e.cleared <;> simp [andThen, complain, hcleared]

theorem andThen_draw (e : Execution) (s : Segment Float) :
    (first.andThen f e).draw s = first.andThen f (e.draw s) := by
  -- a segment goes to the end of the list, whether or not the first one's segments are still there
  cases hcleared : e.cleared <;> simp [andThen, draw, hcleared]

theorem andThen_clearScreen (e : Execution) :
    (first.andThen f e).clearScreen = first.andThen f e.clearScreen := by
  simp [andThen, clearScreen]

theorem andThen_draw_all (e : Execution) (drawn : Array (Segment Float)) :
    drawn.foldl draw (first.andThen f e) = first.andThen f (drawn.foldl draw e) :=
  Array.foldl_hom (first.andThen f) fun e s => andThen_draw first f e s

theorem andThen_perform (e : Execution) (action : Action Float) :
    (first.andThen f e).perform action = first.andThen f (e.perform action) := by
  cases action with
  | clearScreen => exact andThen_clearScreen first f e
  | xcor => exact andThen_say first f e _
  | ycor => exact andThen_say first f e _
  | heading => exact andThen_say first f e _
  | _ =>
    -- the turtle moves before its segments are drawn
    exact andThen_draw_all first f { e with turtle := _ } _

theorem andThen_warnings (e : Execution) (ws : List Warning) :
    first.andThen f { e with warnings := e.warnings ++ ws } =
      { first.andThen f e with
        warnings := (first.andThen f e).warnings ++ ws.map (·.mapSpan f) } := by
  have hwarnings : first.warnings ++ (e.warnings ++ ws).map (·.mapSpan f) =
      first.warnings ++ e.warnings.map (·.mapSpan f) ++ ws.map (·.mapSpan f) := by
    apply Array.ext'
    simp
  simp only [andThen, hwarnings]

/-- Every statement respects what was carried out before it. -/
theorem andThen_act (palette : Palette) (e : Execution) (s : Statement) :
    (first.andThen f e).act palette (s.mapSpan f) = first.andThen f (e.act palette s) := by
  cases s with
  | command c =>
    have haction := Command.action_mapSpan f c palette
    have hperform := andThen_perform first f
      { e with warnings := e.warnings ++ (c.action palette).warnings } (c.action palette).value
    rw [andThen_warnings] at hperform
    simp only [Statement.mapSpan, act, haction]
    exact hperform
  | unknown word span => exact andThen_complain first f e (.unknownWord word span)
  | stray value span => exact andThen_complain first f e (.unusedValue value span)

/-- A program is carried out by recursion over its block. -/
theorem run_eq_run_block (palette : Palette) (e : Execution) {program : Program} {b : Block}
    (hb : program.code.toList = b.flatten) :
    e.run palette program =
      match program.fault with
      | some p => (b.run (act palette) e).complain p
      | none => b.run (act palette) e := by
  have hcode : (Control.start program.code).run program.code (act palette) e =
      b.run (act palette) e := Control.run_eq_run_block b hb e
  cases hfault : program.fault with
  | none => simp [run, hfault, hcode]
  | some p => simp [run, hfault, hcode]

/-- A program on top of a block: the block is carried out, and then the program from where the
block ended. -/
theorem run_onTop (palette : Palette) (e : Execution) (before : Block) {program : Program}
    {b : Block} (hb : program.code.toList = b.flatten) :
    e.run palette (program.onTop f before.flatten.toArray) =
      let first := e.run palette ⟨before.flatten.toArray, none⟩
      first.andThen f ((start first.turtle first.path).run palette program) := by
  have hjoined : (program.onTop f before.flatten.toArray).code.toList =
      (before.append (b.mapSpan f)).flatten := by
    simp [Program.onTop, hb, Block.flatten_mapSpan]
  have hbefore : e.run palette ⟨before.flatten.toArray, none⟩ = before.run (act palette) e :=
    run_eq_run_block palette e rfl
  rw [hbefore, run_eq_run_block palette e hjoined, Block.run_append]
  generalize before.run (act palette) e = first
  -- the second block starts where `first` ends, and nothing has been carried out of it yet
  have hsecond : (b.mapSpan f).run (act palette) first =
      first.andThen f (b.run (act palette) (start first.turtle first.path)) := by
    have hrun := Block.run_mapSpan f (andThen_act first f palette) b
      (start first.turtle first.path)
    rwa [andThen_start] at hrun
  dsimp only
  rw [hsecond, run_eq_run_block palette _ hb]
  cases hfault : program.fault with
  | none => simp [Program.onTop, hfault]
  | some p => simp [Program.onTop, hfault, andThen_complain]

end Execution

/-! ## The joined report -/

/-- The report on a text that was run after another, put after the report on that. -/
def Report.andThen (first : Report) (f : Span → Span) (second : Report) : Report where
  segments := if second.cleared then second.segments else first.segments ++ second.segments
  cleared := first.cleared || second.cleared
  pose := second.pose
  pen := second.pen
  output := first.output ++ second.output
  problems := first.problems ++ second.problems.map (·.mapSpan f)
  warnings := first.warnings ++ second.warnings.map (·.mapSpan f)

/-- A text without a fault and then another, which does not begin with an input, do together what
they do one after the other, even if the second has a fault. The report on both has what the two
reports have, with the spans of the second moved to after the first text. -/
theorem interpret_append (w : Workspace) (a b : String) (ha : (Program.read a).fault = none)
    (hb : StartsFresh (tokens b)) :
    let first := w.interpret a
    let second := first.workspace.interpret b
    let both := w.interpret (a ++ "\n" ++ b)
    both.workspace = second.workspace ∧
      both.calls = first.calls ++ second.calls ∧
      both.report = first.report.andThen (afterLines a) second.report := by
  obtain ⟨before, hbefore⟩ := exists_sentence_of_fault_none ha
  obtain ⟨block, hflat⟩ := exists_block b
  have hrun : ∀ e : Execution, e.run w.palette (Program.read (a ++ "\n" ++ b)) =
      let first := e.run w.palette (Program.read a)
      first.andThen (afterLines a)
        ((Execution.start first.turtle first.path).run w.palette (Program.read b)) := by
    intro e
    rw [read_append ha hb, hbefore.read_eq]
    exact Execution.run_onTop (afterLines a) w.palette e before hflat
  intro first second both
  refine ⟨?_, ?_, ?_⟩
  all_goals
    simp only [both, second, first, Workspace.interpret, hrun]
    rfl

/-- The second text has a fault, which is on the third line of the whole. -/
theorem interpret_append_unmatched :
    (Program.read "repeat 2 [fd 5]\nxcor").fault = none ∧ StartsFresh (tokens "cs ]") ∧
      let w := Workspace.new {} NamedPalette.standard.toPalette
      let first := w.interpret "repeat 2 [fd 5]\nxcor"
      let second := first.workspace.interpret "cs ]"
      let both := w.interpret ("repeat 2 [fd 5]\nxcor" ++ "\n" ++ "cs ]")
      both.workspace = second.workspace ∧
        both.calls = first.calls ++ second.calls ∧
        both.report =
          first.report.andThen (afterLines "repeat 2 [fd 5]\nxcor") second.report := by
  have hfault : (Program.read "repeat 2 [fd 5]\nxcor").fault = none := by cbv
  have hfresh : StartsFresh (tokens "cs ]") := by
    have htokens : tokens "cs ]" = [⟨"CS", ⟨0, 2, 1, 1⟩⟩, ⟨"]", ⟨3, 1, 1, 4⟩⟩] := by cbv
    rw [htokens]
    exact startsFresh_cons.mpr (by decide)
  exact ⟨hfault, hfresh, interpret_append _ _ _ hfault hfresh⟩

end TurtleGraphics
