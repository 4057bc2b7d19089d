import TurtleGraphics.Proofs.Repetition
import TurtleGraphics.Proofs.Tracing

namespace TurtleGraphics

open Text (Span Token tokens)

/-! # Clearing the screen

The pen is all that a workspace remembers of what was done before its screen was cleared.

* `interpret_clearing`: a text after a line that clears the screen does what it does after a reset,
  apart from its place and from the clearing.
* `Workspace.HasSettings`: no text and no reset changes the settings or the turtle's home
  (`HasSettings.interpret`, `HasSettings.after`).
* `Workspace.HasSettings.reset_eq`: so a reset leaves no other differences than those of the pens.

`clearing_forgets` is about workspaces with any two histories.
-/

/-! ## A text after a clearing -/

/-- The statement of a first line that clears the screen. -/
def clearing : Statement :=
  .command ⟨.clearScreen, [], ⟨0, 2, 1, 1⟩⟩

/-- The outcome of a text when a line that clears the screen stands before it. -/
def Outcome.afterClearing (o : Outcome) : Outcome where
  workspace := o.workspace
  report := { o.report.mapSpan (Span.moved 3 1) with cleared := true }
  calls := #[.clear] ++ o.calls

theorem tokens_clearing (text : String) :
    tokens ("cs\n" ++ text) =
      ⟨"CS", ⟨0, 2, 1, 1⟩⟩ :: (tokens text).map (·.mapSpan (Span.moved 3 1)) := by
  have hfirst : tokens "cs" = [⟨"CS", ⟨0, 2, 1, 1⟩⟩] := by cbv
  have hspan : afterLines "cs" = Span.moved 3 1 := rfl
  rw [← hspan, ← List.singleton_append, ← hfirst]
  exact tokens_append "cs" text

/-- The command takes no inputs, so whatever is on the next line is read for itself. -/
theorem read_clearing (text : String) :
    Program.read ("cs\n" ++ text) =
      (Program.read text).onTop (Span.moved 3 1) #[.statement clearing] := by
  have hstatement : ∀ rest : List Token,
      readStatement ⟨"CS", ⟨0, 2, 1, 1⟩⟩ rest = .ok (clearing, rest) := fun rest => rfl
  have htakes : ∀ rest : List Token,
      Draft.Takes ⟨⟨"CS", ⟨0, 2, 1, 1⟩⟩ :: rest, #[], []⟩ ⟨rest, #[.statement clearing], []⟩ :=
    fun rest => .statement (by decide) (by decide) (hstatement rest)
  rw [Program.read, tokens_clearing, Draft.start, Draft.run_of_inl (htakes _).step_eq, Program.read,
    ← Draft.run_onTop]
  simp [Draft.onTop, Draft.start]

theorem interpret_clearing (w : Workspace) (text : String) :
    w.interpret ("cs\n" ++ text) = (w.reset.interpret text).afterClearing := by
  rcases exists_block text with ⟨block, hflat⟩
  have hfirst : (Execution.start w.turtle w.path).run w.palette ⟨#[.statement clearing], none⟩ =
      (Execution.start w.turtle w.path).clearScreen := by
    have hblock : (⟨#[.statement clearing], none⟩ : Program).code.toList =
        (Block.statement clearing .done).flatten := rfl
    rw [Execution.run_eq_run_block w.palette _ hblock]
    rfl
  have hrun := Execution.run_onTop (Span.moved 3 1) w.palette (Execution.start w.turtle w.path)
    (.statement clearing .done) hflat
  simp only [Block.flatten] at hrun
  rw [hfirst] at hrun
  -- the rest of the text begins where a reset leaves the turtle and the path
  have hreset : Execution.start (Execution.start w.turtle w.path).clearScreen.turtle
      (Execution.start w.turtle w.path).clearScreen.path =
        Execution.start w.reset.turtle w.reset.path := rfl
  rw [hreset] at hrun
  have hpalette : w.reset.palette = w.palette := rfl
  simp only [Workspace.interpret, read_clearing, hrun, hpalette]
  generalize (Execution.start w.reset.turtle w.reset.path).run w.palette (Program.read text) = e
  simp [Execution.andThen, Execution.clearScreen, Execution.start, Execution.report,
    Outcome.afterClearing, Report.mapSpan, Workspace.reset]

/-! ## What stays the same -/

/-- Steps leave the turtle's home where it is. -/
theorem Turtle.after_home (t : Turtle Float) {a : Action Float} (harc : a.isArc = false) :
    (t.after a).home = t.home := by
  cases a with
  | arc => cases harc
  | _ => rfl

theorem Turtle.foldl_after_home (t : Turtle Float) {as : List (Action Float)}
    (harc : ∀ a ∈ as, a.isArc = false) : (as.foldl Turtle.after t).home = t.home := by
  induction as generalizing t with
  | nil => rfl
  | cons a as ih =>
    rcases List.forall_mem_cons.mp harc with ⟨ha, has⟩
    rw [List.foldl_cons, ih _ has, t.after_home ha]

/-- The settings that a workspace was made with, and the home that follows from them. -/
structure Workspace.HasSettings (w : Workspace) (config : Config) (palette : Palette) : Prop where
  config_eq : w.config = config
  palette_eq : w.palette = palette
  home_eq : w.turtle.home = config.home

namespace Workspace.HasSettings

variable {w w' : Workspace} {config : Config} {palette : Palette}

theorem new (config : Config) (palette : Palette) :
    HasSettings (.new config palette) config palette :=
  ⟨rfl, rfl, rfl⟩

theorem reset (h : w.HasSettings config palette) : w.reset.HasSettings config palette :=
  ⟨h.config_eq, h.palette_eq, h.home_eq⟩

theorem interpret (h : w.HasSettings config palette) (text : String) :
    (w.interpret text).workspace.HasSettings config palette where
  config_eq := h.config_eq
  palette_eq := h.palette_eq
  home_eq := by
    rw [(interpret_steps w text).1,
      Turtle.foldl_after_home _ fun _ => Program.isArc_of_mem_steps, h.home_eq]

theorem take {s : History} (h : s.workspace.HasSettings config palette) (t : Turn) :
    (s.take t).workspace.HasSettings config palette := by
  cases t with
  | run text => exact h.interpret text
  | draw text => exact h.interpret text
  | reset => exact h.reset

theorem after {s : History} (h : s.workspace.HasSettings config palette) (turns : List Turn) :
    (s.after turns).workspace.HasSettings config palette := by
  induction turns generalizing s with
  | nil => exact h
  | cons t turns ih => exact ih (h.take t)

/-- After a reset, workspaces with the same settings differ in nothing but their pens. -/
theorem reset_eq (h : w.HasSettings config palette) (h' : w'.HasSettings config palette)
    (hpen : w.turtle.pen = w'.turtle.pen) : w.reset = w'.reset := by
  have hhome : w.turtle.home = w'.turtle.home := h.home_eq.trans h'.home_eq.symm
  unfold Workspace.reset Turtle.reset
  rw [h.config_eq, h'.config_eq, h.palette_eq, h'.palette_eq, hpen, hhome]

end Workspace.HasSettings

/-- Clearing the screen erases the history. Whatever was done with two workspaces that were made with
the same settings, if their pens are equal then a text that begins by clearing the screen has the
same outcome in both. That outcome is the one of the text without the clearing after a reset, apart
from the clearing itself and from the places that diagnostics have in the text. And whatever is done,
the settings and the turtle's home stay as they are. -/
theorem clearing_forgets (config : Config) (palette : Palette) (turns turns' : List Turn)
    (text : String) :
    let w := ((History.start config palette).after turns).workspace
    let w' := ((History.start config palette).after turns').workspace
    let cleared := w.interpret ("cs\n" ++ text)
    let fresh := w.reset.interpret text
    (w.turtle.pen = w'.turtle.pen → cleared = w'.interpret ("cs\n" ++ text)) ∧
      cleared.workspace = fresh.workspace ∧
      cleared.calls = #[.clear] ++ fresh.calls ∧
      cleared.report = { fresh.report with
        cleared := true
        problems := fresh.report.problems.map (·.mapSpan (Span.moved 3 1))
        warnings := fresh.report.warnings.map (·.mapSpan (Span.moved 3 1)) } ∧
      w.config = config ∧ w.palette = palette ∧ w.turtle.home = config.home := by
  intro w w' cleared fresh
  have hw : w.HasSettings config palette := .after (.new config palette) turns
  have hw' : w'.HasSettings config palette := .after (.new config palette) turns'
  have hcleared : cleared = fresh.afterClearing := interpret_clearing w text
  refine ⟨?_, ?_, ?_, ?_, hw.config_eq, hw.palette_eq, hw.home_eq⟩
  · intro hpen
    rw [hcleared, interpret_clearing, ← hw.reset_eq hw' hpen]
  all_goals
    rw [hcleared]
    rfl

/-- Two histories that left different paths and equal pens. -/
theorem clearing_forgets_path :
    let w := ((History.start {} NamedPalette.standard.toPalette).after [.run "home ht"]).workspace
    let w' := ((History.start {} NamedPalette.standard.toPalette).after
      [.draw "ht", .reset]).workspace
    w.turtle.pen = w'.turtle.pen ∧
      w.interpret ("cs\n" ++ "home st 5") = w'.interpret ("cs\n" ++ "home st 5") := by
  intro w w'
  have hsteps : (Program.read "home ht").steps NamedPalette.standard.toPalette =
      [.home, .hideTurtle] := by cbv
  have hsteps' : (Program.read "ht").steps NamedPalette.standard.toPalette = [.hideTurtle] := by cbv
  let start := Workspace.new {} NamedPalette.standard.toPalette
  have hw : (start.interpret "home ht").workspace.turtle =
      [Action.home, .hideTurtle].foldl Turtle.after start.turtle := by
    rw [← hsteps]
    exact (interpret_steps start "home ht").1
  have hw' : (start.interpret "ht").workspace.turtle =
      [Action.hideTurtle].foldl Turtle.after start.turtle := by
    rw [← hsteps']
    exact (interpret_steps start "ht").1
  have hpen : w.turtle.pen = w'.turtle.pen := by
    show (start.interpret "home ht").workspace.turtle.pen =
      (start.interpret "ht").workspace.turtle.reset.pen
    rw [hw, hw']
    rfl
  have hforgets := clearing_forgets {} NamedPalette.standard.toPalette [.run "home ht"]
    [.draw "ht", .reset] "home st 5"
  exact ⟨hpen, hforgets.1 hpen⟩

end TurtleGraphics
