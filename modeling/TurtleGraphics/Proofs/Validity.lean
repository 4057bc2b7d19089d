import TurtleGraphics.Proofs.Angles
import TurtleGraphics.Proofs.Tracing

namespace TurtleGraphics

open Scalar

/-! # Valid turtles

Whatever is asked of a turtle, its heading stays within one turn and its pen has a width.

* `Action.IsFinite`: the angles of an action are finite. That is so of every command's action, whose
  inputs have been made finite numbers (`Command.isFinite_action`), and of its steps
  (`Action.IsFinite.steps`).
* `Turtle.Valid`: preserved by every step with finite angles (`Valid.after`).
* `Workspace.Valid`, `History.Valid`: what follows for texts and for all that is asked of a workspace.

`turtle_stays_valid` is about any settings, whatever width they ask for.
-/

/-! ## Finite angles -/

/-- The angles that an action has the turtle turn by, or turn to, are finite. -/
def Action.IsFinite : Action Float → Prop
  | .left a | .right a | .setHeading a | .arc a _ => a.isFinite = true
  | _ => True

/-- The turns after the sides of an arc are parts of its angle. -/
theorem Action.IsFinite.steps {a b : Action Float} (ha : a.IsFinite) (hb : b ∈ a.steps) :
    b.IsFinite := by
  cases a with
  | arc degrees radius =>
    simp only [Action.steps] at hb
    split at hb
    · cases hb
    · rename_i hcond
      simp only [Bool.or_eq_true, not_or, Bool.not_eq_true] at hcond
      simp only [List.mem_flatten, List.mem_replicate] at hb
      rcases hb with ⟨side, ⟨-, rfl⟩, hb⟩
      simp only [List.mem_cons, List.not_mem_nil, or_false] at hb
      rcases hb with rfl | rfl
      · trivial
      · exact Binary64.isFinite_div_ceil ha hcond.2
  | _ =>
    rcases List.mem_singleton.mp hb with rfl
    exact ha

namespace Command

/-- An input is read as a finite number, or zero takes its place. -/
theorem isFinite_number (c : Command) (i : Nat) : (c.number i).value.isFinite = true := by
  have hzero : (0 : Float).isFinite = true := rfl
  unfold number
  split
  · exact hzero
  · split
    · rename_i x hread
      exact (Option.filter_eq_some_iff.mp hread).2
    · exact hzero

theorem isFinite_action (c : Command) (palette : Palette) :
    (c.action palette).value.IsFinite := by
  unfold action
  cases c.primitive with
  | left => exact c.isFinite_number 0
  | right => exact c.isFinite_number 0
  | setHeading => exact c.isFinite_number 0
  | arc => exact c.isFinite_number 0
  | _ => trivial

end Command

/-- All steps of a program have finite angles. -/
theorem Program.isFinite_of_mem_steps {p : Program} {palette : Palette} {a : Action Float}
    (h : a ∈ p.steps palette) : a.IsFinite := by
  rcases List.mem_flatMap.mp h with ⟨s, -, hs⟩
  cases s with
  | command c => exact (c.isFinite_action palette).steps hs
  | unknown | stray => cases hs

/-! ## Steps -/

/-- The heading is a number from 0 on and below 360, and the pen's width is one or more. -/
structure Turtle.Valid (t : Turtle Float) : Prop where
  heading_nonneg : 0 ≤ t.pose.heading
  heading_lt : t.pose.heading < 360
  one_le_width : 1 ≤ t.pen.width

namespace Turtle.Valid

variable {t : Turtle Float}

theorem new (home : Point Float) (color : Color) (width : Float) :
    (Turtle.new home color width).Valid where
  heading_nonneg := Binary64.zero_mem.1
  heading_lt := Binary64.zero_mem.2
  one_le_width := Binary64.le_larger rfl

theorem reset (h : t.Valid) : t.reset.Valid where
  heading_nonneg := Binary64.zero_mem.1
  heading_lt := Binary64.zero_mem.2
  one_le_width := h.one_le_width

/-- A turtle that was turned to a finite angle is valid. -/
theorem turned (h : t.Valid) {degrees : Float} (hdegrees : degrees.isFinite = true) :
    Turtle.Valid { t with pose := { t.pose with heading := wrapDegrees degrees } } := by
  rcases Binary64.wrapDegrees_mem hdegrees with ⟨hnonneg, hlt⟩
  exact ⟨hnonneg, hlt, h.one_le_width⟩

/-- A finite turn leads from a heading to a finite angle. -/
theorem after (h : t.Valid) {a : Action Float} (harc : a.isArc = false) (ha : a.IsFinite) :
    (t.after a).Valid := by
  have hshort := Binary64.short_of_mem h.heading_nonneg h.heading_lt
  cases a with
  | arc => cases harc
  | left degrees => exact h.turned (Binary64.isFinite_sub hshort ha)
  | right degrees => exact h.turned (Binary64.isFinite_add hshort ha)
  | setHeading degrees => exact h.turned ha
  | home => exact ⟨Binary64.zero_mem.1, Binary64.zero_mem.2, h.one_le_width⟩
  | clearScreen => exact h.reset
  | setPenWidth width => exact ⟨h.heading_nonneg, h.heading_lt, Binary64.le_larger rfl⟩
  | _ => exact ⟨h.heading_nonneg, h.heading_lt, h.one_le_width⟩

end Turtle.Valid

/-- The line of a step has the width of the pen before it. -/
theorem Moment.width_of_mem_calls {m : Moment Float} {g : Segment Float}
    (h : .drawLine g ∈ m.calls) : g.width = m.before.pen.width := by
  have hlines := Moment.mem_lines_of_mem_calls h
  unfold Moment.lines at hlines
  split at hlines
  · rw [List.mem_singleton.mp hlines]
  · cases hlines

/-- Steps with finite angles keep the turtle valid, and all that they draw has a width. -/
theorem Turtle.Valid.steps {t : Turtle Float} (h : t.Valid) {as : List (Action Float)}
    (harc : ∀ a ∈ as, a.isArc = false) (hfinite : ∀ a ∈ as, a.IsFinite) :
    (as.foldl Turtle.after t).Valid ∧
      ∀ g, .drawLine g ∈ (moments t as).flatMap Moment.calls → 1 ≤ g.width := by
  induction as generalizing t with
  | nil => exact ⟨h, fun g hg => absurd hg List.not_mem_nil⟩
  | cons a as ih =>
    rcases List.forall_mem_cons.mp harc with ⟨hnotArc, harc⟩
    rcases List.forall_mem_cons.mp hfinite with ⟨ha, hfinite⟩
    rcases ih (h.after hnotArc ha) harc hfinite with ⟨hvalid, hlater⟩
    refine ⟨hvalid, ?_⟩
    intro g hg
    rw [moments, List.flatMap_cons] at hg
    rcases List.mem_append.mp hg with hfirst | hg
    · rw [Moment.width_of_mem_calls hfirst]
      exact h.one_le_width
    · exact hlater g hg

/-! ## Texts and histories -/

/-- What is on a canvas was there before or has been drawn since. -/
theorem mem_after {canvas : Canvas} {calls : Array SurfaceCall} {g : Segment Float}
    (h : g ∈ canvas.after calls) : g ∈ canvas ∨ .drawLine g ∈ calls := by
  rcases calls with ⟨calls⟩
  induction calls generalizing canvas with
  | nil => exact .inl h
  | cons call calls ih =>
    have hrest : g ∈ (call.onto canvas).after calls.toArray := by
      simpa [Canvas.after] using h
    rcases ih hrest with hg | hg
    · cases call with
      | clear => exact absurd hg (Array.not_mem_empty g)
      | drawLine s =>
        rcases Array.mem_push.mp hg with hg | rfl
        · exact .inl hg
        · exact .inr (by simp)
    · right
      simp only [List.mem_toArray] at hg ⊢
      exact List.mem_cons_of_mem call hg

/-- The turtle is valid, and the segments of the path have a width. -/
structure Workspace.Valid (w : Workspace) : Prop where
  turtle : w.turtle.Valid
  path : ∀ g ∈ w.path, 1 ≤ g.width

namespace Workspace.Valid

variable {w : Workspace}

theorem new (config : Config) (palette : Palette) : (Workspace.new config palette).Valid where
  turtle := .new config.home palette.fallback config.penWidth
  path := fun g hg => absurd hg (Array.not_mem_empty g)

theorem reset (h : w.Valid) : w.reset.Valid where
  turtle := h.turtle.reset
  path := fun g hg => absurd hg (Array.not_mem_empty g)

/-- A text keeps the workspace valid, and all that it reports has a width. -/
theorem interpret (h : w.Valid) (text : String) :
    (w.interpret text).workspace.Valid ∧
      ∀ g ∈ (w.interpret text).report.segments, 1 ≤ g.width := by
  rcases interpret_steps w text with ⟨hturtle, hcalls⟩
  rcases interpret_recorded w text with ⟨hpath, hsegments, -⟩
  have harc : ∀ a ∈ (Program.read text).steps w.palette, a.isArc = false :=
    fun a => Program.isArc_of_mem_steps
  have hfinite : ∀ a ∈ (Program.read text).steps w.palette, a.IsFinite :=
    fun a => Program.isFinite_of_mem_steps
  rcases h.turtle.steps harc hfinite with ⟨hvalid, hlines⟩
  have hdrawn : ∀ g, .drawLine g ∈ (w.interpret text).calls → 1 ≤ g.width := by
    intro g hg
    rw [hcalls, List.mem_toArray] at hg
    exact hlines g hg
  refine ⟨⟨?_, ?_⟩, ?_⟩
  · rwa [hturtle]
  · intro g hg
    rw [hpath] at hg
    rcases mem_after hg with hg | hg
    · exact h.path g hg
    · exact hdrawn g hg
  · intro g hg
    rw [hsegments] at hg
    rcases mem_after hg with hg | hg
    · exact absurd hg (Array.not_mem_empty g)
    · exact hdrawn g hg

end Workspace.Valid

/-- The workspace is valid, and all that was reported has a width. -/
structure History.Valid (s : History) : Prop where
  workspace : s.workspace.Valid
  reports : ∀ report, .ran report ∈ s.events → ∀ g ∈ report.segments, 1 ≤ g.width

namespace History.Valid

variable {s : History}

theorem start (config : Config) (palette : Palette) : (History.start config palette).Valid where
  workspace := .new config palette
  reports := fun _ h => absurd h List.not_mem_nil

theorem ran (h : s.Valid) (text : String) (canvas : Canvas) :
    History.Valid ⟨(s.workspace.interpret text).workspace, canvas,
      s.events ++ [.ran (s.workspace.interpret text).report]⟩ := by
  rcases h.workspace.interpret text with ⟨hworkspace, hsegments⟩
  refine ⟨hworkspace, ?_⟩
  intro report hreport
  rcases List.mem_append.mp hreport with hreport | hreport
  · exact h.reports report hreport
  · rcases Event.ran.inj (List.mem_singleton.mp hreport) with rfl
    exact hsegments

theorem take (h : s.Valid) (t : Turn) : (s.take t).Valid := by
  cases t with
  | run text => exact h.ran text s.canvas
  | draw text => exact h.ran text _
  | reset =>
    refine ⟨h.workspace.reset, ?_⟩
    intro report hreport
    rcases List.mem_append.mp hreport with hreport | hreport
    · exact h.reports report hreport
    · cases List.mem_singleton.mp hreport

theorem after (h : s.Valid) (turns : List Turn) : (s.after turns).Valid := by
  induction turns generalizing s with
  | nil => exact h
  | cons t turns ih => exact ih (h.take t)

end History.Valid

/-- The turtle stays valid. Whatever width the settings ask for, and whatever texts are run and resets
made, the turtle's heading is a number from 0 on and below 360, its pen is at least one wide, and so
are all segments of the path and of the reports. -/
theorem turtle_stays_valid (config : Config) (palette : Palette) (turns : List Turn) :
    let s := (History.start config palette).after turns
    let t := s.workspace.turtle
    (t.pose.heading.isNaN = false ∧ 0 ≤ t.pose.heading ∧ t.pose.heading < 360) ∧
      (t.pen.width.isNaN = false ∧ 1 ≤ t.pen.width) ∧
      (∀ g ∈ s.workspace.path, 1 ≤ g.width) ∧
      ∀ report, .ran report ∈ s.events → ∀ g ∈ report.segments, 1 ≤ g.width := by
  intro s t
  have hs : s.Valid := (History.Valid.start config palette).after turns
  have ht : t.Valid := hs.workspace.turtle
  have hheading := (Binary64.le_iff.mp ht.heading_nonneg).2.1
  have hwidth := (Binary64.le_iff.mp ht.one_le_width).2.1
  exact ⟨⟨hheading, ht.heading_nonneg, ht.heading_lt⟩, ⟨hwidth, ht.one_le_width⟩,
    hs.workspace.path, hs.reports⟩

end TurtleGraphics
