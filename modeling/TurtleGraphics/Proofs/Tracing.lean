import TurtleGraphics.Proofs.Records

namespace TurtleGraphics

open Scalar

/-! # Traces

What a text draws is the trace of a pen that never jumps: each line leads from where the turtle was
to where it went, and the next one begins there.

* `Action.steps`: an action in single steps. Only arcs have several, ways ahead and turns.
* `moments`: what the turtle was before and after each step, one step after another.
* `Moment.lines`, `Moment.calls`: what a step draws.
* `Program.steps`: the steps that a program takes, with its loops carried out.
* `Trail.foldl_act`, `Execution.act_steps`: actions and statements draw what their steps draw.
* `joined_lines`, `lines_penUp`: what the lines of some moments are like as a whole.

`interpret_trace` is the consequence for texts.
-/

section Steps

variable {α : Type}

/-- The place where the turtle is. -/
def Pose.place (p : Pose α) : Point α := ⟨p.x, p.y⟩

/-- Each of the segments begins where the one before it ends; the first begins at one place, and the
last ends at another. If there are none, the two places are the same. -/
def Joined (p : Point α) : List (Segment α) → Point α → Prop
  | [], q => p = q
  | s :: ss, q => p = ⟨s.x₁, s.y₁⟩ ∧ Joined ⟨s.x₂, s.y₂⟩ ss q

namespace Action

/-- The action moves the turtle along a straight line. -/
def isMotion : Action α → Bool
  | .forward _ | .back _ | .home | .setX _ | .setY _ | .setXY _ _ => true
  | _ => false

/-- The action is made of several steps. -/
def isArc : Action α → Bool
  | .arc _ _ => true
  | _ => false

variable [Scalar α]

/-- The action in single steps. -/
def steps : Action α → List (Action α)
  | .arc degrees radius =>
    if le radius (nat 0) || eq degrees (nat 0) then []
    else
      let sides := ceil (abs degrees)
      let length := abs degrees * pi * radius / nat 180
      (List.replicate (count sides)
        [.forward (length / sides), .right (degrees / sides)]).flatten
  | a => [a]

theorem isArc_of_mem_steps {a b : Action α} (h : b ∈ a.steps) : b.isArc = false := by
  cases a with
  | arc degrees radius =>
    simp only [steps] at h
    split at h
    · cases h
    · simp only [List.mem_flatten, List.mem_replicate] at h
      obtain ⟨side, ⟨-, rfl⟩, hb⟩ := h
      simp only [List.mem_cons, List.not_mem_nil, or_false] at hb
      rcases hb with rfl | rfl <;> rfl
  | _ =>
    obtain rfl := List.mem_singleton.mp h
    rfl

/-- A clearing is no part of anything else. -/
theorem clearScreen_notMem_steps {a : Action α} (h : a ≠ .clearScreen) :
    .clearScreen ∉ a.steps := by
  intro hmem
  cases a with
  | clearScreen => exact h rfl
  | arc degrees radius =>
    simp only [steps] at hmem
    split at hmem
    · cases hmem
    · simp [List.mem_flatten, List.mem_replicate] at hmem
  | _ => cases List.mem_singleton.mp hmem

end Action

/-- A step, with the turtle before and after it. -/
structure Moment (α : Type) where
  before : Turtle α
  action : Action α
  after : Turtle α

namespace Moment

/-- What is drawn by the step: if it moves the turtle and the pen is down, one line from where the
turtle was to where it is then, in the pen's color and width at that moment. -/
def lines (m : Moment α) : List (Segment α) :=
  if m.action.isMotion && m.before.pen.down then
    [⟨m.before.pose.x, m.before.pose.y, m.after.pose.x, m.after.pose.y, m.before.pen.color,
      m.before.pen.width⟩]
  else []

end Moment

variable [Scalar α]

/-- The turtle after a step. -/
def Turtle.after (t : Turtle α) : Action α → Turtle α
  | .clearScreen => t.reset
  | a => (t.act a).turtle

/-- The moments of a turtle that takes some steps. -/
def moments (t : Turtle α) : List (Action α) → List (Moment α)
  | [] => []
  | a :: as => ⟨t, a, t.after a⟩ :: moments (t.after a) as

theorem moments_append (t : Turtle α) (as bs : List (Action α)) :
    moments t (as ++ bs) = moments t as ++ moments (as.foldl Turtle.after t) bs := by
  induction as generalizing t with
  | nil => rfl
  | cons a as ih => rw [List.cons_append, moments, moments, ih, List.foldl_cons, List.cons_append]

/-! ## The steps of an action -/

namespace Trail

/-- What was drawn before has no part in a step. -/
theorem act_eq (w : Trail α) {a : Action α} (harc : a.isArc = false) (hclear : a ≠ .clearScreen) :
    w.act a =
      ⟨w.turtle.after a, w.drawn ++ (Moment.lines ⟨w.turtle, a, w.turtle.after a⟩).toArray⟩ := by
  cases a with
  | arc => cases harc
  | clearScreen => exact absurd rfl hclear
  | _ =>
    -- a motion is a way straight to some place, and the rest draws nothing
    cases hdown : w.turtle.pen.down <;>
      simp [act, Turtle.after, Turtle.act, Turtle.still, forward, goHome, moveTo, mapTurtle,
        mapPen, Turtle.lineTo, Moment.lines, Action.isMotion, hdown]

theorem repeat_side (length turn : α) (n : Nat) (w : Trail α) :
    Nat.repeat (side length turn) n w =
      (List.replicate n [.forward length, .right turn]).flatten.foldl act w := by
  induction n with
  | zero => rfl
  | succ n ih =>
    rw [Nat.repeat, ih, List.replicate_succ', List.flatten_append, List.foldl_append]
    rfl

theorem act_steps (w : Trail α) (a : Action α) : w.act a = a.steps.foldl act w := by
  cases a with
  | arc degrees radius =>
    simp only [act, arc, Action.steps]
    split
    · rfl
    · exact repeat_side _ _ _ w
  | _ => rfl

theorem foldl_act (w : Trail α) (as : List (Action α)) (harc : ∀ a ∈ as, a.isArc = false)
    (hclear : .clearScreen ∉ as) :
    as.foldl act w =
      ⟨as.foldl Turtle.after w.turtle,
        w.drawn ++ ((moments w.turtle as).flatMap Moment.lines).toArray⟩ := by
  induction as generalizing w with
  | nil => simp [moments]
  | cons a as ih =>
    obtain ⟨ha, has⟩ := List.forall_mem_cons.mp harc
    obtain ⟨hne, hmem⟩ := List.ne_and_not_mem_of_not_mem_cons hclear
    rw [List.foldl_cons, act_eq w ha (Ne.symm hne), ih _ has hmem]
    simp [moments]

end Trail

/-- An action draws what its steps draw. -/
theorem Turtle.act_eq (t : Turtle α) {a : Action α} (hclear : a ≠ .clearScreen) :
    t.act a =
      ⟨a.steps.foldl Turtle.after t, ((moments t a.steps).flatMap Moment.lines).toArray⟩ := by
  rw [Turtle.act, Trail.act_steps, Trail.foldl_act _ _ (fun _ => Action.isArc_of_mem_steps)
    (Action.clearScreen_notMem_steps hclear)]
  simp [Turtle.still]

/-! ## Lines -/

theorem Turtle.after_pen_down (t : Turtle α) {a : Action α} (harc : a.isArc = false)
    (hup : a ≠ .penUp) (hdown : t.pen.down = true) : (t.after a).pen.down = true := by
  cases a with
  | arc => cases harc
  | penUp => exact absurd rfl hup
  | penDown => rfl
  | _ => exact hdown

theorem Turtle.after_pen_up (t : Turtle α) {a : Action α} (harc : a.isArc = false)
    (hdown : a ≠ .penDown) (hup : t.pen.down = false) : (t.after a).pen.down = false := by
  cases a with
  | arc => cases harc
  | penUp => rfl
  | penDown => exact absurd rfl hdown
  | _ => exact hup

/-- Only motions and clearings change the turtle's place. -/
theorem Turtle.after_place (t : Turtle α) {a : Action α} (harc : a.isArc = false)
    (hclear : a ≠ .clearScreen) (hmotion : a.isMotion = false) :
    (t.after a).pose.place = t.pose.place := by
  cases a with
  | arc => cases harc
  | clearScreen => exact absurd rfl hclear
  | forward | back | home | setX | setY | setXY => cases hmotion
  | _ => rfl

/-- With the pen down all the time, the lines lead from where the turtle is to where it ends up. -/
theorem joined_lines (t : Turtle α) (as : List (Action α)) (harc : ∀ a ∈ as, a.isArc = false)
    (hup : .penUp ∉ as) (hclear : .clearScreen ∉ as) (hdown : t.pen.down = true) :
    Joined t.pose.place ((moments t as).flatMap Moment.lines)
      (as.foldl Turtle.after t).pose.place := by
  induction as generalizing t with
  | nil => rfl
  | cons a as ih =>
    obtain ⟨ha, has⟩ := List.forall_mem_cons.mp harc
    obtain ⟨hnotUp, hup⟩ := List.ne_and_not_mem_of_not_mem_cons hup
    obtain ⟨hnotClear, hclear⟩ := List.ne_and_not_mem_of_not_mem_cons hclear
    have hrest := ih (t.after a) has hup hclear (t.after_pen_down ha (Ne.symm hnotUp) hdown)
    rw [moments, List.flatMap_cons, List.foldl_cons]
    cases hmotion : a.isMotion with
    | true =>
      -- the line of this step leads to where the others begin
      simp only [Moment.lines, hmotion, hdown]
      exact ⟨rfl, hrest⟩
    | false =>
      -- the turtle has only turned, or changed its pen
      rw [t.after_place ha (Ne.symm hnotClear) hmotion] at hrest
      simpa [Moment.lines, hmotion] using hrest

/-- With the pen up all the time, there are no lines. -/
theorem lines_penUp (t : Turtle α) (as : List (Action α)) (harc : ∀ a ∈ as, a.isArc = false)
    (hdown : .penDown ∉ as) (hup : t.pen.down = false) :
    (moments t as).flatMap Moment.lines = [] := by
  induction as generalizing t with
  | nil => rfl
  | cons a as ih =>
    obtain ⟨ha, has⟩ := List.forall_mem_cons.mp harc
    obtain ⟨hnotDown, hdown⟩ := List.ne_and_not_mem_of_not_mem_cons hdown
    have hrest := ih (t.after a) has hdown (t.after_pen_up ha (Ne.symm hnotDown) hup)
    rw [moments, List.flatMap_cons, hrest]
    simp [Moment.lines, hup]

end Steps

/-! ## The steps of a program -/

/-- What a step has the surface do. -/
def Moment.calls (m : Moment Float) : List SurfaceCall :=
  match m.action with
  | .clearScreen => [.clear]
  | _ => m.lines.map .drawLine

theorem Moment.calls_of_ne {m : Moment Float} (h : m.action ≠ .clearScreen) :
    m.calls = m.lines.map .drawLine := by
  unfold calls
  split
  · exact absurd ‹_› h
  · rfl

theorem Moment.mem_lines_of_mem_calls {m : Moment Float} {s : Segment Float}
    (h : .drawLine s ∈ m.calls) : s ∈ m.lines := by
  unfold calls at h
  split at h
  · simp at h
  · simpa using h

theorem flatMap_calls (t : Turtle Float) {as : List (Action Float)} (h : .clearScreen ∉ as) :
    (moments t as).flatMap Moment.calls =
      ((moments t as).flatMap Moment.lines).map .drawLine := by
  induction as generalizing t with
  | nil => rfl
  | cons a as ih =>
    obtain ⟨hne, hmem⟩ := List.ne_and_not_mem_of_not_mem_cons h
    rw [moments, List.flatMap_cons, List.flatMap_cons, ih _ hmem,
      Moment.calls_of_ne (Ne.symm hne), List.map_append]

/-- The steps of a statement. Words and values that nothing is done with have none. -/
def Statement.steps (palette : Palette) : Statement → List (Action Float)
  | .command c => (c.action palette).value.steps
  | .unknown _ _ | .stray _ _ => []

/-- The statements that come up in a program, one after another. -/
def Program.carriedOut (p : Program) : List Statement :=
  (Control.start p.code).run p.code (fun done s => done ++ [s]) []

/-- A program does what the statements that come up in it do. -/
theorem Execution.run_eq_carriedOut (palette : Palette) (e : Execution) (program : Program) :
    e.run palette program =
      match program.fault with
      | some p => (program.carriedOut.foldl (act palette) e).complain p
      | none => program.carriedOut.foldl (act palette) e := by
  have hfold : (Control.start program.code).run program.code (act palette) e =
      program.carriedOut.foldl (act palette) e := Control.run_foldl _ [] e
  cases hfault : program.fault with
  | none => simp [run, hfault, hfold]
  | some p => simp [run, hfault, hfold]

/-- The steps that a program takes, one after another. -/
def Program.steps (p : Program) (palette : Palette) : List (Action Float) :=
  p.carriedOut.flatMap (·.steps palette)

theorem Program.isArc_of_mem_steps {p : Program} {palette : Palette} {a : Action Float}
    (h : a ∈ p.steps palette) : a.isArc = false := by
  obtain ⟨s, -, hs⟩ := List.mem_flatMap.mp h
  cases s with
  | command c => exact Action.isArc_of_mem_steps hs
  | unknown | stray => cases hs

/-- One execution has come of another by some steps: the turtle has taken them, and the surface has
been asked for what they draw. -/
structure Execution.Follows (e : Execution) (steps : List (Action Float)) (e' : Execution) :
    Prop where
  turtle : e'.turtle = steps.foldl Turtle.after e.turtle
  calls : e'.calls = e.calls ++ ((moments e.turtle steps).flatMap Moment.calls).toArray

namespace Execution.Follows

variable {e e' e'' : Execution}

theorem still (hturtle : e'.turtle = e.turtle) (hcalls : e'.calls = e.calls) :
    Follows e [] e' where
  turtle := hturtle
  calls := by simp [hcalls, moments]

theorem trans {as bs : List (Action Float)} (h : Follows e as e') (h' : Follows e' bs e'') :
    Follows e (as ++ bs) e'' where
  turtle := by rw [h'.turtle, h.turtle, List.foldl_append]
  calls := by
    rw [h'.calls, h.calls, h.turtle, moments_append]
    simp

theorem act (e : Execution) {action : Action Float} (hclear : action ≠ .clearScreen) :
    Follows e action.steps
      ((e.turtle.act action).drawn.foldl draw
        { e with turtle := (e.turtle.act action).turtle }) := by
  rw [foldl_draw]
  constructor
  · rw [Turtle.act_eq _ hclear]
  · rw [Turtle.act_eq _ hclear, flatMap_calls _ (Action.clearScreen_notMem_steps hclear)]
    simp

theorem perform (e : Execution) (action : Action Float) :
    Follows e action.steps (e.perform action) := by
  cases action with
  | clearScreen => exact ⟨rfl, rfl⟩
  | xcor | ycor | heading => exact ⟨rfl, Array.append_empty.symm⟩
  | _ => exact act e (by simp)

theorem statement (palette : Palette) (e : Execution) (s : Statement) :
    Follows e (s.steps palette) (e.act palette s) := by
  cases s with
  | command c =>
    have h := perform { e with warnings := e.warnings ++ (c.action palette).warnings }
      (c.action palette).value
    exact ⟨h.turtle, h.calls⟩
  | unknown | stray => exact .still rfl rfl

theorem statements (palette : Palette) (e : Execution) (ss : List Statement) :
    Follows e (ss.flatMap (·.steps palette)) (ss.foldl (Execution.act palette) e) := by
  induction ss generalizing e with
  | nil => exact .still rfl rfl
  | cons s ss ih => exact (statement palette e s).trans (ih (e.act palette s))

theorem run (palette : Palette) (e : Execution) (program : Program) :
    Follows e (program.steps palette) (e.run palette program) := by
  have hrun := statements palette e program.carriedOut
  rw [run_eq_carriedOut]
  cases program.fault with
  | none => exact hrun
  | some p => exact ⟨hrun.turtle, hrun.calls⟩

end Execution.Follows

/-! ## The steps of a text -/

section Text

variable (w : Workspace) (text : String)

/-- The turtle takes the steps of the text, and the surface is asked for what they draw. -/
theorem interpret_steps :
    (w.interpret text).workspace.turtle =
        ((Program.read text).steps w.palette).foldl Turtle.after w.turtle ∧
      (w.interpret text).calls =
        ((moments w.turtle ((Program.read text).steps w.palette)).flatMap Moment.calls).toArray := by
  have hfollows := Execution.Follows.run w.palette (Execution.start w.turtle w.path)
    (Program.read text)
  exact ⟨hfollows.turtle, hfollows.calls.trans Array.empty_append⟩

/-- Unless something is cleared, the lines of all steps are reported. -/
theorem segments_eq_lines (hclear : .clearScreen ∉ (Program.read text).steps w.palette) :
    (w.interpret text).report.segments.toList =
      (moments w.turtle ((Program.read text).steps w.palette)).flatMap Moment.lines := by
  obtain ⟨-, hsegments, -⟩ := interpret_recorded w text
  rw [hsegments, (interpret_steps w text).2, flatMap_calls _ hclear, ← List.map_toArray,
    Canvas.after_drawLines]
  simp

/-- Only the steps draw on the surface. -/
theorem mem_lines_of_drawLine_mem_calls {s : Segment Float}
    (h : .drawLine s ∈ (w.interpret text).calls) :
    s ∈ (moments w.turtle ((Program.read text).steps w.palette)).flatMap Moment.lines := by
  rw [(interpret_steps w text).2, List.mem_toArray] at h
  obtain ⟨m, hm, hs⟩ := List.mem_flatMap.mp h
  exact List.mem_flatMap.mpr ⟨m, hm, Moment.mem_lines_of_mem_calls hs⟩

/-- Every segment that is reported was drawn on the surface. -/
theorem drawLine_mem_calls {s : Segment Float} (h : s ∈ (w.interpret text).report.segments) :
    .drawLine s ∈ (w.interpret text).calls := by
  have hagrees := interpret_agrees w text
  cases hcleared : (w.interpret text).report.cleared with
  | false =>
    rw [(hagrees.kept hcleared).2]
    exact Array.mem_map_of_mem h
  | true =>
    obtain ⟨earlier, hcalls⟩ := (hagrees.replaced hcleared).2
    rw [hcalls]
    exact Array.mem_append_right _ (Array.mem_map_of_mem h)

end Text

/-- The lines that a text draws are those of its steps. Each motion with the pen down draws one line,
exactly from where the turtle was to where it is then, in the pen's color and width at that moment;
nothing else draws a line, and no line is changed later: the report and the path hold what the calls
on the surface leave there. So if the pen is down from the beginning and nothing is cleared, the
lines join the turtle's first place to its last; and if the pen is up all the time, there are
none. -/
theorem interpret_trace (w : Workspace) (text : String) :
    let o := w.interpret text
    let steps := (Program.read text).steps w.palette
    (o.workspace.turtle = steps.foldl Turtle.after w.turtle ∧
      o.calls.toList = (moments w.turtle steps).flatMap Moment.calls ∧
      o.report.segments = Canvas.after #[] o.calls ∧
      o.workspace.path = w.path.after o.calls) ∧
    (w.turtle.pen.down = true → .penUp ∉ steps → .clearScreen ∉ steps →
      Joined w.turtle.pose.place o.report.segments.toList o.report.pose.place) ∧
    (w.turtle.pen.down = false → .penDown ∉ steps →
      o.report.segments = #[] ∧ ∀ s, .drawLine s ∉ o.calls) := by
  intro o steps
  obtain ⟨hturtle, hcalls⟩ := interpret_steps w text
  obtain ⟨hpath, hsegments, -⟩ := interpret_recorded w text
  have harc : ∀ a ∈ steps, a.isArc = false := fun a => Program.isArc_of_mem_steps
  refine ⟨⟨hturtle, by rw [hcalls], hsegments, hpath⟩, ?_, ?_⟩
  · intro hdown hup hclear
    have hpose : o.report.pose = (steps.foldl Turtle.after w.turtle).pose :=
      congrArg Turtle.pose hturtle
    rw [segments_eq_lines w text hclear, hpose]
    exact joined_lines w.turtle steps harc hup hclear hdown
  · intro hup hdown
    have hnone : ∀ s, .drawLine s ∉ o.calls := by
      intro s hs
      have hline := mem_lines_of_drawLine_mem_calls w text hs
      rw [lines_penUp w.turtle steps harc hdown hup] at hline
      cases hline
    refine ⟨?_, hnone⟩
    rw [Array.eq_empty_iff_forall_not_mem]
    exact fun s hs => hnone s (drawLine_mem_calls w text hs)

/-- Three motions, in a loop and after it, with the pen down all the time. -/
theorem interpret_trace_home :
    let w := Workspace.new {} NamedPalette.standard.toPalette
    let steps := (Program.read "repeat 2 [home pd] home").steps w.palette
    let o := w.interpret "repeat 2 [home pd] home"
    w.turtle.pen.down = true ∧ .penUp ∉ steps ∧ .clearScreen ∉ steps ∧
      Joined w.turtle.pose.place o.report.segments.toList o.report.pose.place := by
  have hcode : (Program.read "repeat 2 [home pd] home").steps NamedPalette.standard.toPalette =
      [.home, .penDown, .home, .penDown, .home] := by cbv
  intro w steps o
  have hsteps : steps = [.home, .penDown, .home, .penDown, .home] := hcode
  have hup : .penUp ∉ steps := by simp [hsteps]
  have hclear : .clearScreen ∉ steps := by simp [hsteps]
  obtain ⟨-, hjoined, -⟩ := interpret_trace w "repeat 2 [home pd] home"
  exact ⟨rfl, hup, hclear, hjoined rfl hup hclear⟩

end TurtleGraphics
