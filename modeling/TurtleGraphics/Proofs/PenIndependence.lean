import TurtleGraphics.Proofs.Clearing

namespace TurtleGraphics

/-! # What the pen has no influence on

The pen decides how lines look and whether there are any. It has no influence on where the turtle
goes or on what a text answers, and the parts of the pen have none on each other.

* `Pen.after`: each part of the pen after a step comes of that part alone. `Turtle.after_withPen` says
  that a turtle with another pen takes a step as it would with its own.
* `Pen.foldl_after`: after some steps, each part is what it was last set to.
* `Execution.AlikeButPen`: two executions differ in nothing but their pens and their drawings. Every
  statement preserves this (`AlikeButPen.act`), so every text does.
* `flatMap_moments_congr`: what can be said of the two turtles before every step can be said of what
  the steps draw.

`pen_steers_nothing` puts the results together for two workspaces.
-/

/-! ## The pen after a step -/

section Steps

variable {α : Type} [Scalar α]

namespace Action

/-- Whether the action puts the pen down or lifts it up. -/
def down? : Action α → Option Bool
  | .penUp => some false
  | .penDown => some true
  | _ => none

/-- The color that the action gives the pen. -/
def color? : Action α → Option Color
  | .setPenColor c => some c
  | _ => none

/-- The width that the action gives the pen. -/
def width? : Action α → Option α
  | .setPenWidth a => some (penWidth a)
  | _ => none

/-- Whether the action shows or hides the turtle. -/
def visible? : Action α → Option Bool
  | .hideTurtle => some false
  | .showTurtle => some true
  | _ => none

end Action

/-- The pen after a step. -/
def Pen.after (p : Pen α) (a : Action α) : Pen α where
  down := a.down?.getD p.down
  color := a.color?.getD p.color
  width := a.width?.getD p.width
  visible := a.visible?.getD p.visible

/-- With another pen the turtle goes the same way, and that pen changes as it would on its own. -/
theorem Turtle.after_withPen (t : Turtle α) (p : Pen α) {a : Action α} (harc : a.isArc = false) :
    Turtle.after { t with pen := p } a = { t.after a with pen := p.after a } := by
  cases a with
  | arc => cases harc
  | _ => rfl

theorem Turtle.foldl_after_withPen (t : Turtle α) (p : Pen α) {as : List (Action α)}
    (harc : ∀ a ∈ as, a.isArc = false) :
    as.foldl Turtle.after { t with pen := p } =
      { as.foldl Turtle.after t with pen := as.foldl Pen.after p } := by
  induction as generalizing t p with
  | nil => rfl
  | cons a as ih =>
    rcases List.forall_mem_cons.mp harc with ⟨ha, has⟩
    rw [List.foldl_cons, List.foldl_cons, List.foldl_cons, t.after_withPen p ha, ih _ _ has]

/-- What was last set, if the first action is taken account of in what there was before. -/
theorem getLastD_filterMap_cons {β γ : Type} (set? : γ → Option β) (x : β) (a : γ) (as : List γ) :
    ((a :: as).filterMap set?).getLastD x = (as.filterMap set?).getLastD ((set? a).getD x) := by
  cases hset : set? a with
  | none =>
    rw [List.filterMap_cons_none hset]
    rfl
  | some y =>
    rw [List.filterMap_cons_some hset, List.getLastD_cons]
    rfl

/-- Each part of the pen is what it was last set to, or what it was before. -/
theorem Pen.foldl_after (p : Pen α) (as : List (Action α)) :
    as.foldl Pen.after p =
      ⟨(as.filterMap Action.down?).getLastD p.down, (as.filterMap Action.color?).getLastD p.color,
        (as.filterMap Action.width?).getLastD p.width,
        (as.filterMap Action.visible?).getLastD p.visible⟩ := by
  induction as generalizing p with
  | nil => rfl
  | cons a as ih =>
    rw [List.foldl_cons, ih]
    simp only [Pen.after, getLastD_filterMap_cons]

end Steps

/-! ## Texts with two pens -/

/-- Two executions in which the turtles are at the same place and look the same way, and which have
answered, complained and cleared alike. -/
structure Execution.AlikeButPen (e e' : Execution) : Prop where
  turtle : e'.turtle = { e.turtle with pen := e'.turtle.pen }
  output : e'.output = e.output
  problems : e'.problems = e.problems
  warnings : e'.warnings = e.warnings
  cleared : e'.cleared = e.cleared

namespace Execution.AlikeButPen

variable {e e' : Execution}

/-- The way of the turtle is the same, whatever is drawn on it. -/
theorem act_turtle (h : AlikeButPen e e') {action : Action Float} (hclear : action ≠ .clearScreen) :
    AlikeButPen
      ((e.turtle.act action).drawn.foldl draw { e with turtle := (e.turtle.act action).turtle })
      ((e'.turtle.act action).drawn.foldl draw
        { e' with turtle := (e'.turtle.act action).turtle }) := by
  rw [foldl_draw, foldl_draw]
  refine ⟨?_, h.output, h.problems, h.warnings, h.cleared⟩
  have harc : ∀ a ∈ action.steps, a.isArc = false := fun a => Action.isArc_of_mem_steps
  show (e'.turtle.act action).turtle =
    { (e.turtle.act action).turtle with pen := (e'.turtle.act action).turtle.pen }
  rw [Turtle.act_eq _ hclear, Turtle.act_eq _ hclear, h.turtle,
    Turtle.foldl_after_withPen _ _ harc]

theorem pose (h : AlikeButPen e e') : e'.turtle.pose = e.turtle.pose := by
  rw [h.turtle]

theorem say (h : AlikeButPen e e') (line : Pose Float → String) :
    AlikeButPen (e.say (line e.turtle.pose)) (e'.say (line e'.turtle.pose)) := by
  refine ⟨h.turtle, ?_, h.problems, h.warnings, h.cleared⟩
  simp only [Execution.say]
  rw [h.pose, h.output]

theorem perform (h : AlikeButPen e e') (action : Action Float) :
    AlikeButPen (e.perform action) (e'.perform action) := by
  cases action with
  | clearScreen =>
    refine ⟨?_, h.output, h.problems, h.warnings, rfl⟩
    simp only [Execution.perform, Execution.clearScreen]
    rw [h.turtle]
    rfl
  | xcor => exact h.say fun pose => "X coordinate: " ++ Decimal.text pose.x
  | ycor => exact h.say fun pose => "Y coordinate: " ++ Decimal.text pose.y
  | heading => exact h.say fun pose => "Heading: " ++ Decimal.text pose.heading ++ "°"
  | _ => exact h.act_turtle (by simp)

theorem complain (h : AlikeButPen e e') (p : Problem) :
    AlikeButPen (e.complain p) (e'.complain p) := by
  refine ⟨h.turtle, h.output, ?_, h.warnings, h.cleared⟩
  simp only [Execution.complain]
  rw [h.problems]

theorem act (h : AlikeButPen e e') (palette : Palette) (s : Statement) :
    AlikeButPen (e.act palette s) (e'.act palette s) := by
  cases s with
  | command c =>
    apply perform
    refine ⟨h.turtle, h.output, h.problems, ?_, h.cleared⟩
    simp only
    rw [h.warnings]
  | unknown word span => exact h.complain _
  | stray value span => exact h.complain _

/-- Which statements come up does not depend on the states, so both runs carry out the same. -/
theorem run (h : AlikeButPen e e') (palette : Palette) (program : Program) :
    AlikeButPen (e.run palette program) (e'.run palette program) := by
  have hfold : ∀ ss : List Statement, AlikeButPen (ss.foldl (Execution.act palette) e)
      (ss.foldl (Execution.act palette) e') := by
    intro ss
    induction ss generalizing e e' with
    | nil => exact h
    | cons s ss ih => exact ih (h.act palette s)
  rw [run_eq_carriedOut, run_eq_carriedOut]
  cases program.fault with
  | none => exact hfold _
  | some p => exact (hfold _).complain p

end Execution.AlikeButPen

/-! ## Drawings with two pens -/

/-- Two turtles with different pens take some steps. If something can be said of their pens before
every step, and makes both draw alike in one step, then they draw alike in all. -/
theorem flatMap_moments_congr {β : Type} {R : Pen Float → Pen Float → Prop}
    {f : Moment Float → List β} (hstep : ∀ p p' a, R p p' → R (p.after a) (p'.after a))
    (hf : ∀ (t u : Turtle Float) (a : Action Float) (p p' q q' : Pen Float), R p p' →
      f ⟨{ t with pen := p }, a, { u with pen := q }⟩ =
        f ⟨{ t with pen := p' }, a, { u with pen := q' }⟩)
    (t : Turtle Float) {p p' : Pen Float} (h : R p p') {as : List (Action Float)}
    (harc : ∀ a ∈ as, a.isArc = false) :
    (moments { t with pen := p } as).flatMap f = (moments { t with pen := p' } as).flatMap f := by
  induction as generalizing t p p' with
  | nil => rfl
  | cons a as ih =>
    rcases List.forall_mem_cons.mp harc with ⟨ha, has⟩
    rw [moments, moments, List.flatMap_cons, List.flatMap_cons, t.after_withPen p ha,
      t.after_withPen p' ha, hf t (t.after a) a p p' (p.after a) (p'.after a) h,
      ih _ (hstep p p' a h) has]

/-- The two ends of a segment. -/
def Segment.ends (s : Segment Float) : Point Float × Point Float :=
  ⟨⟨s.x₁, s.y₁⟩, ⟨s.x₂, s.y₂⟩⟩

/-- The ends of the line that a call draws. -/
def SurfaceCall.ends : SurfaceCall → Option (Point Float × Point Float)
  | .drawLine s => some s.ends
  | .clear => none

/-- Only whether the pen is down matters to where a step draws. -/
theorem Moment.map_ends_calls {t u : Turtle Float} {a : Action Float} {p p' q q' : Pen Float}
    (h : p.down = p'.down) :
    (Moment.calls ⟨{ t with pen := p }, a, { u with pen := q }⟩).map SurfaceCall.ends =
      (Moment.calls ⟨{ t with pen := p' }, a, { u with pen := q' }⟩).map SurfaceCall.ends := by
  by_cases hclear : a = .clearScreen
  · rw [hclear]
    rfl
  · rw [Moment.calls_of_ne hclear, Moment.calls_of_ne hclear]
    simp only [Moment.lines, h]
    split
    · rfl
    · rfl

/-- The ends of the lines on a canvas after one more call. -/
def endsOnto (ends : Array (Point Float × Point Float)) :
    Option (Point Float × Point Float) → Array (Point Float × Point Float)
  | some line => ends.push line
  | none => #[]

/-- Where the lines on a canvas are depends only on where the calls draw them. -/
theorem map_ends_after (canvas : Canvas) (calls : Array SurfaceCall) :
    (canvas.after calls).map Segment.ends =
      (calls.map SurfaceCall.ends).foldl endsOnto (canvas.map Segment.ends) := by
  rw [Array.foldl_map]
  symm
  apply Array.foldl_hom (Array.map Segment.ends)
  intro canvas call
  cases call with
  | drawLine s => simp [SurfaceCall.onto, SurfaceCall.ends, endsOnto]
  | clear => simp [SurfaceCall.onto, SurfaceCall.ends, endsOnto]

/-! ## Two workspaces -/

/-- Workspaces with the same settings, in which the turtles are at the same place and look the same
way, have turtles that differ in nothing but their pens. -/
theorem Workspace.HasSettings.turtle_eq {w w' : Workspace} {config : Config} {palette : Palette}
    (hw : w.HasSettings config palette) (hw' : w'.HasSettings config palette)
    (hpose : w.turtle.pose = w'.turtle.pose) :
    w'.turtle = { w.turtle with pen := w'.turtle.pen } := by
  have hhome : w.turtle.home = w'.turtle.home := hw.home_eq.trans hw'.home_eq.symm
  simp only [hpose, hhome]

section Text

variable {w w' : Workspace} (hpalette : w'.palette = w.palette)
  (hturtle : w'.turtle = { w.turtle with pen := w'.turtle.pen }) (text : String)

include hpalette hturtle

theorem interpret_alikeButPen :
    ((Execution.start w.turtle w.path).run w.palette (Program.read text)).AlikeButPen
      ((Execution.start w'.turtle w'.path).run w'.palette (Program.read text)) := by
  have hstart : (Execution.start w.turtle w.path).AlikeButPen (.start w'.turtle w'.path) :=
    ⟨hturtle, rfl, rfl, rfl, rfl⟩
  rw [hpalette]
  exact hstart.run w.palette (Program.read text)

/-- The calls are alike as far as the pens are alike in what the calls are judged by. -/
theorem interpret_calls_congr {β : Type} {R : Pen Float → Pen Float → Prop} {f : SurfaceCall → β}
    (hstep : ∀ p p' a, R p p' → R (p.after a) (p'.after a))
    (hf : ∀ (t u : Turtle Float) (a : Action Float) (p p' q q' : Pen Float), R p p' →
      (Moment.calls ⟨{ t with pen := p }, a, { u with pen := q }⟩).map f =
        (Moment.calls ⟨{ t with pen := p' }, a, { u with pen := q' }⟩).map f)
    (h : R w.turtle.pen w'.turtle.pen) :
    (w.interpret text).calls.map f = (w'.interpret text).calls.map f := by
  have harc : ∀ a ∈ (Program.read text).steps w.palette, a.isArc = false :=
    fun a => Program.isArc_of_mem_steps
  have hmoments := flatMap_moments_congr (f := fun m => m.calls.map f) hstep hf w.turtle h harc
  rw [(interpret_steps w text).2, (interpret_steps w' text).2, hpalette, hturtle,
    List.map_toArray, List.map_toArray, List.map_flatMap, List.map_flatMap]
  exact congrArg List.toArray hmoments

end Text

/-- The pen never steers the turtle, and whether the turtle can be seen changes no line. Two
workspaces with the same settings, with the turtle at the same place and looking the same way, answer
a text alike and take the turtle to the same place, whatever their pens are. If both pens are up or
both are down, the lines are at the same places; if only the visibility differs, the lines are the
same, and so is the path if it was. And each part of the pen ends up as the text last sets it, or as
it was before, wherever the turtle is. -/
theorem pen_steers_nothing {w w' : Workspace} {config : Config} {palette : Palette}
    (hw : w.HasSettings config palette) (hw' : w'.HasSettings config palette)
    (hpose : w.turtle.pose = w'.turtle.pose) (text : String) :
    let o := w.interpret text
    let o' := w'.interpret text
    let steps := (Program.read text).steps palette
    (o.workspace.turtle.pose = o'.workspace.turtle.pose ∧ o.report.output = o'.report.output ∧
      o.report.problems = o'.report.problems ∧ o.report.warnings = o'.report.warnings ∧
      o.report.cleared = o'.report.cleared) ∧
    (w.turtle.pen.down = w'.turtle.pen.down →
      o.report.segments.map Segment.ends = o'.report.segments.map Segment.ends) ∧
    ({ w.turtle.pen with visible := w'.turtle.pen.visible } = w'.turtle.pen →
      o.report.segments = o'.report.segments ∧ o.calls = o'.calls ∧
        (w.path = w'.path → o.workspace.path = o'.workspace.path)) ∧
    ∀ v : Workspace, v.palette = palette →
      (v.interpret text).workspace.turtle.pen =
        ⟨(steps.filterMap Action.down?).getLastD v.turtle.pen.down,
          (steps.filterMap Action.color?).getLastD v.turtle.pen.color,
          (steps.filterMap Action.width?).getLastD v.turtle.pen.width,
          (steps.filterMap Action.visible?).getLastD v.turtle.pen.visible⟩ := by
  intro o o' steps
  have hpalette : w'.palette = w.palette := hw'.palette_eq.trans hw.palette_eq.symm
  have hturtle := hw.turtle_eq hw' hpose
  rcases interpret_recorded w text with ⟨hpath, hsegments, -⟩
  rcases interpret_recorded w' text with ⟨hpath', hsegments', -⟩
  refine ⟨?_, ?_, ?_, ?_⟩
  · have halike := interpret_alikeButPen hpalette hturtle text
    exact ⟨halike.pose.symm, halike.output.symm, halike.problems.symm, halike.warnings.symm,
      halike.cleared.symm⟩
  · intro hdown
    have hends : o.calls.map SurfaceCall.ends = o'.calls.map SurfaceCall.ends := by
      apply interpret_calls_congr hpalette hturtle text (R := fun p p' => p.down = p'.down) _ _ hdown
      · intro p p' a h
        simp only [Pen.after, h]
      · intro t u a p p' q q' h
        exact Moment.map_ends_calls h
    rw [hsegments, hsegments', map_ends_after, map_ends_after, hends]
  · intro hvisible
    have hcalls : o.calls.map id = o'.calls.map id := by
      apply interpret_calls_congr hpalette hturtle text
        (R := fun p p' => { p with visible := p'.visible } = p') _ _ hvisible
      · intro p p' a h
        rw [← h]
        rfl
      · intro t u a p p' q q' h
        rw [← h]
        rfl
    rw [Array.map_id, Array.map_id] at hcalls
    refine ⟨by rw [hsegments, hsegments', hcalls], hcalls, ?_⟩
    intro hw
    rw [hpath, hpath', hcalls, hw]
  · intro v hv
    rw [(interpret_steps v text).1, hv]
    have harc : ∀ a ∈ steps, a.isArc = false := fun a => Program.isArc_of_mem_steps
    have hpen := v.turtle.foldl_after_withPen v.turtle.pen harc
    rw [← Pen.foldl_after]
    exact congrArg Turtle.pen hpen

/-- The turtle of the second workspace cannot be seen. -/
theorem pen_steers_nothing_hidden :
    let w := Workspace.new {} NamedPalette.standard.toPalette
    let w' := { w with turtle := { w.turtle with pen := { w.turtle.pen with visible := false } } }
    w.HasSettings {} NamedPalette.standard.toPalette ∧
      w'.HasSettings {} NamedPalette.standard.toPalette ∧ w.turtle.pose = w'.turtle.pose ∧
      w.turtle.pen.down = w'.turtle.pen.down ∧
      { w.turtle.pen with visible := w'.turtle.pen.visible } = w'.turtle.pen ∧ w.path = w'.path ∧
      let o := w.interpret "arc 360 10 home cs home"
      let o' := w'.interpret "arc 360 10 home cs home"
      o.workspace.turtle.pose = o'.workspace.turtle.pose ∧
        o.report.segments.map Segment.ends = o'.report.segments.map Segment.ends ∧
        o.report.segments = o'.report.segments ∧ o.calls = o'.calls ∧
        o.workspace.path = o'.workspace.path := by
  intro w w'
  have hw : w.HasSettings {} NamedPalette.standard.toPalette := .new {} _
  have hw' : w'.HasSettings {} NamedPalette.standard.toPalette := ⟨rfl, rfl, rfl⟩
  rcases pen_steers_nothing hw hw' rfl "arc 360 10 home cs home" with
    ⟨⟨hpose, -⟩, hdown, hhidden, -⟩
  rcases hhidden rfl with ⟨hsegments, hcalls, hpath⟩
  exact ⟨hw, hw', rfl, rfl, rfl, rfl, hpose, hdown rfl, hsegments, hcalls, hpath rfl⟩

end TurtleGraphics
