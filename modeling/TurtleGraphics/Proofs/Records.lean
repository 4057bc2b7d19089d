import TurtleGraphics.Proofs.Looping

namespace TurtleGraphics

/-! # The records of a drawing

What the turtle draws is kept in three places: on the path, in the report on the text, and on the
surface. Each of them is appended to and cleared on its own, and they never disagree.

* `Canvas.after` and the calls: without a clearing every call is a line, and what a canvas shows
  after a clearing does not depend on what it showed before.
* `Execution.Recorded`: the path and the segments of the report are what the calls leave on a
  surface. Every action preserves this (`Recorded.perform`), so every text does.
* `Outcome.Agrees`: what follows for one text (`interpret_agrees`).
* `History`: a workspace in use, with texts that are drawn on the surface, texts that are not, and
  resets.

`records_agree` is about all that can be asked of a workspace.
-/

/-! ## Calls on a surface -/

namespace Canvas

theorem after_append (canvas : Canvas) (calls later : Array SurfaceCall) :
    canvas.after (calls ++ later) = (canvas.after calls).after later :=
  Array.foldl_append

theorem after_push (canvas : Canvas) (calls : Array SurfaceCall) (call : SurfaceCall) :
    canvas.after (calls.push call) = call.onto (canvas.after calls) :=
  Array.foldl_push

theorem after_drawLines (canvas segments : Canvas) :
    canvas.after (segments.map .drawLine) = canvas ++ segments := by
  unfold after
  rw [Array.foldl_map]
  exact (Array.foldl_push_eq_append (f := id) rfl).trans (by simp)

end Canvas

/-- Calls without a clearing are lines. -/
theorem exists_drawLines {calls : Array SurfaceCall} (h : .clear ∉ calls) :
    ∃ segments : Canvas, calls = segments.map .drawLine := by
  obtain ⟨calls⟩ := calls
  induction calls with
  | nil => exact ⟨#[], by simp⟩
  | cons call calls ih =>
    simp only [List.mem_toArray, List.mem_cons, not_or] at h ih
    obtain ⟨segments, hsegments⟩ := ih h.2
    cases call with
    | clear => exact absurd rfl h.1
    | drawLine s => exact ⟨#[s] ++ segments, by simp [← hsegments]⟩

/-- Calls with a clearing are what came before the last one, the clearing itself, and lines. -/
theorem exists_last_clear {calls : Array SurfaceCall} (h : .clear ∈ calls) :
    ∃ (earlier : Array SurfaceCall) (segments : Canvas),
      calls = earlier.push .clear ++ segments.map .drawLine := by
  obtain ⟨calls⟩ := calls
  induction calls with
  | nil => simp at h
  | cons call calls ih =>
    by_cases hlater : .clear ∈ calls
    · obtain ⟨earlier, segments, hcalls⟩ := ih (by simpa using hlater)
      refine ⟨#[call] ++ earlier, segments, ?_⟩
      rw [Array.push_append, Array.append_assoc, ← hcalls]
      simp
    · -- the first call is the last clearing
      have hlines : .clear ∉ calls.toArray := by simpa using hlater
      obtain ⟨segments, hsegments⟩ := exists_drawLines hlines
      obtain rfl : .clear = call := by simpa [hlater] using h
      exact ⟨#[], segments, by simp [← hsegments]⟩

/-! ## One text -/

/-- Several segments at once: each of the records gets all of them, and nothing else changes. -/
theorem Execution.foldl_draw (e : Execution) (drawn : Array (Segment Float)) :
    drawn.foldl draw e = { e with
      path := e.path ++ drawn
      segments := e.segments ++ drawn
      calls := e.calls ++ drawn.map .drawLine } := by
  rcases drawn with ⟨drawn⟩
  rw [List.foldl_toArray]
  induction drawn generalizing e with
  | nil => simp
  | cons s drawn ih =>
    rw [List.foldl_cons, ih]
    simp [draw]

/-- The records of an execution that began with the path `before`: the path, and the segments of the
report, are what the calls leave on a surface that showed that path, or nothing. -/
structure Execution.Recorded (before : Canvas) (e : Execution) : Prop where
  path : e.path = before.after e.calls
  segments : e.segments = Canvas.after #[] e.calls
  cleared : e.cleared = true ↔ .clear ∈ e.calls

namespace Execution.Recorded

variable {before : Canvas} {e : Execution}

theorem start (turtle : Turtle Float) (path : Canvas) :
    Recorded path (Execution.start turtle path) where
  path := rfl
  segments := rfl
  cleared := by simp [Execution.start]

theorem draw (h : Recorded before e) (s : Segment Float) : Recorded before (e.draw s) where
  path := by
    rw [Execution.draw, Canvas.after_push, ← h.path]
    rfl
  segments := by
    rw [Execution.draw, Canvas.after_push, ← h.segments]
    rfl
  cleared := by simp [Execution.draw, h.cleared]

theorem draw_all (h : Recorded before e) (drawn : Array (Segment Float)) :
    Recorded before (drawn.foldl Execution.draw e) :=
  Array.foldl_induction (fun _ e => Recorded before e) h fun i e he => he.draw drawn[i]

/-- A clearing empties all records, whatever they held. -/
theorem clearScreen : Recorded before e.clearScreen where
  path := by
    rw [Execution.clearScreen, Canvas.after_push]
    rfl
  segments := by
    rw [Execution.clearScreen, Canvas.after_push]
    rfl
  cleared := by simp [Execution.clearScreen]

theorem setTurtle (h : Recorded before e) (t : Turtle Float) :
    Recorded before { e with turtle := t } :=
  ⟨h.path, h.segments, h.cleared⟩

theorem setWarnings (h : Recorded before e) (ws : Array Warning) :
    Recorded before { e with warnings := ws } :=
  ⟨h.path, h.segments, h.cleared⟩

theorem perform (h : Recorded before e) (action : Action Float) :
    Recorded before (e.perform action) := by
  cases action with
  | clearScreen => exact clearScreen
  | xcor => exact ⟨h.path, h.segments, h.cleared⟩
  | ycor => exact ⟨h.path, h.segments, h.cleared⟩
  | heading => exact ⟨h.path, h.segments, h.cleared⟩
  | _ =>
    -- the turtle moves, and then its segments are drawn
    exact (h.setTurtle _).draw_all _

theorem act (h : Recorded before e) (palette : Palette) (s : Statement) :
    Recorded before (e.act palette s) := by
  cases s with
  | command c => exact (h.setWarnings _).perform _
  | unknown word span => exact ⟨h.path, h.segments, h.cleared⟩
  | stray value span => exact ⟨h.path, h.segments, h.cleared⟩

theorem run (h : Recorded before e) (palette : Palette) (program : Program) :
    Recorded before (e.run palette program) := by
  apply Execution.run_preserves ?_ ?_ h
  · exact fun e s _ he => he.act palette s
  · exact fun e p _ he => ⟨he.path, he.segments, he.cleared⟩

end Execution.Recorded

/-- What the records of one text have to do with each other, and with the path `before` the text. -/
structure Outcome.Agrees (o : Outcome) (before : Canvas) : Prop where
  /-- Without a clearing, the segments of the report are added to the path, and they are the lines
  drawn on the surface. -/
  kept : o.report.cleared = false →
    o.workspace.path = before ++ o.report.segments ∧
      o.calls = o.report.segments.map .drawLine
  /-- Otherwise they are all of the path, and the lines drawn after the last clearing. -/
  replaced : o.report.cleared = true →
    o.workspace.path = o.report.segments ∧
      ∃ earlier : Array SurfaceCall,
        o.calls = earlier.push .clear ++ o.report.segments.map .drawLine
  cleared_iff : o.report.cleared = true ↔ .clear ∈ o.calls

theorem interpret_recorded (w : Workspace) (text : String) :
    (w.interpret text).workspace.path = w.path.after (w.interpret text).calls ∧
      (w.interpret text).report.segments = Canvas.after #[] (w.interpret text).calls ∧
      ((w.interpret text).report.cleared = true ↔ .clear ∈ (w.interpret text).calls) := by
  have hrun := (Execution.Recorded.start w.turtle w.path).run w.palette (Program.read text)
  exact ⟨hrun.path, hrun.segments, hrun.cleared⟩

theorem interpret_agrees (w : Workspace) (text : String) : (w.interpret text).Agrees w.path := by
  obtain ⟨hpath, hsegments, hcleared⟩ := interpret_recorded w text
  generalize w.interpret text = o at hpath hsegments hcleared
  refine ⟨?_, ?_, hcleared⟩
  · intro h
    have hlines : .clear ∉ o.calls := by simp [← hcleared, h]
    obtain ⟨segments, hcalls⟩ := exists_drawLines hlines
    rw [hcalls, Canvas.after_drawLines] at hpath hsegments
    rw [Array.empty_append] at hsegments
    rw [hsegments]
    exact ⟨hpath, hcalls⟩
  · intro h
    obtain ⟨earlier, segments, hcalls⟩ := exists_last_clear (hcleared.mp h)
    -- the clearing leaves nothing of what was there before
    rw [hcalls, Canvas.after_append, Canvas.after_push, Canvas.after_drawLines] at hpath hsegments
    rw [SurfaceCall.onto, Array.empty_append] at hpath hsegments
    rw [hsegments]
    exact ⟨hpath, earlier, hcalls⟩

/-! ## Histories -/

/-- What can be asked of a workspace in use. -/
inductive Turn where
  /-- Run a text that is not drawn anywhere. -/
  | run (text : String)
  /-- Run a text that is drawn on the surface. -/
  | draw (text : String)
  /-- Put the turtle back home and forget the path. -/
  | reset

/-- What has happened: a text was run, with this report, or there was a reset. -/
inductive Event where
  | ran (report : Report)
  | reset

/-- A workspace in use, with the surface and all that has happened. -/
structure History where
  workspace : Workspace
  canvas : Canvas
  events : List Event

namespace Event

/-- The event left nothing of the path before it. -/
def wipes : Event → Bool
  | .ran report => report.cleared
  | .reset => true

/-- The segments that the event reported. -/
def segments : Event → List (Segment Float)
  | .ran report => report.segments.toList
  | .reset => []

/-- The events from the last one on that wipes the path; all of them if none does. -/
def recent : List Event → List Event
  | [] => []
  | e :: es => if es.any wipes then recent es else e :: es

theorem recent_concat (es : List Event) (e : Event) :
    recent (es ++ [e]) = if e.wipes then [e] else recent es ++ [e] := by
  induction es with
  | nil => simp [recent]
  | cons e' es ih =>
    cases hwipes : e.wipes with
    | true => simp [recent, ih, hwipes]
    | false =>
      cases hlater : es.any wipes with
      | true => simp [recent, ih, hwipes, hlater]
      | false => simp [recent, hwipes, hlater]

end Event

namespace History

/-- A workspace that has not been used, with an empty surface. -/
def start (config : Config) (palette : Palette) : History :=
  ⟨.new config palette, #[], []⟩

/-- The history after one more turn. -/
def take (s : History) : Turn → History
  | .run text =>
    let o := s.workspace.interpret text
    ⟨o.workspace, s.canvas, s.events ++ [.ran o.report]⟩
  | .draw text =>
    let o := s.workspace.interpret text
    ⟨o.workspace, s.canvas.after o.calls, s.events ++ [.ran o.report]⟩
  | .reset => ⟨s.workspace.reset, s.canvas, s.events ++ [.reset]⟩

/-- The history after some more turns. -/
def after (s : History) (turns : List Turn) : History :=
  turns.foldl take s

/-- The path is what the recent events reported. -/
def PathReported (s : History) : Prop :=
  s.workspace.path.toList = (Event.recent s.events).flatMap Event.segments

theorem PathReported.ran {s : History} (h : s.PathReported) (text : String) (canvas : Canvas) :
    PathReported ⟨(s.workspace.interpret text).workspace, canvas,
      s.events ++ [.ran (s.workspace.interpret text).report]⟩ := by
  have hagrees := interpret_agrees s.workspace text
  unfold PathReported
  rw [Event.recent_concat]
  cases hcleared : (s.workspace.interpret text).report.cleared with
  | true => simp [Event.wipes, hcleared, Event.segments, (hagrees.replaced hcleared).1]
  | false =>
    rw [(hagrees.kept hcleared).1, Array.toList_append, h]
    simp [Event.wipes, hcleared, Event.segments]

theorem PathReported.take {s : History} (h : s.PathReported) (t : Turn) :
    (s.take t).PathReported := by
  cases t with
  | run text => exact h.ran text s.canvas
  | draw text => exact h.ran text _
  | reset =>
    unfold PathReported History.take
    rw [Event.recent_concat]
    rfl

theorem PathReported.after {s : History} (h : s.PathReported) (turns : List Turn) :
    (s.after turns).PathReported := by
  induction turns generalizing s with
  | nil => exact h
  | cons t turns ih => exact ih (h.take t)

/-- A surface that shows the path goes on doing so if every text is drawn on it. -/
theorem canvas_eq_path {s : History} (h : s.canvas = s.workspace.path) (texts : List String) :
    (s.after (texts.map .draw)).canvas = (s.after (texts.map .draw)).workspace.path := by
  induction texts generalizing s with
  | nil => exact h
  | cons text texts ih =>
    apply ih
    obtain ⟨hpath, -⟩ := interpret_recorded s.workspace text
    rw [take, h, hpath]

end History

/-- The records of a drawing never disagree. Whatever has been asked of a workspace, the records of
the next text agree; the path consists of the segments that were reported since it was last wiped;
and a surface that every text is drawn on shows the path. -/
theorem records_agree (config : Config) (palette : Palette) :
    (∀ turns : List Turn,
      let s := (History.start config palette).after turns
      (∀ text, (s.workspace.interpret text).Agrees s.workspace.path) ∧
        s.workspace.path.toList = (Event.recent s.events).flatMap Event.segments) ∧
    ∀ texts : List String,
      let s := (History.start config palette).after (texts.map .draw)
      s.canvas = s.workspace.path := by
  constructor
  · intro turns s
    have hstart : (History.start config palette).PathReported := rfl
    exact ⟨fun text => interpret_agrees s.workspace text, hstart.after turns⟩
  · intro texts
    exact History.canvas_eq_path rfl texts

end TurtleGraphics
