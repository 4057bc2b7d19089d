import TurtleGraphics.Proofs.Lines
import TurtleGraphics.Proofs.Sessions
import TurtleGraphics.Proofs.Writing

namespace TurtleGraphics.CommandLine

/-! # How a job ends

A job that cannot read its input writes nothing. A job that can writes its files in order, whatever
problems the program had, and stops only at a file that cannot be written. It says so, with one
exception: the end of the plotter commands is kept back until their buffer is given up, and if only
this end does not have room, then nobody learns of it.

* `Job.run_of_empty`, `Job.run_of_bad_line`, `Job.exists_run_eq_of_unreadable`: the ways in which a
  job is refused.
* `Saved`: what is in the files after some of them were written. `Progress.saved` shows that it holds
  of files that were written one after the other.
* `EndsCleanly`: the two ways in which a job should end, with its exit code.
* `Job.LosesPlot`: the condition under which a job ends otherwise. `PlotCut` says how: with success, and
  with plotter commands that are not all there.

`execute_endsCleanly_iff` is about all command lines that ask for a job, all files and all input.
`plot_lost_on_full_device` is a job that reports success and has written nothing.
-/

theorem Task.texts?_run {fs : FileSystem} {path text : String}
    (h : fs.read path = .ok text.toUTF8) (stdin : ByteArray) :
    (Task.run path).texts? fs stdin = some [text] := by
  simp only [texts?, h, programText, Text.fromUTF8?_toUTF8]
  rfl

/-! ## Jobs that are refused -/

namespace Job

variable {j : Job} {fs : FileSystem} {stdin : ByteArray}

theorem run_of_empty (hsize : ¬ (0 < j.settings.width ∧ 0 < j.settings.height)) :
    j.run fs stdin = .of fs "" (some .emptySurface) := by
  rw [run, Session.start_eq, if_neg hsize]

/-- A line that is no text ends a job in the middle of its dialogue. -/
theorem run_of_bad_line (hsize : 0 < j.settings.width ∧ 0 < j.settings.height)
    (htask : j.task = .repl) {before rest : List ByteArray} {bad : ByteArray} {texts : List String}
    (hstdin : Text.byteLines stdin = before ++ bad :: rest) (hbefore : Decoded before texts)
    (hbad : Text.decodeLine? bad = none) :
    j.run fs stdin =
      .of fs (conversation ((Session.fresh j.settings).exchanges texts) ++ prompt)
        (some .invalidInput) := by
  have hlines := Dialogue.lines_eq_error ⟨Session.fresh j.settings, ""⟩ hbefore hbad rest
  rw [← hstdin] at hlines
  simp only [run, Session.start_eq, if_pos hsize, htask, hlines, String.empty_append]

theorem exists_run_eq_of_unreadable (htexts : j.task.texts? fs stdin = none) :
    ∃ stdout f, j.run fs stdin = .of fs stdout (some f) := by
  by_cases hsize : 0 < j.settings.width ∧ 0 < j.settings.height
  · cases htask : j.task with
    | run path =>
      rw [htask] at htexts
      cases hprogram : programText path (fs.read path) with
      | ok text => simp [Task.texts?, hprogram, Except.toOption] at htexts
      | error f =>
        refine ⟨"", f, ?_⟩
        simp only [run, Session.start_eq, if_pos hsize, htask, hprogram]
    | repl =>
      rw [htask] at htexts
      obtain ⟨before, texts, bad, rest, hstdin, hbefore, hbad⟩ := exists_bad_line htexts
      exact ⟨_, _, run_of_bad_line hsize htask hstdin hbefore hbad⟩
  · exact ⟨_, _, run_of_empty hsize⟩

end Job

/-! ## Results -/

namespace Result

@[simp] theorem files_of (fs : FileSystem) (stdout : String) (f : Option Failure) :
    (Result.of fs stdout f).files = fs := by
  cases f <;> rfl

@[simp] theorem stdout_of (fs : FileSystem) (stdout : String) (f : Option Failure) :
    (Result.of fs stdout f).stdout = stdout := by
  cases f <;> rfl

theorem exitCode_of_le_one (fs : FileSystem) (stdout : String) (f : Option Failure) :
    (Result.of fs stdout f).exitCode ≤ 1 := by
  cases f <;> simp [Result.of]

theorem exitCode_of_eq_zero_iff {fs : FileSystem} {stdout : String} {f : Option Failure} :
    (Result.of fs stdout f).exitCode = 0 ↔ f = none := by
  cases f <;> simp [Result.of]

end Result

theorem Task.problems?_eq_none_iff {t : Task} {es : List Exchange} :
    t.problems? es = none ↔ t = .repl ∨ ∀ e ∈ es, e.report.problems = #[] := by
  cases t <;> simp [problems?, List.findSome?_eq_none_iff, failure?]

/-! ## What is in the files -/

/-- Of some files, given by their paths and contents, those in `done` were written, and then there were
none left or one that could not be. Two of them can have the same place, under different paths or the
same; then what is there is the later one. -/
structure Saved (fs : FileSystem) (done left : List (String × String)) (fs' : FileSystem) : Prop where
  complete : ∀ f ∈ done, fs.CanWrite f.1 f.2
  stops : ∀ f ∈ left.head?, ¬ fs.CanWrite f.1 f.2
  /-- All of what was written is there. -/
  written : ∀ before path text after target, done = before ++ (path, text) :: after →
    fs.target? path = some target →
    (∀ f ∈ after ++ left.head?.toList, fs.target? f.1 ≠ some target) →
    fs'.file? target = some text.toUTF8
  /-- Of what could not be written there is as much as had room, if there was a place for it. -/
  begun : ∀ f ∈ left.head?, ∀ target, fs.target? f.1 = some target →
    fs'.file? target = some (fs.surroundings.take target f.2.toUTF8).1
  /-- No other file was made or changed. -/
  untouched : ∀ path, (∀ f ∈ done ++ left.head?.toList, fs.target? f.1 ≠ some path) →
    fs'.file? path = fs.file? path

theorem Progress.saved {fs fs' : FileSystem} {os done left : List Output}
    (h : Progress fs os done left fs') :
    Saved fs (done.map Output.named) (left.map Output.named) fs' where
  complete := by
    rintro f hf
    obtain ⟨o, ho, rfl⟩ := List.mem_map.mp hf
    exact h.complete o ho
  stops := by
    rw [List.head?_map]
    rintro f hf
    obtain ⟨o, ho, rfl⟩ := Option.mem_map.mp hf
    exact h.stops o ho
  written := by
    intro before path text after target hdone htarget hafter
    obtain ⟨before, rest, rfl, -, hrest⟩ := List.map_eq_append_iff.mp hdone
    obtain ⟨o, rest, rfl, ho, rfl⟩ := List.map_eq_cons_iff.mp hrest
    obtain ⟨rfl, rfl⟩ := Prod.mk.inj ho
    -- all of the text had room
    obtain ⟨target', htarget', hroom⟩ := h.complete o (by simp)
    obtain rfl : target' = target := Option.some.inj (htarget'.symm.trans htarget)
    rw [h.files_eq, List.append_assoc, List.cons_append, FileSystem.file?_after htarget,
      Surroundings.take_of_complete hroom]
    intro o' ho'
    refine hafter o'.named ?_
    rw [List.head?_map, Option.toList_map, ← List.map_append]
    exact List.mem_map_of_mem ho'
  begun := by
    rw [List.head?_map]
    intro f hf target htarget
    obtain ⟨o, ho, rfl⟩ := Option.mem_map.mp hf
    rw [h.files_eq, Option.mem_def.mp ho]
    exact FileSystem.file?_after htarget (by simp)
  untouched := by
    intro path hpath
    rw [h.files_eq]
    refine FileSystem.file?_after_of_ne ?_
    intro o ho
    refine hpath o.named ?_
    rw [List.head?_map, Option.toList_map, ← List.map_append]
    exact List.mem_map_of_mem ho

/-! ## All jobs -/

/-- How a job should end: what it does to the files, and what its exit code says about it. -/
structure EndsCleanly (j : Job) (fs : FileSystem) (stdin : ByteArray) (r : Result) : Prop where
  /-- Without a surface to draw on, or with input that cannot be read, nothing is written. -/
  refused : ¬ (0 < j.settings.width ∧ 0 < j.settings.height) ∨ j.task.texts? fs stdin = none →
    r.exitCode = 1 ∧ r.files = fs
  /-- The lines before one that is no text are answered, and one more is asked for. -/
  answered : 0 < j.settings.width ∧ 0 < j.settings.height → j.task = .repl →
    j.task.texts? fs stdin = none → ∃ before texts bad rest,
      Text.byteLines stdin = before ++ bad :: rest ∧ Decoded before texts ∧
        Text.decodeLine? bad = none ∧
        r.stdout = conversation ((Session.fresh j.settings).exchanges texts) ++ prompt
  /-- Otherwise the drawing, the report and the plotter commands of the final session are written in
  this order, as far as they are asked for, up to the first that cannot be, and no other files change.
  The exit code tells whether all were written and a whole program had no problems. -/
  saved : 0 < j.settings.width ∧ 0 < j.settings.height → ∀ texts,
    j.task.texts? fs stdin = some texts →
    let x := (Session.fresh j.settings).after texts
    let w := x.workspace
    let plotter := Plotter.fit Plotter.standard.area w.config.width w.config.height
    ∃ done left,
      done ++ left =
        (j.settings.svg.map fun path =>
            (path, Svg.document w.path.toList w.config.width w.config.height)).toList ++
          (j.settings.history.map fun path =>
            (path, x.transcript.render w.turtle.pose w.turtle.pen)).toList ++
          (j.settings.plot.map fun path =>
            (path, plotText (plotter.ops w.config.home w.path.toList).toList)).toList ∧
      Saved fs done left r.files ∧ r.exitCode ≤ 1 ∧
      (r.exitCode = 0 ↔ left = [] ∧ (j.task = .repl ∨
        ∀ e ∈ (Session.fresh j.settings).exchanges texts, e.report.problems = #[]))

/-- The drawing and the report can be written, and of the plotter commands what is handed over before
their buffer is given up, but not all. -/
def Session.LosesPlot (x : Session) (s : Settings) (fs : FileSystem) : Prop :=
  (∀ path ∈ s.svg, fs.CanWrite path x.drawing) ∧
    (∀ path ∈ s.history, fs.CanWrite path x.report) ∧
      ∃ path ∈ s.plot, fs.CanWrite path x.plotterBuffer.handedOver ∧
        ¬ fs.CanWrite path x.plotterCommands

/-- All goes well up to the end of the plotter commands, which does not have room. -/
def Job.LosesPlot (j : Job) (fs : FileSystem) (stdin : ByteArray) : Prop :=
  (0 < j.settings.width ∧ 0 < j.settings.height) ∧
    ∃ texts, j.task.texts? fs stdin = some texts ∧
      (j.task = .repl ∨
        ∀ e ∈ (Session.fresh j.settings).exchanges texts, e.report.problems = #[]) ∧
      ((Session.fresh j.settings).after texts).LosesPlot j.settings fs

/-- The job ends with success and without a complaint, and yet of the plotter commands there is only
what the limit of their file allows. What is missing was in the buffer. -/
structure PlotCut (j : Job) (fs : FileSystem) (stdin : ByteArray) (r : Result) : Prop where
  exitCode : r.exitCode = 0
  stderr : r.stderr = ""
  file : ∃ texts path target limit, j.task.texts? fs stdin = some texts ∧
    j.settings.plot = some path ∧ fs.target? path = some target ∧
    fs.surroundings.limit target = some limit ∧
    let commands := ((Session.fresh j.settings).after texts).plotterCommands
    r.files.file? target = some (commands.toUTF8.extract 0 limit.size) ∧
      limit.size < commands.utf8ByteSize ∧
        commands.utf8ByteSize ≤ limit.size + Buffer.capacity

/-- The end of the plot is lost if and only if all that is handed over can be written, but not all
files. -/
theorem Session.losesPlot_iff {x : Session} {s : Settings} {fs : FileSystem} :
    x.LosesPlot s fs ↔ (∀ o ∈ x.outputs s, fs.CanWrite o.path o.buffer.handedOver) ∧
      ¬ ∀ o ∈ x.outputs s, fs.CanWrite o.path o.buffer.text := by
  simp only [LosesPlot, forall_mem_outputs, Buffer.handedOver_whole, Buffer.text_whole,
    x.holds_plotterBuffer.text_eq]
  constructor
  · intro ⟨hsvg, hhistory, path, hplot, hover, hlost⟩
    refine ⟨⟨hsvg, hhistory, ?_⟩, ?_⟩
    · intro path' hplot'
      obtain rfl : path = path' := Option.some.inj (hplot.symm.trans hplot')
      exact hover
    · intro ⟨_, _, hall⟩
      exact hlost (hall path hplot)
  · intro ⟨⟨hsvg, hhistory, hover⟩, hlost⟩
    have hpath : ∃ path ∈ s.plot, ¬ fs.CanWrite path x.plotterCommands := by
      by_contra hall
      push Not at hall
      exact hlost ⟨hsvg, hhistory, hall⟩
    rcases hpath with ⟨path, hplot, hpath⟩
    exact ⟨hsvg, hhistory, path, hplot, hover path hplot, hpath⟩

namespace Job

variable {j : Job} {fs : FileSystem} {stdin : ByteArray} {r : Result}

theorem endsCleanly (hkeeps : ¬ j.LosesPlot fs stdin) : EndsCleanly j fs stdin (j.run fs stdin) where
  refused := by
    rintro (hsize | htexts)
    · rw [run_of_empty hsize]
      exact ⟨rfl, rfl⟩
    · rcases exists_run_eq_of_unreadable htexts with ⟨stdout, f, hrun⟩
      rw [hrun]
      exact ⟨rfl, rfl⟩
  answered := by
    intro hsize htask htexts
    rw [htask] at htexts
    rcases exists_bad_line htexts with ⟨before, texts, bad, rest, hstdin, hbefore, hbad⟩
    refine ⟨before, texts, bad, rest, hstdin, hbefore, hbad, ?_⟩
    rw [run_of_bad_line hsize htask hstdin hbefore hbad, Result.stdout_of]
  saved := by
    intro hsize texts htexts x w plotter
    rcases exists_progress fs (x.kept_eq_empty j.settings) with ⟨done, left, hprogress, hreported⟩
    have hrun := run_eq_conclude hsize htexts
    dsimp only at hrun
    simp only [hrun, conclude, Result.files_of]
    refine ⟨done.map Output.named, left.map Output.named, ?_, hprogress.saved,
      Result.exitCode_of_le_one _ _ _, ?_⟩
    · rw [← List.map_append, ← hprogress.outputs_eq]
      exact x.files_eq j.settings
    · rw [Result.exitCode_of_eq_zero_iff, Option.or_eq_none_iff, hreported,
        Task.problems?_eq_none_iff, List.map_eq_nil_iff]
      refine and_congr_left fun hproblems => or_iff_left ?_
      -- a file that is left, and of which no error is reported, is the plot that loses its end
      rintro ⟨o, rfl, hover⟩
      have hloses := Session.losesPlot_iff.mpr (hprogress.handedOver hover)
      exact hkeeps ⟨hsize, texts, htexts, hproblems, hloses⟩

theorem LosesPlot.plotCut (h : j.LosesPlot fs stdin) : PlotCut j fs stdin (j.run fs stdin) := by
  rcases h with ⟨hsize, texts, htexts, hproblems, hloses⟩
  have hall := (Session.losesPlot_iff.mp hloses).1
  rcases hloses with ⟨-, -, path, hplot, hover, hlost⟩
  have hrun := run_eq_conclude hsize htexts
  dsimp only at hrun
  rw [conclude, writeAll_eq_after hall, Task.problems?_eq_none_iff.mpr hproblems] at hrun
  rw [hrun]
  let x := (Session.fresh j.settings).after texts
  rcases x.holds_plotterBuffer.exists_limit hover hlost with
    ⟨target, limit, htarget, hlimit, hcut, hless, hmore⟩
  refine ⟨rfl, rfl, texts, path, target, limit, htexts, hplot, htarget, hlimit, ?_, hless, hmore⟩
  -- the plotter commands are written last
  let o : Output := ⟨path, x.plotterBuffer⟩
  have htarget' : fs.target? o.path = some target := htarget
  rw [Result.files_of, x.outputs_of_plot hplot, FileSystem.file?_after htarget' (by simp),
    x.holds_plotterBuffer.text_eq, hcut]

theorem LosesPlot.not_endsCleanly (h : j.LosesPlot fs stdin) (hr : r.exitCode = 0) :
    ¬ EndsCleanly j fs stdin r := by
  intro hclean
  rcases h with ⟨hsize, texts, htexts, -, -, -, path, hplot, -, hlost⟩
  rcases hclean.saved hsize texts htexts with ⟨done, left, hfiles, hsaved, -, hexit⟩
  obtain ⟨rfl, -⟩ := hexit.mp hr
  -- nothing was left, and so the plotter commands were written
  refine hlost (hsaved.complete (path, _) ?_)
  rw [List.append_nil] at hfiles
  rw [hfiles, Option.mem_def.mp hplot]
  exact List.mem_append_right _ List.mem_cons_self

end Job

/-- A command line that asks for a job ends cleanly, whatever the files and the input are, unless it
loses the end of the plotter commands. Then it ends with success all the same. -/
theorem execute_endsCleanly_iff {args : List String} {j : Job}
    (hargs : Request.read args = .ok (.job j)) (fs : FileSystem) (stdin : ByteArray) :
    ∃ r, execute args fs stdin = .ok r ∧ (EndsCleanly j fs stdin r ↔ ¬ j.LosesPlot fs stdin) ∧
      (j.LosesPlot fs stdin → PlotCut j fs stdin r) := by
  refine ⟨j.run fs stdin, by simp only [execute, hargs], ⟨?_, Job.endsCleanly⟩,
    Job.LosesPlot.plotCut⟩
  intro hclean hloses
  exact hloses.not_endsCleanly hloses.plotCut.exitCode hclean

/-- A command line that asks for a drawing in a directory that is not there: the plotter commands are
not written either. -/
theorem execute_endsCleanly_iff_unwritable :
    let args := ["run", "p", "--svg", "no/a", "--plot", "b"]
    let fs : FileSystem := ⟨[(["p"], "home".toUTF8)]⟩
    Request.read args = .ok (.job ⟨⟨1200, 900, .named, some "no/a", none, some "b"⟩, .run "p"⟩) ∧
      ∃ r, execute args fs "".toUTF8 = .ok r ∧ r.exitCode = 1 ∧
        ∀ path, r.files.file? path = fs.file? path := by
  intro args fs
  have hargs : Request.read args =
      .ok (.job ⟨⟨1200, 900, .named, some "no/a", none, some "b"⟩, .run "p"⟩) := by decide +kernel
  have hsize : (0 : Float) < 1200 ∧ (0 : Float) < 900 := by decide +kernel
  have hread : fs.read "p" = .ok "home".toUTF8 := by cbv
  have htarget : fs.target? "no/a" = none := by decide +kernel
  have hunwritable : ∀ text, ¬ fs.CanWrite "no/a" text := by
    rintro text ⟨target, hpath, -⟩
    rw [htarget] at hpath
    cases hpath
  refine ⟨hargs, ?_⟩
  obtain ⟨r, hr, hclean, -⟩ := execute_endsCleanly_iff hargs fs "".toUTF8
  refine ⟨r, hr, ?_⟩
  have hkeeps : ¬ Job.LosesPlot ⟨⟨1200, 900, .named, some "no/a", none, some "b"⟩, .run "p"⟩ fs
      "".toUTF8 := by
    rintro ⟨-, texts, -, -, hsvg, -⟩
    exact hunwritable _ (hsvg "no/a" rfl)
  obtain ⟨done, left, hfiles, hsaved, hle, hexit⟩ := (hclean.mpr hkeeps).saved hsize _
    (Task.texts?_run hread _)
  -- the drawing comes first, and so nothing is written
  cases done with
  | cons f done =>
    obtain ⟨rfl, -⟩ := List.cons.inj hfiles
    exact absurd (hsaved.complete _ List.mem_cons_self) (hunwritable _)
  | nil =>
    rw [List.nil_append] at hfiles
    subst hfiles
    constructor
    · have hne : r.exitCode ≠ 0 := fun h => List.cons_ne_nil _ _ (hexit.mp h).1
      omega
    · intro path
      refine hsaved.untouched path ?_
      intro f hf
      obtain rfl := List.mem_singleton.mp hf
      simp [htarget]

/-- A job that writes its plotter commands to a device that is always full ends with success, and
nothing is written. -/
theorem plot_lost_on_full_device :
    let args := ["run", "p", "--plot", "/dev/full"]
    let fs : FileSystem := ⟨[(["p"], "home".toUTF8)]⟩
    ∃ j r, Request.read args = .ok (.job j) ∧ execute args fs "".toUTF8 = .ok r ∧
      r.exitCode = 0 ∧ r.stderr = "" ∧ r.files.file? ["dev", "full"] = some .empty ∧
        ¬ EndsCleanly j fs "".toUTF8 r := by
  intro args fs
  let j : Job := ⟨⟨1200, 900, .named, none, none, some "/dev/full"⟩, .run "p"⟩
  obtain ⟨x, hx⟩ : ∃ x, (Session.fresh j.settings).after ["home"] = x := ⟨_, rfl⟩
  have hargs : Request.read args = .ok (.job j) := by decide +kernel
  have hsize : 0 < j.settings.width ∧ 0 < j.settings.height := by decide +kernel
  have hread : fs.read "p" = .ok "home".toUTF8 := by cbv
  have hproblems : ∀ e ∈ (Session.fresh j.settings).exchanges ["home"], e.report.problems = #[] := by
    decide +kernel
  have hbuffer : x.plotterBuffer = ⟨#[], "moveto 0 90\npendown\nmoveto 0 90\npenup\n"⟩ := by
    rw [← hx]
    decide +kernel
  have htarget : fs.target? "/dev/full" = some ["dev", "full"] := by decide +kernel
  -- nothing is handed over before the buffer is given up, and then there is no room for it
  have hover : fs.CanWrite "/dev/full" x.plotterBuffer.handedOver := by
    rw [hbuffer]
    exact ⟨["dev", "full"], htarget, Surroundings.complete_empty⟩
  have hlost : ¬ fs.CanWrite "/dev/full" x.plotterCommands := by
    rintro ⟨target, hpath, hroom⟩
    obtain rfl : target = ["dev", "full"] := Option.some.inj (hpath.symm.trans htarget)
    rw [← x.holds_plotterBuffer.text_eq, hbuffer] at hroom
    revert hroom
    decide
  have hloses : j.LosesPlot fs "".toUTF8 := by
    refine ⟨hsize, ["home"], Task.texts?_run hread _, .inr hproblems, ?_⟩
    rw [hx]
    refine ⟨?_, ?_, "/dev/full", rfl, hover, hlost⟩
    · intro path hpath
      cases hpath
    · intro path hpath
      cases hpath
  have hcut := hloses.plotCut
  refine ⟨j, j.run fs "".toUTF8, hargs, by simp only [execute, hargs], hcut.exitCode, hcut.stderr, ?_,
    hloses.not_endsCleanly hcut.exitCode⟩
  obtain ⟨texts, path, target, limit, -, hplot, hpath, hlimit, hfile, -⟩ := hcut.file
  obtain rfl : "/dev/full" = path := Option.some.inj hplot
  obtain rfl : target = ["dev", "full"] := Option.some.inj (hpath.symm.trans htarget)
  obtain rfl : ⟨0, .noSpace⟩ = limit := Option.some.inj hlimit
  rw [hfile, ByteArray.extract_same]

end TurtleGraphics.CommandLine
