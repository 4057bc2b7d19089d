import TurtleGraphics.Proofs.Endings
import TurtleGraphics.Proofs.Lines

namespace TurtleGraphics

open Text (tokens dropLineEnd)

/-! # The two front ends

A program that is run as a whole draws what it draws when its lines are entered one by one, as long
as each line can stand alone.

* `Execution.run_append`: a program is carried out up to the end of a line and then from there.
* `Session.IsOutcome`: what comes of a text is what comes of some texts one after the other.
  `Session.isOutcome_lines` shows this for a program and its lines, by induction over the lines.
* `writeAll_sameApart`: two jobs that differ in one file leave the others the same.

`front_ends_agree` is about whole jobs.
-/

/-! ## Line by line -/

/-- A line that can stand alone: it is read without a fault, and it does not begin with an input,
which would belong to the line before. -/
structure StandsAlone (line : String) : Prop where
  fault : (Program.read line).fault = none
  fresh : StartsFresh (tokens line)

/-- A program is carried out up to the end of a line, and then the rest from where that ended. -/
theorem Execution.run_append (palette : Palette) (e : Execution) {a b : String}
    (ha : (Program.read a).fault = none) (hb : StartsFresh (tokens b)) :
    e.run palette (Program.read (a ++ "\n" ++ b)) =
      let first := e.run palette (Program.read a)
      first.andThen (afterLines a)
        ((start first.turtle first.path).run palette (Program.read b)) := by
  obtain ⟨before, hbefore⟩ := exists_sentence_of_fault_none ha
  obtain ⟨block, hblock⟩ := exists_block b
  rw [read_append ha hb, hbefore.read_eq]
  exact run_onTop (afterLines a) palette e before hblock

theorem startsFresh_line_append {a b : String} (ha : StartsFresh (tokens a))
    (hb : StartsFresh (tokens b)) : StartsFresh (tokens (a ++ "\n" ++ b)) := by
  rw [tokens_append]
  exact ha.append (hb.mapSpan (afterLines a))

/-- A carriage return at the end of a line is a blank like any other. -/
theorem tokens_carriageReturn (cs : List Char) :
    tokens (String.ofList (cs ++ ['\r'])) = tokens (String.ofList cs) := by
  rw [Text.tokens_eq_tokensAt, Text.tokens_eq_tokensAt, String.toList_ofList, String.toList_ofList,
    Text.tokensAt_append_blank (by decide), Text.Lexes.nil.tokensAt_eq, List.append_nil]

theorem tokens_dropLineEnd (cs : List Char) :
    tokens (String.ofList (dropLineEnd (cs ++ ['\n']))) = tokens (String.ofList cs) := by
  rcases Text.dropLineEnd_line cs with hline | hline
  · rw [hline]
  · conv => rhs; rw [hline]
    rw [tokens_carriageReturn]

theorem StandsAlone.congr {a b : String} (h : StandsAlone a) (htokens : tokens a = tokens b) :
    StandsAlone b where
  fault := by
    have hfault := h.fault
    rwa [Program.read, htokens] at hfault
  fresh := htokens ▸ h.fresh

theorem interpret_congr (w : Workspace) {a b : String} (htokens : tokens a = tokens b) :
    w.interpret a = w.interpret b := by
  simp only [Workspace.interpret, Program.read, htokens]

/-- What a text and then another do, the text and a line break and the other text do. -/
theorem interpret_line (w : Workspace) {a b : String} (ha : (Program.read a).fault = none)
    (hb : StartsFresh (tokens b)) :
    let first := w.interpret a
    let second := first.workspace.interpret b
    let both := w.interpret (a ++ "\n" ++ b)
    both.workspace = second.workspace ∧
      both.report.output = first.report.output ++ second.report.output := by
  simp only [Workspace.interpret, Execution.run_append _ _ ha hb]
  exact ⟨rfl, rfl⟩

namespace CommandLine

namespace Session

/-- What comes of a text in a session is what comes of some texts, one after the other: the workspace
afterwards, and the answers. -/
structure IsOutcome (x : Session) (o : Outcome) (texts : List String) : Prop where
  workspace : o.workspace = (x.after texts).workspace
  output : o.report.output.toList = (x.exchanges texts).flatMap (·.report.output.toList)

theorem isOutcome_singleton (x : Session) (text : String) :
    x.IsOutcome (x.workspace.interpret text) [text] where
  workspace := by rw [after_cons, after_nil, workspace_enter]
  output := by simp [exchanges, report_enter]

/-- One more line in front. -/
theorem IsOutcome.cons {x : Session} {a line b : String} {texts : List String}
    (ha : StandsAlone a) (hline : tokens line = tokens a) (hb : StartsFresh (tokens b))
    (h : (x.enter line).1.IsOutcome ((x.enter line).1.workspace.interpret b) texts) :
    x.IsOutcome (x.workspace.interpret (a ++ "\n" ++ b)) (line :: texts) := by
  obtain ⟨hworkspace, houtput⟩ := interpret_line x.workspace ha.fault hb
  have hfirst : x.workspace.interpret line = x.workspace.interpret a :=
    interpret_congr _ hline
  have hrest := h.workspace
  have hanswers := h.output
  rw [workspace_enter, hfirst] at hrest hanswers
  constructor
  · rw [hworkspace, hrest, after_cons]
  · rw [houtput, Array.toList_append, hanswers, exchanges, List.flatMap_cons, report_enter, hfirst]

/-- What comes of a program is what comes of its lines. -/
theorem isOutcome_lines {text : String} (h : ∀ line ∈ Text.lines text, StandsAlone line) :
    StartsFresh (tokens text) ∧
      ∀ x : Session, x.IsOutcome (x.workspace.interpret text) (Text.lines text) := by
  obtain ⟨cs, rfl⟩ : ∃ cs, text = String.ofList cs := ⟨_, String.ofList_toList.symm⟩
  induction cs using Text.splitAfter_induction '\n' with
  | nil =>
    have htokens : tokens "" = [] := by
      rw [Text.tokens_eq_tokensAt, String.toList_empty, Text.Lexes.nil.tokensAt_eq]
    refine ⟨htokens ▸ startsFresh_nil, fun x => ?_⟩
    rw [String.ofList_nil, Text.lines_empty, interpret_of_tokens_eq_nil _ htokens]
    exact ⟨rfl, rfl⟩
  | last cs hmark hne =>
    rw [Text.lines_of_not_mem hmark hne] at h ⊢
    have hline := h _ List.mem_cons_self
    exact ⟨hline.fresh, fun x => x.isOutcome_singleton _⟩
  | piece cs ds hmark ih =>
    rw [Text.lines_append hmark] at h ⊢
    obtain ⟨hline, hrest⟩ := List.forall_mem_cons.mp h
    obtain ⟨hfresh, houtcome⟩ := ih hrest
    -- a carriage return before the end is a blank in the program and no part of the line
    have htokens := tokens_dropLineEnd cs
    have halone := hline.congr htokens
    have htext : String.ofList (cs ++ '\n' :: ds) = String.ofList cs ++ "\n" ++ String.ofList ds := by
      rw [← String.toList_inj]
      simp
    rw [htext]
    exact ⟨startsFresh_line_append halone.fresh hfresh,
      fun x => .cons halone htokens hfresh (houtcome _)⟩

end Session

/-! ## The files -/

/-- The directories are the same, and so are the files, apart from one. -/
structure SameApart (off : Option (List String)) (fs fs' : FileSystem) : Prop where
  directories : fs.SameDirectories fs'
  files : ∀ path, off ≠ some path → fs'.file? path = fs.file? path

theorem SameApart.put {off : Option (List String)} {fs fs' : FileSystem} (h : SameApart off fs fs')
    {target : List String} (hslot : fs.IsSlot target) (hslot' : fs'.IsSlot target)
    {content content' : ByteArray} (hcontent : content = content' ∨ off = some target) :
    SameApart off (fs.put target content) (fs'.put target content') where
  directories := by
    refine ⟨h.directories.surroundings, fun path => ?_⟩
    rw [(hslot'.put content').hasDirectory path, (hslot.put content).hasDirectory path,
      h.directories.hasDirectory path]
  files path hpath := by
    by_cases hpathTarget : path = target
    · subst hpathTarget
      rw [FileSystem.file?_put_self, FileSystem.file?_put_self, hcontent.resolve_right hpath]
    · rw [FileSystem.file?_put_of_ne _ hpathTarget, FileSystem.file?_put_of_ne _ hpathTarget,
        h.files path hpath]

/-- Two files that are asked for are the same, or they go to the one place that does not matter, and
both can be written or neither. -/
def Output.Alike (off : Option (List String)) (fs : FileSystem) (o o' : Output) : Prop :=
  o = o' ∨ (o.path = o'.path ∧ off = fs.target? o.path ∧
    (fs.CanWrite o.path o.buffer.handedOver ↔ fs.CanWrite o'.path o'.buffer.handedOver))

theorem Output.Alike.congr {off : Option (List String)} {fs fs' : FileSystem} {o o' : Output}
    (h : o.Alike off fs o') (hdirectories : fs.SameDirectories fs') : o.Alike off fs' o' := by
  rcases h with rfl | ⟨hpath, hoff, hwritten⟩
  · exact .inl rfl
  · refine .inr ⟨hpath, ?_, ?_⟩
    · rw [hoff, hdirectories.target?_eq]
    · rw [hdirectories.canWrite_iff, hdirectories.canWrite_iff, hwritten]

theorem SameApart.write {off : Option (List String)} {fs fs' : FileSystem}
    (h : SameApart off fs fs') {o o' : Output} (ho : o.Alike off fs o') :
    SameApart off (fs.write o).1 (fs'.write o').1 ∧
      ((fs.write o).2 = none ↔ (fs'.write o').2 = none) := by
  have hpath : o.path = o'.path := by
    rcases ho with rfl | ⟨hpath, -⟩
    · rfl
    · exact hpath
  constructor
  · have htarget' := h.directories.target?_eq o'.path
    cases htarget : fs.target? o.path with
    | none =>
      rw [← hpath, htarget, hpath] at htarget'
      obtain ⟨e, he⟩ := FileSystem.write_of_target?_eq_none htarget
      obtain ⟨e', he'⟩ := FileSystem.write_of_target?_eq_none htarget'
      rw [he, he']
      exact h
    | some target =>
      rw [← hpath, htarget, hpath] at htarget'
      rw [FileSystem.write_of_target? htarget, FileSystem.write_of_target? htarget',
        h.directories.surroundings]
      refine h.put (FileSystem.isSlot_of_target? htarget) (FileSystem.isSlot_of_target? htarget') ?_
      rcases ho with rfl | ⟨-, hoff, -⟩
      · exact .inl rfl
      · exact .inr (hoff.trans htarget)
  · rw [FileSystem.error_write_eq_none_iff, FileSystem.error_write_eq_none_iff,
      h.directories.canWrite_iff]
    rcases ho with rfl | ⟨-, -, hwritten⟩
    · rfl
    · exact hwritten

/-- Files are written alike if they are alike one by one. -/
theorem writeAll_sameApart {off : Option (List String)} {fs fs' : FileSystem}
    (h : SameApart off fs fs') {os os' : List Output}
    (hos : List.Forall₂ (Output.Alike off fs) os os') :
    SameApart off (writeAll fs os).1 (writeAll fs' os').1 := by
  induction os generalizing fs fs' os' with
  | nil =>
    cases hos
    exact h
  | cons o os ih =>
    cases hos with
    | @cons _ o' _ os' ho hrest =>
      obtain ⟨hfiles, herror⟩ := h.write ho
      have hdirectories := fs.sameDirectories_write o
      cases hfirst : (fs.write o).2 with
      | none =>
        rw [writeAll_of_none hfirst, writeAll_of_none (herror.mp hfirst)]
        exact ih hfiles (hrest.imp fun _ _ halike => halike.congr hdirectories)
      | some e =>
        have hne : (fs'.write o').2 ≠ none := by
          rw [Ne, ← herror, hfirst]
          exact Option.some_ne_none e
        obtain ⟨e', he'⟩ := Option.ne_none_iff_exists'.mp hne
        rw [writeAll_of_some hfirst, writeAll_of_some he']
        exact hfiles

/-- Sessions that come to the same workspace write alike files, if both session reports can be written
or neither. -/
theorem forall₂_outputs {x x' : Session} (h : x.workspace = x'.workspace) {s : Settings}
    {fs : FileSystem}
    (hreports : ∀ path ∈ s.history, (fs.CanWrite path x.report ↔ fs.CanWrite path x'.report)) :
    List.Forall₂ (Output.Alike (s.history.bind fs.target?) fs) (x.outputs s) (x'.outputs s) := by
  have hdrawing : x.drawing = x'.drawing := by simp only [Session.drawing, h]
  have hplotter : x.plotterBuffer = x'.plotterBuffer := by
    simp only [Session.plotterBuffer, Session.plotterOps, h]
  cases hsvg : s.svg <;> cases hhistory : s.history <;> cases hplot : s.plot <;>
    simp_all [Session.outputs, Output.Alike]

/-- Whether a program is run from a file or entered line by line, the same drawing, the same plotter
commands and the same answers come of it, on surfaces of the same size with the same palette, and
whatever files are asked for. With the same files to begin with and the same files asked for, both
leave the same files behind, apart from the session report, unless there is room for only one of the
two reports. -/
theorem front_ends_agree {text : String} (hlines : ∀ line ∈ Text.lines text, StandsAlone line)
    {s s' : Settings} (hsize : 0 < s.width ∧ 0 < s.height)
    (hsame : s'.width = s.width ∧ s'.height = s.height ∧ s'.palette = s.palette)
    {fs : FileSystem} {path : String} (hpath : fs.read path = .ok text.toUTF8) (fs' : FileSystem)
    (stdin : ByteArray) :
    let whole := Job.run ⟨s, .run path⟩ fs stdin
    let byLine := Job.run ⟨s', .repl⟩ fs' text.toUTF8
    let x := ((Session.fresh s).enter text).1
    let report := ((Session.fresh s).enter text).2
    let x' := (Session.fresh s').after (Text.lines text)
    let es := (Session.fresh s').exchanges (Text.lines text)
    whole = conclude fs s x (shown report) (failure? report) ∧
      byLine = conclude fs' s' x' (conversation es ++ prompt ++ "\n") none ∧
      x.drawing = x'.drawing ∧ x.plotterCommands = x'.plotterCommands ∧
      report.output.toList = es.flatMap (·.report.output.toList) ∧
      (s' = s → fs' = fs →
        (∀ path ∈ s.history, (fs.CanWrite path x.report ↔ fs.CanWrite path x'.report)) →
        ∀ names, s.history.bind fs.target? ≠ some names →
          byLine.files.file? names = whole.files.file? names) := by
  intro whole byLine x report x' es
  obtain ⟨hwidth, hheight, hpalette⟩ := hsame
  have hfresh : Session.fresh s' = Session.fresh s := by
    simp only [Session.fresh, hwidth, hheight, hpalette]
  have hwhole : whole = conclude fs s x (shown report) (failure? report) := by
    simp only [whole, Job.run, Session.start_eq, if_pos hsize, hpath, programText,
      Text.fromUTF8?_toUTF8]
    rfl
  have hbyLine : byLine = conclude fs' s' x' (conversation es ++ prompt ++ "\n") none := by
    have htexts : Task.repl.texts? fs' text.toUTF8 = some (Text.lines text) :=
      decoded_iff.mpr (Text.map_decodeLine?_byteLines text)
    exact Job.run_eq_conclude (j := ⟨s', .repl⟩) (by rwa [hwidth, hheight]) htexts
  have houtcome := (Session.isOutcome_lines hlines).2 (Session.fresh s)
  have hworkspace : x.workspace = x'.workspace := by
    rw [Session.workspace_enter, houtcome.workspace, ← hfresh]
  refine ⟨hwhole, hbyLine, ?_, ?_, ?_, ?_⟩
  · simp only [Session.drawing, hworkspace]
  · simp only [Session.plotterCommands, Session.plotterOps, hworkspace]
  · simp only [report, es, Session.report_enter, houtcome.output, hfresh]
  · rintro rfl rfl hreports names hnames
    rw [hwhole, hbyLine]
    simp only [conclude, Result.files_of]
    have hrefl : SameApart (s'.history.bind fs'.target?) fs' fs' := ⟨.refl fs', fun _ _ => rfl⟩
    exact (writeAll_sameApart hrefl (forall₂_outputs hworkspace hreports)).files names hnames

/-- Of two lines the first clears the screen after it has drawn, and ends with a carriage return. The
second has an unknown word and no end. -/
theorem front_ends_agree_clearing :
    let text := "fd 5 cs\r\nhome foo"
    let s : Settings := ⟨1200, 900, .named, some "a", some "b", some "c"⟩
    let fs : FileSystem := ⟨[(["p"], text.toUTF8)]⟩
    (∀ line ∈ Text.lines text, StandsAlone line) ∧ (0 < s.width ∧ 0 < s.height) ∧
      fs.read "p" = .ok text.toUTF8 ∧
      ∀ names ∈ [["home", "turtle", "a"], ["home", "turtle", "c"]],
        (Job.run ⟨s, .repl⟩ fs text.toUTF8).files.file? names =
          (Job.run ⟨s, .run "p"⟩ fs "".toUTF8).files.file? names := by
  intro text s fs
  have hlines : Text.lines text = ["fd 5 cs", "home foo"] := by cbv
  have halone : ∀ line ∈ Text.lines text, StandsAlone line := by
    have hfirst : tokens "fd 5 cs" =
        [⟨"FD", ⟨0, 2, 1, 1⟩⟩, ⟨"5", ⟨3, 1, 1, 4⟩⟩, ⟨"CS", ⟨5, 2, 1, 6⟩⟩] := by cbv
    have hsecond : tokens "home foo" = [⟨"HOME", ⟨0, 4, 1, 1⟩⟩, ⟨"FOO", ⟨5, 3, 1, 6⟩⟩] := by cbv
    rw [hlines]
    simp only [List.forall_mem_cons]
    refine ⟨⟨by cbv, ?_⟩, ⟨by cbv, ?_⟩, by simp⟩
    · exact hfirst ▸ startsFresh_cons.mpr (by decide)
    · exact hsecond ▸ startsFresh_cons.mpr (by decide)
  have hsize : 0 < s.width ∧ 0 < s.height := by decide +kernel
  have hread : fs.read "p" = .ok text.toUTF8 := by cbv
  refine ⟨halone, hsize, hread, ?_⟩
  have hhistory : s.history.bind fs.target? = some ["home", "turtle", "b"] := by decide +kernel
  have hroom : ∀ path ∈ s.history, ∀ text, fs.CanWrite path text := by
    intro path hpath text
    obtain rfl : "b" = path := Option.some.inj hpath
    exact ⟨_, hhistory, rfl⟩
  have hagree := front_ends_agree halone hsize ⟨rfl, rfl, rfl⟩ hread fs "".toUTF8
  obtain ⟨-, -, -, -, -, hfiles⟩ := hagree
  intro names hnames
  refine hfiles rfl rfl (fun path hpath => ?_) names ?_
  · exact iff_of_true (hroom path hpath _) (hroom path hpath _)
  · rw [hhistory]
    revert names
    decide

end CommandLine

end TurtleGraphics
