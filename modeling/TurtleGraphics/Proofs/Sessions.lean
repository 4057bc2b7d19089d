import TurtleGraphics.CommandLine.Job
import TurtleGraphics.Proofs.Partition
import TurtleGraphics.Proofs.Repetition

namespace TurtleGraphics

open Text (Token tokens isBlank)

/-! # Sessions

A session goes from text to text. What it comes to is followed here over any number of texts.

* `trim_isEmpty_iff`: the inputs that a session passes over are those without tokens, and
  `interpret_of_tokens_eq_nil` says that nothing comes of such a text.
* `Session.after`, `Session.exchanges`: the session after some texts, and what was said in it.
* `Dialogue.lines_append`: a dialogue takes in the lines that are texts as a session does, and shows
  a prompt and a report for each of them.
* `Task.texts?`, `Job.run_eq_conclude`: a job enters its texts in a session and then writes files.
-/

/-! ## Blank texts -/

namespace Text

theorem stripEnd_eq_nil_iff {p : Char → Bool} {cs : List Char} :
    stripEnd p cs = [] ↔ ∀ c ∈ cs, p c = true := by
  simp [stripEnd, List.dropWhile_eq_nil_iff]

theorem trim_isEmpty {s : String} :
    (trim s).isEmpty = true ↔ ∀ c ∈ s.toList, isBlank c = true := by
  rw [trim, strip, String.isEmpty_iff, String.ofList_eq_empty_iff, stripEnd_eq_nil_iff]
  constructor
  · intro h c hc
    rw [← List.takeWhile_append_dropWhile (p := isBlank) (l := s.toList)] at hc
    rcases List.mem_append.mp hc with hc | hc
    · exact List.all_eq_true.mp List.all_takeWhile c hc
    · exact h c hc
  · intro h c hc
    exact h c ((List.dropWhile_suffix isBlank).subset hc)

/-- A text is blank if and only if it has no tokens. -/
theorem trim_isEmpty_iff {s : String} : (trim s).isEmpty = true ↔ tokens s = [] := by
  rw [trim_isEmpty]
  constructor
  · intro h
    have hplaceless := placeless_blanks h
    rwa [placeless, List.map_eq_nil_iff, ← tokens_eq_tokensAt] at hplaceless
  · intro h c hc
    by_contra hblank
    obtain ⟨before, after, hsource⟩ := List.append_of_mem hc
    obtain ⟨t, ht, -⟩ := (partition_tokens s).covered before c after hsource
      (Bool.eq_false_of_not_eq_true hblank)
    rw [h] at ht
    cases ht

end Text

/-- Nothing comes of a text without tokens. -/
theorem interpret_of_tokens_eq_nil (w : Workspace) {text : String} (h : tokens text = []) :
    w.interpret text = w.idle := by
  have hsentence : Sentence (tokens text) .done := h ▸ .done
  exact hsentence.interpret_eq w

namespace CommandLine

/-! ## One text after the other -/

/-- A text that was entered, and what came back. -/
structure Exchange where
  input : String
  report : Report

namespace Session

/-- A session in which nothing was entered yet. -/
def fresh (s : Settings) : Session :=
  ⟨.new { width := s.width, height := s.height } s.palette.palette, .empty⟩

theorem start_eq (s : Settings) :
    start s = if 0 < s.width ∧ 0 < s.height then .ok (fresh s) else .error .emptySurface := by
  have hsize : ((Float.lt 0 s.width && Float.lt 0 s.height) = true) =
      (0 < s.width ∧ 0 < s.height) := Bool.and_eq_true _ _
  simp only [start, hsize, fresh]

/-- The session after some more texts. -/
def after (x : Session) (texts : List String) : Session :=
  texts.foldl (fun x text => (x.enter text).1) x

/-- What is said while some more texts are entered. -/
def exchanges (x : Session) : List String → List Exchange
  | [] => []
  | text :: texts => ⟨text, (x.enter text).2⟩ :: (x.enter text).1.exchanges texts

theorem workspace_enter (x : Session) (text : String) :
    (x.enter text).1.workspace = (x.workspace.interpret text).workspace := by
  simp only [enter]

theorem report_enter (x : Session) (text : String) :
    (x.enter text).2 = (x.workspace.interpret text).report := by
  simp only [enter]

theorem transcript_enter (x : Session) (text : String) :
    (x.enter text).1.transcript = x.transcript.record text (x.enter text).2 := by
  simp only [enter]

@[simp] theorem after_nil (x : Session) : x.after [] = x := rfl

@[simp] theorem after_cons (x : Session) (text : String) (texts : List String) :
    x.after (text :: texts) = (x.enter text).1.after texts := rfl

end Session

/-! ## Line by line -/

/-- What is shown of some exchanges: a prompt before each of them, and its report. -/
def conversation (es : List Exchange) : String :=
  String.join (es.map fun e => prompt ++ shown e.report)

theorem conversation_cons (e : Exchange) (es : List Exchange) :
    conversation (e :: es) = prompt ++ shown e.report ++ conversation es := by
  simp [conversation]

/-- The lines are texts, with these as their contents. -/
def Decoded (lines : List ByteArray) (texts : List String) : Prop :=
  lines.map Text.decodeLine? = texts.map some

namespace Dialogue

theorem lines_cons (d : Dialogue) {line : ByteArray} {text : String}
    (h : Text.decodeLine? line = some text) (rest : List ByteArray) :
    d.lines (line :: rest) =
      Dialogue.lines ⟨(d.session.enter text).1,
        d.output ++ (prompt ++ shown (d.session.enter text).2)⟩ rest := by
  simp [lines, Dialogue.line, h, String.append_assoc]

/-- Lines that are texts are entered one after the other, and answered in that order. -/
theorem lines_append (d : Dialogue) {lines : List ByteArray} {texts : List String}
    (h : Decoded lines texts) (rest : List ByteArray) :
    d.lines (lines ++ rest) =
      Dialogue.lines ⟨d.session.after texts,
        d.output ++ conversation (d.session.exchanges texts)⟩ rest := by
  induction texts generalizing d lines with
  | nil =>
    rw [Decoded, List.map_nil, List.map_eq_nil_iff] at h
    simp [h, Session.exchanges, conversation]
  | cons text texts ih =>
    obtain ⟨line, lines, rfl, hline, hlines⟩ := List.map_eq_cons_iff.mp h
    rw [List.cons_append, lines_cons d hline, ih _ hlines]
    simp [Session.exchanges, conversation_cons, String.append_assoc]

/-- After the last line the prompt is shown once more, and the line of its own ended. -/
theorem lines_eq_ok (d : Dialogue) {lines : List ByteArray} {texts : List String}
    (h : Decoded lines texts) :
    d.lines lines = .ok ⟨d.session.after texts,
      d.output ++ conversation (d.session.exchanges texts) ++ prompt ++ "\n"⟩ := by
  have hlines := d.lines_append h []
  rwa [List.append_nil] at hlines

/-- A line that is no text ends the dialogue. -/
theorem lines_eq_error (d : Dialogue) {lines : List ByteArray} {texts : List String}
    (h : Decoded lines texts) {bad : ByteArray} (hbad : Text.decodeLine? bad = none)
    (rest : List ByteArray) :
    d.lines (lines ++ bad :: rest) = .error (.invalidInput,
      d.output ++ conversation (d.session.exchanges texts) ++ prompt) := by
  rw [d.lines_append h]
  simp [Dialogue.lines, Dialogue.line, hbad]

end Dialogue

/-! ## Jobs -/

theorem decoded_iff {lines : List ByteArray} {texts : List String} :
    lines.mapM Text.decodeLine? = some texts ↔ Decoded lines texts := by
  induction lines generalizing texts with
  | nil => cases texts <;> simp [Decoded]
  | cons line lines ih =>
    cases texts with
    | nil =>
      cases hline : Text.decodeLine? line <;> cases hlines : lines.mapM Text.decodeLine? <;>
        simp [List.mapM_cons, Decoded, hline, hlines]
    | cons text texts =>
      have hrest : lines.mapM Text.decodeLine? = some texts ↔
          lines.map Text.decodeLine? = texts.map some := ih
      rw [Decoded, List.map_cons, List.map_cons, List.cons.injEq, ← hrest]
      cases hline : Text.decodeLine? line <;> cases hlines : lines.mapM Text.decodeLine? <;>
        simp [List.mapM_cons, hline, hlines]

/-- Lines of which one is no text: the first such line comes after lines that are texts. -/
theorem exists_bad_line {lines : List ByteArray} (h : lines.mapM Text.decodeLine? = none) :
    ∃ before texts bad rest, lines = before ++ bad :: rest ∧ Decoded before texts ∧
      Text.decodeLine? bad = none := by
  induction lines with
  | nil => cases h
  | cons line lines ih =>
    cases hline : Text.decodeLine? line with
    | none => exact ⟨[], [], line, lines, rfl, rfl, hline⟩
    | some text =>
      have hlines : lines.mapM Text.decodeLine? = none := by
        cases hlines : lines.mapM Text.decodeLine? with
        | none => rfl
        | some texts => simp [List.mapM_cons, hline, hlines] at h
      obtain ⟨before, texts, bad, rest, rfl, hbefore, hbad⟩ := ih hlines
      refine ⟨line :: before, text :: texts, bad, rest, rfl, ?_, hbad⟩
      rw [Decoded, List.map_cons, List.map_cons, hline, hbefore]

namespace Task

/-- The texts that are entered, if the input for the task can be read: the whole program, or all of
its lines. -/
def texts? (t : Task) (fs : FileSystem) (stdin : ByteArray) : Option (List String) :=
  match t with
  | .run path => (programText path (fs.read path)).toOption.map ([·])
  | .repl => (Text.byteLines stdin).mapM Text.decodeLine?

/-- What is shown of the exchanges. -/
def output (es : List Exchange) : Task → String
  | .run _ => String.join (es.map (shown ·.report))
  | .repl => conversation es ++ prompt ++ "\n"

/-- Why the task fails even if all files can be written. -/
def problems? (es : List Exchange) : Task → Option Failure
  | .run _ => es.findSome? (failure? ·.report)
  | .repl => none

end Task

namespace Job

variable {j : Job} {fs : FileSystem} {stdin : ByteArray}

/-- A job whose input can be read enters the texts in a fresh session, and then it writes the files
asked for. -/
theorem run_eq_conclude (hsize : 0 < j.settings.width ∧ 0 < j.settings.height) {texts : List String}
    (htexts : j.task.texts? fs stdin = some texts) :
    let x := Session.fresh j.settings
    let es := x.exchanges texts
    j.run fs stdin =
      conclude fs j.settings (x.after texts) (j.task.output es) (j.task.problems? es) := by
  obtain ⟨s, task⟩ := j
  rw [run, Session.start_eq, if_pos hsize]
  cases task with
  | run path =>
    cases hprogram : programText path (fs.read path) with
    | error f => simp [Task.texts?, hprogram, Except.toOption] at htexts
    | ok text =>
      obtain rfl : texts = [text] := by
        simpa [Task.texts?, hprogram, Except.toOption, eq_comm] using htexts
      simp only [hprogram, Session.exchanges, Task.output, Task.problems?]
      rw [Session.after_cons, Session.after_nil]
      generalize (Session.fresh s).enter text = entered
      cases hproblems : failure? entered.2 <;> simp [hproblems]
  | repl =>
    have hlines := Dialogue.lines_eq_ok ⟨Session.fresh s, ""⟩ (decoded_iff.mp htexts)
    simp only [hlines, Task.output, Task.problems?, String.empty_append]

end Job

end CommandLine

end TurtleGraphics
