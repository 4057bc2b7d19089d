import TurtleGraphics.Proofs.PlainDecimals
import TurtleGraphics.Proofs.Pointing
import TurtleGraphics.Proofs.SvgReading
import TurtleGraphics.Transcript

namespace TurtleGraphics

open Text (Span Token tokens upper trim)

/-! # Reading session reports back

A session report is a text of lines, and what was typed stands among its headings, numbers and tags
as it was typed. Nothing typed can be taken for anything else, because no command and nothing in the
log goes over a line.

* `IsLine`: a text without a line feed.
* `Problem.PointsInto.isLine`, `Warning.PointsInto.isLine`: the tokens of a text are such texts, and
  so are the wordings of all that can be wrong with it.
* `Execution.SaysLines`: so are all answers, by an invariant of a run.
* `Transcript.Recorded`, `Transcript.OnLines`: a transcript of inputs of one line each has commands
  and a log of one line each, by induction over the inputs.
* `Transcript.Reading`: what a reader who knows nothing of the session finds in a text.

`report_reads_back` says that the reader finds all commands and the whole log.
-/

/-- The text does not go over a line. -/
def IsLine (s : String) : Prop := '\n' ∉ s.toList

instance (s : String) : Decidable (IsLine s) := inferInstanceAs (Decidable ('\n' ∉ s.toList))

@[simp] theorem isLine_append {a b : String} : IsLine (a ++ b) ↔ IsLine a ∧ IsLine b := by
  simp [IsLine]

theorem isLine_text (x : Float) : IsLine (Decimal.text x) :=
  fun h => (Svg.isPlain_text x _ h).2.2.2 rfl

theorem isLine_color (color : Color) : IsLine color.text :=
  fun h => (Svg.isPlain_color color _ h).2.2.2 rfl

theorem isLine_repr (n : ℕ) : IsLine (Nat.repr n) := by
  intro h
  rw [Nat.toList_repr] at h
  have hdigit : '\n'.isDigit = true := Nat.isDigit_of_mem_toDigits (by decide) (by decide) h
  cases hdigit

theorem isLine_trim {s : String} (h : IsLine s) : IsLine (trim s) := by
  intro hmem
  rw [trim, Text.strip, String.toList_ofList, Text.stripEnd, List.mem_reverse] at hmem
  have hback := List.mem_reverse.mp ((List.dropWhile_suffix _).subset hmem)
  exact h ((List.dropWhile_suffix _).subset hback)

/-! ## Diagnostics -/

/-- A token does not go over a line, and neither does its upper case. -/
theorem isLine_of_mem_tokens {text : String} {t : Token} (ht : t ∈ tokens text) :
    IsLine t.text := by
  rcases (Text.partition_tokens text).stands t ht with ⟨before, cs, after, -, hstands⟩
  intro hmem
  rw [hstands.text, Text.toList_upper, String.toList_ofList, List.mem_flatMap] at hmem
  rcases hmem with ⟨c, hc, hmem⟩
  -- only the line feed has one in its upper case
  have hfeed : c = '\n' := Text.mem_upperChar hmem rfl
  have hblank := hstands.lexeme.not_blank c hc
  rw [hfeed] at hblank
  cases hblank

theorem Text.Span.IsTokenOf.isLine {s : Span} {text : String} (h : s.IsTokenOf text) :
    IsLine (upper (s.fragment text)) := by
  rcases h with ⟨t, ht, rfl, -⟩
  rw [← text_of_mem ht]
  exact isLine_of_mem_tokens ht

theorem isLine_span (s : Span) : IsLine s.text := by
  simp only [Span.text, isLine_append, isLine_repr, and_true, true_and]
  decide +kernel

theorem isLine_name (p : Primitive) : IsLine p.name := by
  cases p <;> decide +kernel

theorem IsUnquoted.isLine {text name : String} (h : IsUnquoted text name) (htext : IsLine text) :
    IsLine name := by
  rcases h with ⟨m, n, hquoted, -⟩
  intro hmem
  apply htext
  rw [hquoted]
  exact List.mem_append_left _ (List.mem_append_right _ hmem)

theorem SyntaxFault.Fits.isLine {fault : SyntaxFault} {span : Span} {text : String}
    (h : fault.Fits span text) (hspan : span.IsTokenOf text) : IsLine fault.text := by
  cases fault with
  | badCount count =>
    have hcount : IsLine count := by
      rw [show count = upper (span.fragment text) from h]
      exact hspan.isLine
    show IsLine (_ ++ count ++ _)
    simp only [isLine_append, hcount, and_true]
    decide +kernel
  | _ => decide +kernel

theorem Problem.PointsInto.isLine {text : String} {p : Problem} (h : p.PointsInto text) :
    IsLine p.text := by
  rcases h with ⟨hspan, hfits⟩
  have htoken := hspan.isLine
  cases p with
  | malformed fault span =>
    have hfault : IsLine fault.text := SyntaxFault.Fits.isLine hfits hspan
    show IsLine (_ ++ span.text ++ _ ++ fault.text)
    simp only [isLine_append, isLine_span, hfault, and_true]
    decide +kernel
  | unknownWord word span | unusedValue word span =>
    have hword : IsLine word := by
      rw [show word = upper (span.fragment text) from hfits]
      exact htoken
    show IsLine (_ ++ word)
    simp only [isLine_append, hword, and_true]
    decide +kernel

theorem Warning.PointsInto.isLine {text : String} {w : Warning} (h : w.PointsInto text) :
    IsLine w.text := by
  rcases h with ⟨hspan, hfits⟩
  have htoken := hspan.isLine
  cases w with
  | malformedInput command input span =>
    have hinput : IsLine input := by
      rw [show input = upper (span.fragment text) from hfits]
      exact htoken
    show IsLine (command.name ++ _ ++ input ++ _)
    simp only [isLine_append, isLine_name, hinput, true_and, and_true]
    decide +kernel
  | missingInput command span =>
    show IsLine (_ ++ command.name)
    simp only [isLine_append, isLine_name, and_true]
    decide +kernel
  | unknownColor name fallback span =>
    have hname : IsLine name := IsUnquoted.isLine hfits htoken
    show IsLine (_ ++ name ++ _ ++ fallback.text)
    simp only [isLine_append, isLine_color, hname, and_true]
    decide +kernel

/-! ## Answers -/

/-- No answer so far goes over a line. -/
def Execution.SaysLines (e : Execution) : Prop := ∀ line ∈ e.output, IsLine line

namespace Execution.SaysLines

variable {e : Execution}

theorem say (h : e.SaysLines) {line : String} (hline : IsLine line) : (e.say line).SaysLines := by
  intro line' hmem
  rcases Array.mem_push.mp hmem with hmem | rfl
  · exact h line' hmem
  · exact hline

theorem perform (h : e.SaysLines) (action : Action Float) : (e.perform action).SaysLines := by
  cases action with
  | xcor | ycor | heading =>
    apply h.say
    simp only [isLine_append, isLine_text, and_true]
    decide +kernel
  | clearScreen => exact h
  | _ => simpa only [SaysLines, Execution.perform, foldl_draw] using h

theorem act (h : e.SaysLines) (palette : Palette) (s : Statement) :
    (e.act palette s).SaysLines := by
  cases s with
  | command c =>
    have hwarned : SaysLines { e with warnings := e.warnings ++ (c.action palette).warnings } := h
    exact hwarned.perform (c.action palette).value
  | unknown | stray => exact h

theorem run (h : e.SaysLines) (palette : Palette) (program : Program) :
    (e.run palette program).SaysLines := by
  apply Execution.run_preserves ?_ ?_ h
  · exact fun e s _ he => he.act palette s
  · exact fun e p _ he => he

end Execution.SaysLines

/-- Nothing that is shown of a report goes over a line, whatever was run. -/
theorem isLine_of_mem_entries (w : Workspace) (text : String) :
    ∀ e ∈ (w.interpret text).report.entries, IsLine e.line := by
  have hsays : (Execution.start w.turtle w.path).SaysLines := by
    simp [Execution.SaysLines, Execution.start]
  have hpoints : (Execution.start w.turtle w.path).PointsInto text := by
    constructor <;> simp [Execution.start]
  have houtput := hsays.run w.palette (Program.read text)
  have hrun := hpoints.run w.palette
  simp only [Report.entries, List.forall_mem_append, List.forall_mem_map]
  refine ⟨⟨?_, ?_⟩, ?_⟩
  · intro x hx
    simp only [isLine_append, (hrun.warnings x (Array.mem_toList_iff.mp hx)).isLine, and_true]
    decide +kernel
  · intro line hline
    exact houtput line (Array.mem_toList_iff.mp hline)
  · intro p hp
    simp only [isLine_append, (hrun.problems p (Array.mem_toList_iff.mp hp)).isLine, and_true]
    decide +kernel

namespace Transcript

/-! ## Transcripts of lines -/

/-- The transcript comes of taking down inputs of one line each, every one with the report of
running it in a workspace. -/
inductive Recorded : Transcript → Prop where
  | empty : Recorded .empty
  | record {t : Transcript} {input : String} : Recorded t → ∀ w : Workspace, IsLine input →
      Recorded (t.record input (w.interpret input).report)

/-- The transcript is of one line for each command, and for each entry of the log. -/
structure OnLines (t : Transcript) : Prop where
  commands : ∀ c ∈ t.commands, IsLine c
  log : ∀ e ∈ t.log, IsLine e.line

theorem OnLines.record {t : Transcript} (h : t.OnLines) {input : String} (hinput : IsLine input)
    {r : Report} (hreport : ∀ e ∈ r.entries, IsLine e.line) : (t.record input r).OnLines := by
  have htrim := isLine_trim hinput
  have hasked : IsLine ("? " ++ trim input) := by
    simp only [isLine_append, htrim, and_true]
    decide +kernel
  unfold Transcript.record
  dsimp only
  split
  · exact h
  · constructor
    · intro c hc
      rcases Array.mem_push.mp hc with hc | rfl
      · exact h.commands c hc
      · exact htrim
    · have hlog : ∀ e ∈ if r.cleared then #[] else t.log, IsLine e.line := by
        split
        · simp
        · exact h.log
      intro e he
      rw [← Array.mem_toList_iff, Array.toList_appendList, List.mem_append, Array.mem_toList_iff,
        Array.mem_push] at he
      rcases he with (he | rfl) | he
      · exact hlog e he
      · exact hasked
      · exact hreport e he

theorem Recorded.onLines {t : Transcript} (h : t.Recorded) : t.OnLines := by
  induction h with
  | empty => constructor <;> simp [Transcript.empty]
  | record _ w hinput ih => exact ih.record hinput (isLine_of_mem_entries w _)

/-! ## The reader -/

/-- The number and the command on a line that begins with a number. -/
def numbered? (line : List Char) : Option (ℕ × String) :=
  match line.dropWhile Char.isDigit with
  | '.' :: ' ' :: rest =>
    (Decimal.digits? (line.takeWhile Char.isDigit)).map fun n => (n, String.ofList rest)
  | _ => none

/-- The entry on a line that begins with a tag. -/
def tagged? (line : List Char) : Option Entry :=
  [EntryKind.input, .output, .error].findSome? fun kind =>
    (line.dropPrefix? ("[" ++ kind.tag ++ "] ").toList).map fun rest => ⟨kind, String.ofList rest⟩

/-- The number on a line that begins with this label. -/
def statistic? (label : String) (line : List Char) : Option ℕ :=
  (line.dropPrefix? label.toList).bind Decimal.digits?

/-- What the lines of a text say, read as lines of a session report. -/
structure Reading where
  /-- The numbered lines. -/
  commands : List (ℕ × String)
  /-- The tagged lines. -/
  log : List Entry
  /-- How many commands there are by the statistics. -/
  executed : List ℕ
  /-- How many errors there are by the statistics. -/
  errors : List ℕ

/-- Reads a text line by line. -/
def Reading.of (text : String) : Reading :=
  let lines := text.toList.splitOn '\n'
  ⟨lines.filterMap numbered?, lines.filterMap tagged?,
    lines.filterMap (statistic? "- Total Commands Executed: "),
    lines.filterMap (statistic? "- Errors Encountered: ")⟩

/-! ## Lines are read back -/

section Lines

variable {c : Char} {cs : List Char}

@[simp] theorem numbered?_nil : numbered? [] = none := rfl

@[simp] theorem tagged?_nil : tagged? [] = none := rfl

theorem numbered?_cons (h : c.isDigit = false) : numbered? (c :: cs) = none := by
  unfold numbered?
  split
  · rw [List.takeWhile_cons_of_neg (by simp [h])]
    rfl
  · rfl

theorem tagged?_cons (h : c ≠ '[') : tagged? (c :: cs) = none := by
  simp [tagged?, List.dropPrefix?, h]

theorem statistic?_nil {label : String} {d : Char} {ds : List Char}
    (hlabel : label.toList = d :: ds) : statistic? label [] = none := by
  simp [statistic?, List.dropPrefix?, hlabel]

theorem statistic?_cons {label : String} {d : Char} {ds : List Char}
    (hlabel : label.toList = d :: ds) (h : c ≠ d) : statistic? label (c :: cs) = none := by
  simp [statistic?, List.dropPrefix?, hlabel, h]

theorem toList_numbered (n : ℕ) (command : String) :
    (Nat.repr n ++ ". " ++ command).toList =
      Nat.toDigits 10 n ++ '.' :: (' ' :: command.toList) := by
  rw [String.toList_append, String.toList_append, Nat.toList_repr, List.append_assoc]
  rfl

theorem numbered?_numbered (n : ℕ) (command : String) :
    numbered? (Nat.repr n ++ ". " ++ command).toList = some (n, command) := by
  have hdigits := Decimal.isDigits_toDigits n
  rcases Decimal.span_isDigit hdigits (c := '.') rfl (' ' :: command.toList) with ⟨htake, hdrop⟩
  rw [toList_numbered, numbered?, htake, hdrop, Decimal.digits?, if_pos hdigits,
    Decimal.natOfDigits_toDigits]
  simp

theorem toList_text (e : Entry) : e.text.toList = '[' :: (e.kind.tag ++ "] " ++ e.line).toList := by
  simp [Entry.text]

theorem tagged?_text (e : Entry) : tagged? e.text.toList = some e := by
  rcases e with ⟨kind, line⟩
  cases kind <;> simp [tagged?, Entry.text, EntryKind.tag, List.dropPrefix?]

theorem statistic?_cons₄ {label : String} {d₀ d₁ d₂ d : Char} {ds : List Char}
    (hlabel : label.toList = d₀ :: d₁ :: d₂ :: d :: ds) {c₀ c₁ c₂ : Char} (h : c ≠ d) :
    statistic? label (c₀ :: c₁ :: c₂ :: c :: cs) = none := by
  simp [statistic?, List.dropPrefix?, hlabel, h]

theorem statistic?_append (label : String) (n : ℕ) :
    statistic? label (label ++ Nat.repr n).toList = some n := by
  rw [statistic?, String.toList_append, List.dropPrefix?_append_of_beq _ (beq_self_eq_true _),
    Nat.toList_repr, Option.bind_some, Decimal.digits?, if_pos (Decimal.isDigits_toDigits n),
    Decimal.natOfDigits_toDigits]

end Lines

/-- A text of lines, each one ended, is split into them. -/
theorem splitOn_join {ls : List String} (h : ∀ l ∈ ls, IsLine l) :
    (String.join (ls.map (· ++ "\n"))).toList.splitOn '\n' = ls.map String.toList ++ [[]] := by
  induction ls with
  | nil => rfl
  | cons l ls ih =>
    rcases List.forall_mem_cons.mp h with ⟨hl, hls⟩
    have hjoin : (String.join ((l :: ls).map (· ++ "\n"))).toList =
        l.toList ++ '\n' :: (String.join (ls.map (· ++ "\n"))).toList := by
      simp
    rw [hjoin, List.splitOn_append_cons_self_of_not_mem hl, ih hls, List.map_cons, List.cons_append]

theorem isLine_of_mem_numbered {cs : List String} (h : ∀ c ∈ cs, IsLine c) (n : ℕ) :
    ∀ l ∈ numbered n cs, IsLine l := by
  induction cs generalizing n with
  | nil => simp [numbered]
  | cons c cs ih =>
    rcases List.forall_mem_cons.mp h with ⟨hc, hcs⟩
    rw [numbered, List.forall_mem_cons]
    refine ⟨?_, ih hcs (n + 1)⟩
    simp only [isLine_append, isLine_repr, hc, and_true, true_and]
    decide +kernel

/-- Only numbered lines begin with a digit. -/
theorem filterMap_numbered_eq_nil {β : Type} (read? : List Char → Option β)
    (hread : ∀ d ds, d.isDigit = true → read? (d :: ds) = none) (n : ℕ) (cs : List String) :
    ((numbered n cs).map String.toList).filterMap read? = [] := by
  induction cs generalizing n with
  | nil => rfl
  | cons c cs ih =>
    rcases Decimal.isDigits_iff.mp (Decimal.isDigits_toDigits n) with ⟨hne, hdigits⟩
    rcases List.exists_cons_of_ne_nil hne with ⟨d, ds, hcons⟩
    have hd : d.isDigit = true := hdigits d (by simp [hcons])
    have hnone : read? (Nat.repr n ++ ". " ++ c).toList = none := by
      rw [toList_numbered, hcons]
      exact hread d _ hd
    rw [numbered, List.map_cons, List.filterMap_cons_none hnone, ih]

/-- Only tagged lines begin with a bracket. -/
theorem filterMap_log_eq_nil {β : Type} (read? : List Char → Option β)
    (hread : ∀ cs, read? ('[' :: cs) = none) (log : List Entry) :
    ((log.map Entry.text).map String.toList).filterMap read? = [] := by
  rw [List.map_map, List.filterMap_eq_nil_iff, List.forall_mem_map]
  intro e _
  rw [Function.comp_apply, toList_text, hread]

theorem filterMap_numbered (n : ℕ) (cs : List String) :
    ((numbered n cs).map String.toList).filterMap numbered? = cs.mapIdx fun i c => (i + n, c) := by
  induction cs generalizing n with
  | nil => rfl
  | cons c cs ih =>
    have hnext : ∀ i, i + (n + 1) = i + 1 + n := by omega
    rw [numbered, List.map_cons, List.filterMap_cons_some (numbered?_numbered n c), ih,
      List.mapIdx_cons, Nat.zero_add]
    simp only [hnext]

theorem filterMap_log (log : List Entry) :
    ((log.map Entry.text).map String.toList).filterMap tagged? = log := by
  simp [Function.comp_def, tagged?_text]

section Report

variable {t : Transcript} (pose : Pose Float) (pen : Pen Float)

theorem OnLines.isLine_of_mem_lines (h : t.OnLines) : ∀ l ∈ t.lines pose pen, IsLine l := by
  have hcommands := isLine_of_mem_numbered (fun c hc => h.commands c (Array.mem_toList_iff.mp hc)) 1
  have hlog : ∀ l ∈ t.log.toList.map Entry.text, IsLine l := by
    rw [List.forall_mem_map]
    intro e he
    have htag : IsLine ("[" ++ e.kind.tag ++ "] ") := by cases e.kind <;> decide +kernel
    exact isLine_append.mpr ⟨htag, h.log e (Array.mem_toList_iff.mp he)⟩
  have hpen : IsLine (if pen.down then "DOWN" else "UP") := by split <;> decide +kernel
  simp only [lines, List.forall_mem_append]
  refine ⟨⟨⟨⟨?_, hcommands⟩, by decide +kernel⟩, hlog⟩, by decide +kernel⟩
  simp only [rounded, List.forall_mem_cons, isLine_append, isLine_text, isLine_repr, isLine_color,
    hpen, and_true]
  decide +kernel

/-! ## What is read -/

theorem splitOn_render (h : t.OnLines) : (t.render pose pen).toList.splitOn '\n' =
    (t.lines pose pen).map String.toList ++ [[]] :=
  splitOn_join (h.isLine_of_mem_lines pose pen)

theorem filterMap_lines_numbered? :
    ((t.lines pose pen).map String.toList ++ [[]]).filterMap numbered? =
      t.commands.toList.mapIdx fun i c => (i + 1, c) := by
  have hlog := filterMap_log_eq_nil numbered? (fun cs => numbered?_cons rfl) t.log.toList
  simp only [lines, List.map_append, List.filterMap_append, filterMap_numbered, hlog]
  simp [rule, List.filterMap_cons, numbered?_cons]

theorem filterMap_lines_tagged? :
    ((t.lines pose pen).map String.toList ++ [[]]).filterMap tagged? = t.log.toList := by
  have hcommands := filterMap_numbered_eq_nil tagged?
    (fun d ds hd => tagged?_cons (by rintro rfl; cases hd)) 1 t.commands.toList
  simp only [lines, List.map_append, List.filterMap_append, filterMap_log, hcommands]
  simp [rule, List.filterMap_cons, tagged?_cons]

/-- The statistics stand above the commands. -/
theorem filterMap_lines_statistic? {label : String} {ds : List Char}
    (hlabel : label.toList = '-' :: ds) {n : ℕ}
    (hfront : (((t.lines pose pen).take 16).map String.toList).filterMap (statistic? label) = [n]) :
    ((t.lines pose pen).map String.toList ++ [[]]).filterMap (statistic? label) = [n] := by
  have hlines : t.lines pose pen = (t.lines pose pen).take 16 ++ numbered 1 t.commands.toList
      ++ ["", "SESSION OUTPUT LOG:", rule] ++ t.log.toList.map Entry.text
      ++ ["", rule, "End of LOGO Programming Session History"] := rfl
  have hcommands := filterMap_numbered_eq_nil (statistic? label)
    (fun d ds hd => statistic?_cons hlabel (by rintro rfl; cases hd)) 1 t.commands.toList
  have hlog := filterMap_log_eq_nil (statistic? label)
    (fun cs => statistic?_cons hlabel (by decide)) t.log.toList
  rw [hlines]
  simp only [List.map_append, List.filterMap_append, hfront, hcommands, hlog]
  simp [rule, statistic?_nil hlabel, statistic?_cons hlabel]

theorem filterMap_lines_executed :
    ((t.lines pose pen).map String.toList ++ [[]]).filterMap
      (statistic? "- Total Commands Executed: ") = [t.commands.size] := by
  have hlabel : "- Total Commands Executed: ".toList =
      '-' :: ' ' :: 'T' :: 'o' :: "tal Commands Executed: ".toList := rfl
  apply filterMap_lines_statistic? pose pen hlabel
  have hown := statistic?_append "- Total Commands Executed: " t.commands.size
  -- the lines above the commands differ from it in their first or their fourth character
  simp [lines, rule, List.filterMap_cons, statistic?_nil hlabel, statistic?_cons hlabel,
    statistic?_cons₄ hlabel] at hown ⊢
  simp [hown]

theorem filterMap_lines_errors :
    ((t.lines pose pen).map String.toList ++ [[]]).filterMap
      (statistic? "- Errors Encountered: ") = [t.errors] := by
  have hlabel : "- Errors Encountered: ".toList =
      '-' :: ' ' :: 'E' :: 'r' :: "rors Encountered: ".toList := rfl
  apply filterMap_lines_statistic? pose pen hlabel
  have hown := statistic?_append "- Errors Encountered: " t.errors
  simp [lines, rule, List.filterMap_cons, statistic?_nil hlabel, statistic?_cons hlabel,
    statistic?_cons₄ hlabel] at hown ⊢
  simp [hown]

/-- The reader finds the commands with their numbers, the log, and the two statistics. -/
theorem OnLines.read_render (h : t.OnLines) : Reading.of (t.render pose pen) =
    ⟨t.commands.toList.mapIdx fun i c => (i + 1, c), t.log.toList, [t.commands.size],
      [t.errors]⟩ := by
  rw [Reading.of, splitOn_render pose pen h, filterMap_lines_numbered?, filterMap_lines_tagged?,
    filterMap_lines_executed, filterMap_lines_errors]

end Report

/-- Session reports can be read back. Take two transcripts of inputs of one line each, every input
taken down with the report of running it somewhere. If their session reports are the same text, with
whatever turtle, then they have the same commands and the same log. And the text of a session report
has one numbered line for each command, numbered from 1 on and in order, one tagged line for each
entry of the log, and the number of the former and of the errors among the latter as its two
statistics; no other line is numbered, tagged or one of the statistics. -/
theorem report_reads_back {t t' : Transcript} (h : t.Recorded) (h' : t'.Recorded)
    (pose pose' : Pose Float) (pen pen' : Pen Float) :
    (t.render pose pen = t'.render pose' pen' → t.commands = t'.commands ∧ t.log = t'.log) ∧
      let r := Reading.of (t.render pose pen)
      r.commands = t.commands.toList.mapIdx (fun i c => (i + 1, c)) ∧ r.log = t.log.toList ∧
        r.executed = [r.commands.length] ∧ r.errors = [r.log.countP (·.kind = .error)] := by
  have hread := h.onLines.read_render pose pen
  have hread' := h'.onLines.read_render pose' pen'
  constructor
  · intro htext
    rw [htext, hread', Reading.mk.injEq] at hread
    rcases hread with ⟨hcommands, hlog, -⟩
    have hnames : ∀ cs : List String, (cs.mapIdx fun i c => (i + 1, c)).map Prod.snd = cs :=
      fun cs => List.ext_getElem (by simp) (by simp)
    have hequal := congrArg (List.map Prod.snd) hcommands
    rw [hnames, hnames] at hequal
    exact ⟨(Array.toList_inj.mp hequal).symm, (Array.toList_inj.mp hlog).symm⟩
  · intro r
    have hr : r = _ := hread
    simp [hr, errors, Array.countP_toList]

/-- Inputs that look like parts of a session report. -/
theorem report_reads_back_imitations :
    let w : Workspace := .new {} NamedPalette.standard.toPalette
    let first := Transcript.empty.record "1. [ERROR] fd" (w.interpret "1. [ERROR] fd").report
    let t := first.record "- Errors Encountered: 7" (w.interpret "- Errors Encountered: 7").report
    let r := Reading.of (t.render w.turtle.pose w.turtle.pen)
    (t.Recorded ∧ first.Recorded) ∧
      t.render w.turtle.pose w.turtle.pen ≠ first.render w.turtle.pose w.turtle.pen ∧
      r.commands = [(1, "1. [ERROR] fd"), (2, "- Errors Encountered: 7")] ∧ r.executed = [2] ∧
      r.errors = [3] := by
  intro w first t r
  have hfirst : first.Recorded := .record .empty w (by decide +kernel)
  have ht : t.Recorded := .record hfirst w (by decide +kernel)
  rcases report_reads_back ht hfirst w.turtle.pose w.turtle.pose w.turtle.pen w.turtle.pen with
    ⟨hequal, hcommands, hlog, hexecuted, herrors⟩
  have hcommands' : t.commands = #["1. [ERROR] fd", "- Errors Encountered: 7"] := by decide +kernel
  have hcount : t.log.toList.countP (·.kind = .error) = 3 := by decide +kernel
  refine ⟨⟨ht, hfirst⟩, ?_, ?_, ?_, ?_⟩
  · intro htext
    have hsize := congrArg Array.size (hequal htext).1
    revert hsize
    decide +kernel
  · rw [hcommands, hcommands']
    rfl
  · rw [hexecuted, hcommands, hcommands']
    rfl
  · rw [herrors, hlog, hcount]

end Transcript

end TurtleGraphics
