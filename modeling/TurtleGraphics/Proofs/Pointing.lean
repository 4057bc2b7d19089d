import TurtleGraphics.Proofs.Continuation
import TurtleGraphics.Proofs.Records
import TurtleGraphics.Proofs.Partition

namespace TurtleGraphics

open Text (Span Token tokens upper upperChar isBracket)

/-! # What diagnostics point at

A diagnostic carries a span from the scanner through the reading and the running of a program into a
report, and beside it a text in upper case. Both are of one token.

* `Span.IsTokenOf`: the span is that of a token of the text, with its line and column.
* `Problem.Fits`, `Warning.Fits`: what a diagnostic says of the fragment at its span, kind by kind.
* `Text.Token.StandsBetween.eq_bracket`: no upper case makes a bracket of anything else, so a token
  that counts as a bracket is one in the text.
* `Statement.From`, `Draft.Steps.opened_from`: statements and open loops are made of tokens of the
  text, and keep their spans.
* `Execution.PointsInto`: the invariant of a run.

`report_points` is the consequence for reports.
-/

/-- The span is that of a token of the text. The token stands in the text where the span says. -/
def Text.Span.IsTokenOf (s : Span) (text : String) : Prop :=
  ∃ t ∈ tokens text, t.span = s ∧ t.StandsIn text.toList

/-- `name` is the text without the double quotes at its two ends. -/
def IsUnquoted (text name : String) : Prop :=
  ∃ m n, text.toList = List.replicate m '"' ++ name.toList ++ List.replicate n '"' ∧
    name.toList.head? ≠ some '"' ∧ name.toList.getLast? ≠ some '"'

/-- The fragment at the span is what the fault is about. -/
def SyntaxFault.Fits (fault : SyntaxFault) (span : Span) (text : String) : Prop :=
  match fault with
  | .missingCount => upper (span.fragment text) = repeatWord
  | .badCount count => count = upper (span.fragment text)
  -- the token after the count or, if there is none, the count
  | .missingBody => span.fragment text ≠ "[" ∧ ∃ before start count after n,
      tokens text = before ++ start :: count :: after ∧ start.text = repeatWord ∧
        IsCount count.text n ∧ span = (after.headD count).span
  | .unmatchedOpen | .unexpectedOpen => span.fragment text = "["
  | .unmatchedClose => span.fragment text = "]"

/-- The fragment at the problem's place is what the problem is about. -/
def Problem.Fits (text : String) : Problem → Prop
  | .malformed fault span => fault.Fits span text
  | .unknownWord word span => word = upper (span.fragment text)
  | .unusedValue value span => value = upper (span.fragment text)

/-- The fragment at the warning's place is what the warning is about. -/
def Warning.Fits (text : String) : Warning → Prop
  | .malformedInput _ input span => input = upper (span.fragment text)
  | .missingInput command span => command.isNamed (upper (span.fragment text)) = true
  | .unknownColor name _ span => IsUnquoted (upper (span.fragment text)) name

/-! ## Brackets in upper case -/

namespace Text

/-- A token whose text is a bracket is that bracket. -/
theorem Token.StandsBetween.eq_bracket {t : Token} {before cs after : List Char}
    (h : t.StandsBetween before cs after) {d : Char} (hd : isBracket d = true)
    (ht : t.text = String.ofList [d]) : cs = [d] := by
  have hupper : cs.flatMap upperChar = [d] := by
    have := congrArg String.toList (h.text.symm.trans ht)
    simpa using this
  obtain ⟨c, hc, hmem⟩ : ∃ c ∈ cs, d ∈ upperChar c := by
    rw [← List.mem_flatMap, hupper]
    exact List.mem_singleton_self d
  obtain rfl := mem_upperChar hmem (not_isWordChar_of_isBracket hd)
  cases h.lexeme with
  | bracket => rw [List.mem_singleton.mp hc]
  | word _ hword =>
    have := (isWordChar_iff.mp (hword c hc)).2
    rw [hd] at this
    cases this

end Text

/-! ## Tokens of a text -/

section Tokens

variable {text : String} {t : Token}

theorem isTokenOf_of_mem (ht : t ∈ tokens text) : t.span.IsTokenOf text :=
  ⟨t, ht, rfl, (Text.partition_tokens text).stands t ht⟩

theorem text_of_mem (ht : t ∈ tokens text) : t.text = upper (t.span.fragment text) :=
  (Text.fragment_of_mem_tokens ht).2.1

theorem fragment_of_bracket (ht : t ∈ tokens text) {d : Char} (hd : isBracket d = true)
    (hbracket : t.text = String.ofList [d]) : t.span.fragment text = String.ofList [d] := by
  obtain ⟨before, cs, after, hsource, hstands⟩ := (Text.partition_tokens text).stands t ht
  rw [Span.fragment, hsource, hstands.cut, hstands.eq_bracket hd hbracket]

theorem fragment_of_isOpen (ht : t ∈ tokens text) (hopen : t.isOpen = true) :
    t.span.fragment text = "[" :=
  fragment_of_bracket ht (d := '[') rfl (Token.isOpen_iff.mp hopen)

theorem fragment_of_isClose (ht : t ∈ tokens text) (hclose : t.isClose = true) :
    t.span.fragment text = "]" :=
  fragment_of_bracket ht (d := ']') rfl (Token.isClose_iff.mp hclose)

theorem fragment_ne_open (ht : t ∈ tokens text) (hopen : t.isOpen = false) :
    t.span.fragment text ≠ "[" := by
  intro hfragment
  have htext := text_of_mem ht
  rw [hfragment, show upper "[" = "[" by decide, ← Token.isOpen_iff, hopen] at htext
  cases htext

end Tokens

/-! ## Statements keep the tokens they were made of -/

/-- The statement is made of some of these tokens: its word is one of them, and so are its inputs. -/
inductive Statement.From (ts : List Token) : Statement → Prop where
  | command {first c} : first ∈ ts → c.primitive.isNamed first.text = true →
      c.span = first.span → c.inputs ⊆ ts → From ts (.command c)
  | unknown {t} : t ∈ ts → From ts (.unknown t.text t.span)
  | stray {t} : t ∈ ts → From ts (.stray t.text t.span)

theorem Phrase.from_tokens {first : Token} {run rest : List Token} {s : Statement}
    (h : Phrase first run rest s) {ts : List Token} (hfirst : first ∈ ts) (hrun : run ⊆ ts) :
    s.From ts := by
  cases h with
  | command hnamed => exact .command hfirst hnamed rfl hrun
  | stray => exact .stray hfirst
  | unknown => exact .unknown hfirst

/-- Every statement of a block, however deep in its loops, is made of the tokens of its sentence. -/
theorem Sentence.from_tokens {read : List Token} {b : Block} (h : Sentence read b)
    {ts : List Token} (hread : read ⊆ ts) : ∀ s, .statement s ∈ b.flatten → s.From ts := by
  induction h with
  | done => simp [Block.flatten]
  | @statement first run rest s next hphrase hnext ih =>
    obtain ⟨hfirst, htail⟩ := List.cons_subset.mp hread
    obtain ⟨hrun, hrest⟩ := List.append_subset.mp htail
    intro s' hs'
    rcases List.mem_cons.mp hs' with hs' | hs'
    · obtain rfl := Instr.statement.inj hs'
      exact hphrase.from_tokens hfirst hrun
    · exact ih hrest s' hs'
  | @loop start count opening inner closing rest n body next _ _ _ _ _ _ ihbody ihnext =>
    obtain ⟨-, htail⟩ := List.cons_subset.mp hread
    obtain ⟨-, htail⟩ := List.cons_subset.mp htail
    obtain ⟨-, htail⟩ := List.cons_subset.mp htail
    obtain ⟨hinner, htail⟩ := List.append_subset.mp htail
    obtain ⟨-, hrest⟩ := List.cons_subset.mp htail
    intro s hs
    rcases List.mem_cons.mp hs with hs | hs
    · cases hs
    · rcases List.mem_append.mp hs with hs | hs
      · exact ihbody hinner s hs
      · exact ihnext hrest s hs

theorem read_from_tokens (text : String) :
    ∀ s, .statement s ∈ (Program.read text).code → s.From (tokens text) := by
  obtain ⟨read, b, hprefix, hsentence, hcode⟩ := exists_sentence_prefix text
  intro s hs
  rw [hcode, List.mem_toArray] at hs
  exact hsentence.from_tokens hprefix.subset s hs

/-! ## Faults point at tokens -/

/-- The problem is about a token of the text, and says of it what stands there. -/
def Problem.PointsInto (text : String) (p : Problem) : Prop :=
  p.span.IsTokenOf text ∧ p.Fits text

/-- The warning is about a token of the text, and says of it what stands there. -/
def Warning.PointsInto (text : String) (w : Warning) : Prop :=
  w.span.IsTokenOf text ∧ w.Fits text

/-- The brackets of the loops that are open are brackets of the text. -/
theorem Draft.Steps.opened_from {ts : List Token} {d : Draft} (h : Draft.Steps (.start ts) d) :
    ∀ o ∈ d.opened, o.bracket ∈ ts ∧ o.bracket.isOpen = true := by
  induction h with
  | refl => simp [Draft.start]
  | @tail d d' hsteps hstep ih =>
    have hsuffix : d.rest <:+ ts := Draft.Steps.rest_suffix hsteps
    cases Draft.step_eq_inl.mp hstep with
    | close => exact fun o ho => ih o (List.mem_cons_of_mem _ ho)
    | loop _ hhead =>
      obtain ⟨count, rfl, -, hopen⟩ := readLoopHead_eq_ok.mp hhead
      rw [List.forall_mem_cons]
      exact ⟨⟨hsuffix.subset (by simp), hopen⟩, ih⟩
    | statement => exact ih

/-- A token that offends is what its problem is about, or one of the two after it is. -/
theorem Offends.pointsInto {text : String} {t : Token} {rest : List Token} {p : Problem}
    (h : Offends t rest p) (hsuffix : t :: rest <:+ tokens text) : p.PointsInto text := by
  obtain ⟨before, htokens⟩ := hsuffix
  have hmem : ∀ u ∈ t :: rest, u ∈ tokens text := by
    intro u hu
    rw [← htokens]
    exact List.mem_append_right before hu
  have ht : t ∈ tokens text := hmem t (by simp)
  cases h with
  | noCount hrepeat => exact ⟨isTokenOf_of_mem ht, (text_of_mem ht).symm.trans hrepeat⟩
  | bracketForCount hrepeat => exact ⟨isTokenOf_of_mem ht, (text_of_mem ht).symm.trans hrepeat⟩
  | @badCount c rest =>
    have hc : c ∈ tokens text := hmem c (by simp)
    exact ⟨isTokenOf_of_mem hc, text_of_mem hc⟩
  | @noBody c n hrepeat hcount =>
    have hc : c ∈ tokens text := hmem c (by simp)
    exact ⟨isTokenOf_of_mem hc, fragment_ne_open hc hcount.not_bracket.1,
      before, t, c, [], n, htokens.symm, hrepeat, hcount, rfl⟩
  | @otherForBody c n b rest hrepeat hcount hopen =>
    have hb : b ∈ tokens text := hmem b (by simp)
    exact ⟨isTokenOf_of_mem hb, fragment_ne_open hb hopen,
      before, t, c, b :: rest, n, htokens.symm, hrepeat, hcount, rfl⟩
  | unasked hopen => exact ⟨isTokenOf_of_mem ht, fragment_of_isOpen ht hopen⟩

theorem fault_pointsInto {text : String} {p : Problem} (h : (Program.read text).fault = some p) :
    p.PointsInto text := by
  obtain ⟨d, hsteps, hstops, -⟩ := exists_stops_of_fault h
  have hsuffix : d.rest <:+ tokens text := Draft.Steps.rest_suffix hsteps
  generalize hfault : some p = fault at hstops
  cases hstops with
  | ended =>
    -- the outermost open loop is one of those that are open
    obtain ⟨o, ho, rfl⟩ := Option.map_eq_some_iff.mp hfault.symm
    obtain ⟨hmem, hopen⟩ := Draft.Steps.opened_from hsteps o (List.mem_of_getLast? ho)
    exact ⟨isTokenOf_of_mem hmem, fragment_of_isOpen hmem hopen⟩
  | @unmatched t rest hrest hclose =>
    obtain rfl := Option.some_inj.mp hfault
    have ht : t ∈ tokens text := hsuffix.subset (by simp [hrest])
    exact ⟨isTokenOf_of_mem ht, fragment_of_isClose ht hclose⟩
  | broken hrest hbreaks =>
    obtain rfl := Option.some_inj.mp hfault
    rw [hrest] at hsuffix
    exact (breaks_iff_offends.mp hbreaks).pointsInto hsuffix

/-! ## Warnings point at the command or its input -/

/-- What a warning can be about when a command reads its inputs: a missing input is reported at the
command, an unusable one where it stands. -/
inductive Warning.About (c : Command) : Warning → Prop where
  | missing : About c (.missingInput c.primitive c.span)
  | malformed {t} : t ∈ c.inputs → About c (.malformedInput c.primitive t.text t.span)
  | unknown {t fallback} : t ∈ c.inputs →
      About c (.unknownColor (Command.unquote t.text) fallback t.span)

namespace Command

variable (c : Command)

theorem number_warnings (i : Nat) : ∀ w ∈ (c.number i).warnings, w.About c := by
  unfold number
  split
  · simpa using .missing
  · rename_i t ht
    split
    · simp
    · simpa using .malformed (List.mem_of_getElem? ht)

theorem color_warnings (palette : Palette) : ∀ w ∈ (c.color palette).warnings, w.About c := by
  unfold color
  split
  · simpa using .missing
  · rename_i t ht
    dsimp only
    split
    · simp
    · simpa using .unknown (List.mem_of_getElem? ht)

/-- Every warning of a command is about the command or one of its inputs. -/
theorem action_warnings (palette : Palette) : ∀ w ∈ (c.action palette).warnings, w.About c := by
  have hone : ∀ f, ∀ w ∈ (c.one f).warnings, w.About c := fun _ => c.number_warnings 0
  have htwo : ∀ f, ∀ w ∈ (c.two f).warnings, w.About c := by
    intro f w hw
    rcases List.mem_append.mp hw with hw | hw
    · exact c.number_warnings 0 w hw
    · exact c.number_warnings 1 w hw
  unfold action
  split
  all_goals first
    | exact hone _
    | exact htwo _
    | exact c.color_warnings palette
    | simp

end Command

theorem isUnquoted_unquote (s : String) : IsUnquoted s (Command.unquote s) := by
  let quote : Char → Bool := (· == '"')
  let rest := s.toList.dropWhile quote
  have hunquote : (Command.unquote s).toList = rest.rdropWhile quote := String.toList_ofList
  refine ⟨(s.toList.takeWhile quote).length, (rest.rtakeWhile quote).length, ?_, ?_, ?_⟩
  · have hfront : ∀ c ∈ s.toList.takeWhile quote, c = '"' :=
      fun c hc => by simpa [quote] using List.mem_takeWhile_imp hc
    have hback : ∀ c ∈ rest.rtakeWhile quote, c = '"' :=
      fun c hc => by simpa [quote] using List.mem_rtakeWhile_imp hc
    rw [hunquote, ← List.eq_replicate_of_mem hfront, ← List.eq_replicate_of_mem hback,
      List.append_assoc, List.rdropWhile_append_rtakeWhile, List.takeWhile_append_dropWhile]
  · -- what is left begins as it did before the quotes at the end were dropped
    rw [hunquote]
    intro hhead
    obtain ⟨after, hafter⟩ := List.rdropWhile_prefix quote rest
    have hrest : rest.head? = some '"' := by
      rw [← hafter, List.head?_append, hhead]
      rfl
    have hnot := List.head?_dropWhile_not quote s.toList
    rw [show (s.toList.dropWhile quote).head? = some '"' from hrest] at hnot
    cases hnot
  · rw [hunquote]
    intro hlast
    obtain ⟨front, hfront⟩ := List.getLast?_eq_some_iff.mp hlast
    have hnot := List.rdropWhile_last_not quote rest (by simp [hfront])
    simp [hfront, quote] at hnot

theorem Warning.About.pointsInto {text : String} {c : Command} {w : Warning} (h : w.About c)
    (hc : (Statement.command c).From (tokens text)) : w.PointsInto text := by
  cases hc with
  | @command first _ hfirst hnamed hspan hinputs =>
    cases h with
    | missing =>
      refine ⟨?_, ?_⟩
      · rw [Warning.span, hspan]
        exact isTokenOf_of_mem hfirst
      · rwa [Warning.Fits, hspan, ← text_of_mem hfirst]
    | malformed ht => exact ⟨isTokenOf_of_mem (hinputs ht), text_of_mem (hinputs ht)⟩
    | @unknown t fallback ht =>
      refine ⟨isTokenOf_of_mem (hinputs ht), ?_⟩
      rw [Warning.Fits, ← text_of_mem (hinputs ht)]
      exact isUnquoted_unquote t.text

/-! ## Reports -/

/-- All problems and warnings so far point into the text. -/
structure Execution.PointsInto (text : String) (e : Execution) : Prop where
  problems : ∀ p ∈ e.problems, p.PointsInto text
  warnings : ∀ w ∈ e.warnings, w.PointsInto text

namespace Execution

variable {text : String} {e : Execution}

/-- What is done by an action gives rise to no diagnostic; only its inputs do. -/
theorem perform_diagnostics (e : Execution) (action : Action Float) :
    (e.perform action).problems = e.problems ∧ (e.perform action).warnings = e.warnings := by
  cases action with
  | clearScreen | xcor | ycor | heading => exact ⟨rfl, rfl⟩
  | _ => simp only [perform, foldl_draw, and_self]

theorem PointsInto.complain (h : e.PointsInto text) {p : Problem} (hp : p.PointsInto text) :
    (e.complain p).PointsInto text where
  problems := by
    intro q hq
    rcases Array.mem_push.mp hq with hq | rfl
    · exact h.problems q hq
    · exact hp
  warnings := h.warnings

theorem PointsInto.act (h : e.PointsInto text) (palette : Palette) {s : Statement}
    (hs : s.From (tokens text)) : (e.act palette s).PointsInto text := by
  cases s with
  | command c =>
    obtain ⟨hproblems, hwarnings⟩ := perform_diagnostics
      { e with warnings := e.warnings ++ (c.action palette).warnings } (c.action palette).value
    constructor
    · intro p hp
      rw [Execution.act, hproblems] at hp
      exact h.problems p hp
    · intro w hw
      rw [Execution.act, hwarnings] at hw
      rw [← Array.mem_toList_iff, Array.toList_appendList, List.mem_append] at hw
      rcases hw with hw | hw
      · exact h.warnings w (Array.mem_toList_iff.mp hw)
      · exact (c.action_warnings palette w hw).pointsInto hs
  | unknown word span =>
    cases hs with
    | unknown ht => exact h.complain ⟨isTokenOf_of_mem ht, text_of_mem ht⟩
  | stray value span =>
    cases hs with
    | stray ht => exact h.complain ⟨isTokenOf_of_mem ht, text_of_mem ht⟩

theorem PointsInto.run (h : e.PointsInto text) (palette : Palette) :
    (e.run palette (Program.read text)).PointsInto text := by
  apply Execution.run_preserves ?_ ?_ h
  · exact fun e s hs he => he.act palette (read_from_tokens text s hs)
  · exact fun e p hp he => he.complain (fault_pointsInto hp)

end Execution

/-- Diagnostics point at what they complain about. In every workspace and for every text, each
problem and each warning of the report has the span of one token of the text, with that token's line
and column, and the fragment there is the word, value, count, input or name that it repeats, the word
whose inputs are missing, or the bracket or token at which the reading had to stop. -/
theorem report_points (w : Workspace) (text : String) :
    (∀ p ∈ (w.interpret text).report.problems, p.span.IsTokenOf text ∧ p.Fits text) ∧
      ∀ x ∈ (w.interpret text).report.warnings, x.span.IsTokenOf text ∧ x.Fits text := by
  have hstart : (Execution.start w.turtle w.path).PointsInto text := by
    constructor <;> simp [Execution.start]
  have hrun := hstart.run w.palette
  exact ⟨hrun.problems, hrun.warnings⟩

end TurtleGraphics
