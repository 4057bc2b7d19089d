import TurtleGraphics.Proofs.Sessions

namespace TurtleGraphics.CommandLine

open Text (tokens trim)

/-! # The log of a session

A transcript loses nothing of a session and invents nothing. Its commands and its log do not last
equally long: clearing the screen empties the log and leaves the commands.

* `Exchange.block`: what is logged of one exchange.
* `IsRecent`: the exchanges since the screen was last cleared.
* `HoldsOf`: a transcript holds some exchanges, the commands of all and the blocks of the recent ones.
  Taking down one more preserves this (`HoldsOf.record`), so a session does (`HoldsOf.after`).

`transcript_complete` is about all that can be entered in a session.
-/

namespace Exchange

/-- The input is blank, and nothing is taken down. -/
def isBlank (e : Exchange) : Bool := (trim e.input).isEmpty

theorem isBlank_eq (e : Exchange) : e.isBlank = (trim e.input).isEmpty := rfl

theorem isBlank_iff (e : Exchange) : e.isBlank = true ↔ tokens e.input = [] := by
  rw [isBlank_eq, Text.trim_isEmpty_iff]

/-- What is logged of an exchange: the input, and then the warnings, the answers and the problems. -/
def block (e : Exchange) : List Entry :=
  ⟨.input, "? " ++ trim e.input⟩ ::
    (e.report.warnings.toList.map (fun w => ⟨.output, "Warning: " ++ w.text⟩)
      ++ e.report.output.toList.map (fun line => ⟨.output, line⟩)
      ++ e.report.problems.toList.map (fun p => ⟨.error, "Error: " ++ p.text⟩))

theorem countP_block (e : Exchange) :
    e.block.countP (·.kind = .error) = e.report.problems.size := by
  simp [block, List.countP_map, Function.comp_def]

end Exchange

/-- `recent` are the last of some exchanges: from the last one on that cleared the screen, or all of
them if none did. -/
structure IsRecent (recent es : List Exchange) : Prop where
  suffix : recent <:+ es
  begins : recent = es ∨ ∃ e, recent.head? = some e ∧ e.report.cleared = true
  keeps : ∀ e ∈ recent.tail, e.report.cleared = false

namespace IsRecent

variable {recent es : List Exchange} {e : Exchange}

theorem concat_cleared (es : List Exchange) (h : e.report.cleared = true) :
    IsRecent [e] (es ++ [e]) where
  suffix := List.suffix_append es [e]
  begins := .inr ⟨e, rfl, h⟩
  keeps := by simp

theorem concat_kept (hrecent : IsRecent recent es) (h : e.report.cleared = false) :
    IsRecent (recent ++ [e]) (es ++ [e]) where
  suffix := by
    obtain ⟨before, rfl⟩ := hrecent.suffix
    exact ⟨before, (List.append_assoc ..).symm⟩
  begins := by
    rcases hrecent.begins with rfl | ⟨first, hfirst, hcleared⟩
    · exact .inl rfl
    · exact .inr ⟨first, by simp [hfirst], hcleared⟩
  keeps := by
    cases recent with
    | nil => simp
    | cons first rest =>
      intro e' he'
      rcases List.mem_append.mp he' with he' | he'
      · exact hrecent.keeps e' he'
      · rwa [List.mem_singleton.mp he']

end IsRecent

/-- The transcript has the commands of some exchanges, and what was logged of the recent ones. -/
structure HoldsOf (t : Transcript) (es : List Exchange) : Prop where
  commands : t.commands.toList = es.map fun e => trim e.input
  log : ∃ recent, IsRecent recent es ∧ t.log.toList = recent.flatMap Exchange.block

namespace HoldsOf

variable {t : Transcript} {es : List Exchange}

theorem empty : HoldsOf .empty [] where
  commands := rfl
  log := ⟨[], ⟨List.suffix_refl [], .inl rfl, by simp⟩, rfl⟩

/-- One more exchange is taken down, unless its input is blank. -/
theorem record (h : HoldsOf t es) (e : Exchange) :
    HoldsOf (t.record e.input e.report) (es ++ [e].filter (!·.isBlank)) := by
  by_cases hblank : e.isBlank = true
  · have hrecord : t.record e.input e.report = t := by
      simp only [Transcript.record, ← Exchange.isBlank_eq, hblank, if_true]
    simpa [hrecord, hblank] using h
  · have hrecord : t.record e.input e.report =
        { commands := t.commands.push (trim e.input)
          log := (if e.report.cleared then #[] else t.log).push ⟨.input, "? " ++ trim e.input⟩
            ++ e.report.entries } := by
      simp only [Transcript.record, ← Exchange.isBlank_eq, hblank, Bool.false_eq_true, if_false]
    have hfilter : [e].filter (!·.isBlank) = [e] := by simp [hblank]
    rw [hrecord, hfilter]
    obtain ⟨recent, hrecent, hlog⟩ := h.log
    refine ⟨by simp [h.commands], ?_⟩
    cases hcleared : e.report.cleared with
    | true => exact ⟨[e], .concat_cleared es hcleared, by simp [Exchange.block, Report.entries]⟩
    | false =>
      refine ⟨recent ++ [e], hrecent.concat_kept hcleared, ?_⟩
      simp [hlog, Exchange.block, Report.entries]

/-- A session takes down all that is entered, apart from blank inputs. -/
theorem after {x : Session} (h : HoldsOf x.transcript es) (inputs : List String) :
    HoldsOf (x.after inputs).transcript
      (es ++ (x.exchanges inputs).filter (!·.isBlank)) := by
  induction inputs generalizing x es with
  | nil => simpa [Session.exchanges] using h
  | cons input inputs ih =>
    have hfirst := h.record ⟨input, (x.enter input).2⟩
    rw [← Session.transcript_enter] at hfirst
    have hrest := ih hfirst
    rwa [List.append_assoc, ← List.filter_append] at hrest

/-- Every error that is counted is a problem of a recent report. -/
theorem errors_eq {recent : List Exchange} (h : t.log.toList = recent.flatMap Exchange.block) :
    t.errors = (recent.map (·.report.problems.size)).sum := by
  rw [Transcript.errors, ← Array.countP_toList, h, List.countP_flatMap]
  simp only [Function.comp_def, Exchange.countP_block]

end HoldsOf

theorem Session.map_input_exchanges (x : Session) (inputs : List String) :
    (x.exchanges inputs).map (·.input) = inputs := by
  induction inputs generalizing x with
  | nil => rfl
  | cons input inputs ih => rw [exchanges, List.map_cons, ih]

/-- What is said in an exchange of a session is the report on its input in some workspace. -/
theorem Session.exists_interpret {x : Session} {inputs : List String} {e : Exchange}
    (h : e ∈ x.exchanges inputs) : ∃ w : Workspace, e.report = (w.interpret e.input).report := by
  induction inputs generalizing x with
  | nil => cases h
  | cons input inputs ih =>
    rcases List.mem_cons.mp h with rfl | h
    · exact ⟨x.workspace, rfl⟩
    · exact ih h

/-- A transcript loses nothing and invents nothing. Whatever is entered in a session, its commands are
the inputs, trimmed, that are not blank; its log has one block for each of them, from the last one on
that cleared the screen; its errors are the problems that these had. The inputs that it passes over
are those without tokens, about which there was nothing to say. -/
theorem transcript_complete (w : Workspace) (inputs : List String) :
    let x : Session := ⟨w, .empty⟩
    let t := (x.after inputs).transcript
    let taken := (x.exchanges inputs).filter (!·.isBlank)
    t.commands.toList = (inputs.map trim).filter (!·.isEmpty) ∧
      (∃ recent, IsRecent recent taken ∧ t.log.toList = recent.flatMap Exchange.block ∧
        t.errors = (recent.map (·.report.problems.size)).sum) ∧
      ∀ e ∈ x.exchanges inputs, (e.isBlank = true ↔ tokens e.input = []) ∧
        (e.isBlank = true → e.report.segments = #[] ∧ e.report.cleared = false ∧
          e.report.output = #[] ∧ e.report.warnings = #[] ∧ e.report.problems = #[]) := by
  intro x t taken
  have hholds : HoldsOf t taken := HoldsOf.empty.after (x := x) inputs
  refine ⟨?_, ?_, ?_⟩
  · have hinputs := Session.map_input_exchanges x inputs
    rw [hholds.commands, ← hinputs, List.map_map, List.filter_map]
    simp only [taken, Function.comp_def, Exchange.isBlank_eq]
  · obtain ⟨recent, hrecent, hlog⟩ := hholds.log
    exact ⟨recent, hrecent, hlog, HoldsOf.errors_eq hlog⟩
  · intro e he
    refine ⟨e.isBlank_iff, fun hblank => ?_⟩
    obtain ⟨w', hreport⟩ := Session.exists_interpret he
    rw [hreport, interpret_of_tokens_eq_nil w' (e.isBlank_iff.mp hblank)]
    exact ⟨rfl, rfl, rfl, rfl, rfl⟩

end TurtleGraphics.CommandLine
