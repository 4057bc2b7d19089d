import TurtleGraphics.Proofs.Succession

namespace TurtleGraphics

open Text (Span Token tokens placeless nowhere)

/-! # Loops as copies

A loop is an abbreviation: it does what its body does when the text of the body is written out as
often as the loop runs. The body is read once in the loop and several times outside of it, each time
at another place, so the two are compared without places.

* `Block.replicate`, `Sentence.replicate`: a block, and the tokens that make it, several times over.
* `sentence_mapSpan_iff`: tokens make a sentence wherever they stand.
* `placeless_loopText`, `Copies.placeless_eq`: the tokens of the two texts.
* `Sentence.interpret_eq`, `sameApartFromSpans`: texts whose blocks do the same apart from places.

`interpret_loop_eq_copies` is the consequence for the outcomes of the two texts.
-/

/-! ## A block several times over -/

/-- So many copies of a block, one after another. -/
def Block.replicate (b : Block) : Nat → Block
  | 0 => .done
  | n + 1 => b.append (b.replicate n)

theorem Block.run_replicate {σ : Type} (act : σ → Statement → σ) (b : Block) (n : Nat) (e : σ) :
    (b.replicate n).run act e = (b.run act)^[n] e := by
  induction n generalizing e with
  | zero => rfl
  | succ n ih => rw [Block.replicate, Block.run_append, ih, Function.iterate_succ_apply]

/-- What comes first may not begin with an input, or the last statement of the other might take
it. -/
theorem Sentence.append {ts us : List Token} {b c : Block} (h : Sentence ts b)
    (h' : Sentence us c) (hus : StartsFresh us) : Sentence (ts ++ us) (b.append c) := by
  induction h with
  | done => exact h'
  | statement hphrase _ ih =>
    rw [List.cons_append, List.append_assoc]
    exact .statement (hphrase.of_startsFresh (·.append hus)) ih
  | loop hstart hcount hopening hinner hclosing _ _ ih =>
    simp only [List.cons_append, List.append_assoc]
    exact .loop hstart hcount hopening hinner hclosing ih

theorem startsFresh_flatten_replicate {ts : List Token} (h : StartsFresh ts) (n : Nat) :
    StartsFresh (List.replicate n ts).flatten := by
  induction n with
  | zero => exact startsFresh_nil
  | succ n ih =>
    rw [List.replicate_succ, List.flatten_cons]
    exact h.append ih

theorem Sentence.replicate {ts : List Token} {b : Block} (h : Sentence ts b)
    (hts : StartsFresh ts) (n : Nat) :
    Sentence (List.replicate n ts).flatten (b.replicate n) := by
  induction n with
  | zero => exact .done
  | succ n ih =>
    rw [List.replicate_succ, List.flatten_cons]
    exact h.append ih (startsFresh_flatten_replicate hts n)

/-! ## Sentences wherever they stand -/

/-- The reading does not look at places, so tokens make the same sentence wherever they stand. -/
theorem sentence_mapSpan_iff (f : Span → Span) {ts : List Token} {c : Block} :
    Sentence (ts.map (·.mapSpan f)) c ↔ ∃ b, Sentence ts b ∧ b.mapSpan f = c := by
  have hstart : Draft.start (ts.map (·.mapSpan f)) = (Draft.start ts).onTop f #[] := by
    simp [Draft.onTop, Draft.start]
  have hrun : (Draft.start (ts.map (·.mapSpan f))).run = (Draft.start ts).run.onTop f #[] := by
    rw [hstart, Draft.run_onTop]
  have hmapped : ∀ b, Sentence ts b →
      (Draft.start (ts.map (·.mapSpan f))).run = ⟨(b.mapSpan f).flatten.toArray, none⟩ := by
    intro b hb
    rw [hrun, hb.run_eq, Block.flatten_mapSpan]
    simp [Program.onTop]
  constructor
  · intro h
    have hfault : (Draft.start ts).run.fault = none := by
      rw [h.run_eq] at hrun
      simpa [Program.onTop] using (congrArg Program.fault hrun).symm
    obtain ⟨b, hb⟩ := exists_sentence_of_run hfault
    -- the tokens make some block, which can only be this one
    have hcode := congrArg (·.code.toList) ((hmapped b hb).symm.trans h.run_eq)
    exact ⟨b, hb, Block.flatten_injective hcode⟩
  · rintro ⟨b, hb, rfl⟩
    have hfault : (Draft.start (ts.map (·.mapSpan f))).run.fault = none := by rw [hmapped b hb]
    obtain ⟨c, hc⟩ := exists_sentence_of_run hfault
    have hcode := congrArg (·.code.toList) ((hmapped b hb).symm.trans hc.run_eq)
    rwa [Block.flatten_injective hcode]

/-! ## Outcomes without places -/

/-- The execution with the spans of its diagnostics changed. -/
def Execution.mapSpan (f : Span → Span) (e : Execution) : Execution :=
  { e with
    problems := e.problems.map (·.mapSpan f)
    warnings := e.warnings.map (·.mapSpan f) }

/-- The report with the spans of its diagnostics changed. -/
def Report.mapSpan (f : Span → Span) (r : Report) : Report :=
  { r with
    problems := r.problems.map (·.mapSpan f)
    warnings := r.warnings.map (·.mapSpan f) }

theorem Execution.act_mapSpan (f : Span → Span) (palette : Palette) (e : Execution)
    (s : Statement) :
    (e.mapSpan f).act palette (s.mapSpan f) = (e.act palette s).mapSpan f := by
  -- a change of spans is what it takes to go on from an execution that has reported nothing
  have hempty : ∀ e' : Execution,
      (Execution.start e.turtle e.path).andThen f e' = e'.mapSpan f := by
    intro e'
    simp [Execution.andThen, Execution.start, Execution.mapSpan]
  have hact := Execution.andThen_act (Execution.start e.turtle e.path) f palette e s
  rwa [hempty, hempty] at hact

/-- The workspace and the report that an execution leaves behind. -/
def Workspace.outcome (w : Workspace) (e : Execution) : Outcome :=
  ⟨{ w with turtle := e.turtle, path := e.path }, e.report, e.calls⟩

/-- A text without a fault is carried out by recursion over its block. -/
theorem Sentence.interpret_eq {text : String} {b : Block} (h : Sentence (tokens text) b)
    (w : Workspace) :
    w.interpret text =
      w.outcome (b.run (Execution.act w.palette) (Execution.start w.turtle w.path)) := by
  have hcode : (⟨b.flatten.toArray, none⟩ : Program).code.toList = b.flatten := rfl
  have hrun := Execution.run_eq_run_block w.palette (Execution.start w.turtle w.path) hcode
  rw [Workspace.interpret, h.read_eq, hrun]
  rfl

/-- Two outcomes that differ at most in the places that their diagnostics give. -/
structure Outcome.SameApartFromSpans (o o' : Outcome) : Prop where
  workspace : o.workspace = o'.workspace
  calls : o.calls = o'.calls
  report : o.report.mapSpan nowhere = o'.report.mapSpan nowhere

/-- Executions that differ in nothing but spans leave the same behind apart from spans. -/
theorem outcome_sameApartFromSpans (w : Workspace) {e e' : Execution}
    (h : e.mapSpan nowhere = e'.mapSpan nowhere) :
    (w.outcome e).SameApartFromSpans (w.outcome e') := by
  have hturtle := congrArg Execution.turtle h
  have hpath := congrArg Execution.path h
  have hcalls := congrArg Execution.calls h
  have hreport := congrArg Execution.report h
  simp only [Execution.mapSpan] at hturtle hpath hcalls
  constructor
  · simp only [Workspace.outcome, hturtle, hpath]
  · exact hcalls
  · exact hreport

/-- Texts have the same outcome apart from spans if their blocks do the same apart from spans. -/
theorem sameApartFromSpans {text text' : String} {b b' : Block} (h : Sentence (tokens text) b)
    (h' : Sentence (tokens text') b') (w : Workspace)
    (hrun : ∀ e, (b.mapSpan nowhere).run (Execution.act w.palette) e =
      (b'.mapSpan nowhere).run (Execution.act w.palette) e) :
    (w.interpret text).SameApartFromSpans (w.interpret text') := by
  rw [h.interpret_eq, h'.interpret_eq]
  apply outcome_sameApartFromSpans
  rw [← Block.run_mapSpan nowhere (Execution.act_mapSpan nowhere w.palette),
    ← Block.run_mapSpan nowhere (Execution.act_mapSpan nowhere w.palette), hrun]

/-! ## The two texts -/

/-- The text of a loop. -/
def loopText (n : Nat) (body : String) : String :=
  "repeat " ++ Nat.repr n ++ " [" ++ body ++ "]"

/-- The text consists of so many copies of a text, with one or more blanks between any two. -/
inductive Copies (body : String) : Nat → String → Prop where
  | none : Copies body 0 ""
  | one : Copies body 1 body
  | more {n text} (gap : String) : gap ≠ "" → (∀ c ∈ gap.toList, Text.isBlank c = true) →
      Copies body (n + 1) text → Copies body (n + 2) (body ++ gap ++ text)

theorem isCount_repr {n : Nat} (h : n < 2 ^ 32) : IsCount (Nat.repr n) n := by
  refine ⟨Nat.toDigits 10 n, .inl Nat.toList_repr, Nat.toDigits_ne_nil, ?_, ?_, h⟩
  · exact fun d hd => Nat.isDigit_of_mem_toDigits (by decide) (by decide) hd
  · exact Nat.ofDigitChars_ten_toDigits

theorem toNat_of_isDigit {c : Char} (h : c.isDigit = true) : 48 ≤ c.toNat ∧ c.toNat ≤ 57 := by
  simp only [Char.isDigit, Bool.and_eq_true, decide_eq_true_eq, ge_iff_le,
    UInt32.le_iff_toNat_le] at h
  exact h

theorem isWordChar_of_isDigit {c : Char} (h : c.isDigit = true) : Text.isWordChar c = true := by
  obtain ⟨hlow, hhigh⟩ := toNat_of_isDigit h
  rw [← Char.ofNat_toNat c]
  generalize c.toNat = n at hlow hhigh
  interval_cases n <;> decide

theorem upperChar_of_isDigit {c : Char} (h : c.isDigit = true) : Text.upperChar c = [c] := by
  obtain ⟨hlow, hhigh⟩ := toNat_of_isDigit h
  have hlower : ¬ c.isLower = true := by
    simp only [Char.isLower, Bool.and_eq_true, decide_eq_true_eq, ge_iff_le,
      UInt32.le_iff_toNat_le, not_and]
    intro (hge : 97 ≤ c.toNat)
    omega
  have hascii : c.toNat < 128 := by omega
  simp only [Text.upperChar, hascii, ↓reduceIte, Char.toUpper_eq_of_not_isLower hlower]

/-- The token of a word, without its place. -/
def word (text : String) : Token := ⟨text, ⟨0, 0, 0, 0⟩⟩

/-- Digits are one token, and stay as they are in upper case. -/
theorem placeless_digits {ds : List Char} (hne : ds ≠ []) (hds : ∀ d ∈ ds, d.isDigit = true) :
    placeless ds = [word (String.ofList ds)] := by
  obtain ⟨c, cs, rfl⟩ := List.exists_cons_of_ne_nil hne
  obtain ⟨hc, hcs⟩ := List.forall_mem_cons.mp hds
  have hlexes : Text.Lexes .start (c :: (cs ++ [])) [.of .start (c :: cs)] :=
    .word (isWordChar_of_isDigit hc) (fun d hd => isWordChar_of_isDigit (hcs d hd)) (by simp) .nil
  have hupper : (c :: cs).flatMap Text.upperChar = c :: cs := by
    rw [List.flatMap_congr fun d hd => upperChar_of_isDigit (hds d hd)]
    simp
  rw [List.append_nil] at hlexes
  rw [placeless, hlexes.tokensAt_eq]
  simp only [Text.Token.of, Text.upper, String.toList_ofList, hupper]
  rfl

theorem placeless_loopText (n : Nat) (body : String) :
    placeless (loopText n body).toList =
      word "REPEAT" :: word (Nat.repr n) :: word "[" ::
        (placeless body.toList ++ [word "]"]) := by
  have hdigits : placeless (Nat.repr n).toList = [word (Nat.repr n)] := by
    rw [placeless_digits]
    · rw [String.ofList_toList]
    · rw [Nat.toList_repr]
      exact Nat.toDigits_ne_nil
    · rw [Nat.toList_repr]
      exact fun d hd => Nat.isDigit_of_mem_toDigits (by decide) (by decide) hd
  have hrepeat : placeless "repeat ".toList = [word "REPEAT"] := by cbv
  have hopen : placeless " [".toList = [word "["] := by cbv
  have hclose : placeless "]".toList = [word "]"] := by cbv
  have htext : (loopText n body).toList =
      "repeat ".toList ++ ((Nat.repr n).toList ++ (" [".toList ++ (body.toList ++ "]".toList))) := by
    simp [loopText]
  -- every join has a blank or a bracket on one of its sides
  have hjoin₁ : Text.Parted "repeat ".toList
      ((Nat.repr n).toList ++ (" [".toList ++ (body.toList ++ "]".toList))) :=
    .of_left (c := ' ') rfl (by decide)
  have hjoin₂ : Text.Parted (Nat.repr n).toList (" [".toList ++ (body.toList ++ "]".toList)) :=
    .of_right (d := ' ') rfl (by decide)
  have hjoin₃ : Text.Parted " [".toList (body.toList ++ "]".toList) :=
    .of_left (c := '[') rfl (by decide)
  have hjoin₄ : Text.Parted body.toList "]".toList := .of_right (d := ']') rfl (by decide)
  rw [htext, Text.placeless_append hjoin₁, Text.placeless_append hjoin₂,
    Text.placeless_append hjoin₃, Text.placeless_append hjoin₄, hrepeat, hdigits, hopen, hclose]
  rfl

theorem Copies.placeless_eq {body text : String} {n : Nat} (h : Copies body n text) :
    placeless text.toList = (List.replicate n (placeless body.toList)).flatten := by
  induction h with
  | none => exact Text.placeless_blanks (by simp)
  | one => simp
  | @more n text gap hgap hblank _ ih =>
    have hne : gap.toList ≠ [] := by simpa using hgap
    rw [String.toList_append, String.toList_append, Text.placeless_gap hne hblank, ih]
    simp [List.replicate_succ]

/-! ## Loops and copies -/

/-- What comes of doing nothing. -/
def Workspace.idle (w : Workspace) : Outcome :=
  w.outcome (Execution.start w.turtle w.path)

/-- A loop around a text does what so many copies of the text do, with the same problems and
warnings in the same order, whatever the text does. A loop that never runs does nothing. -/
theorem interpret_loop_eq_copies (w : Workspace) (body : String) (n : Nat) (text : String)
    (hn : n < 2 ^ 32) (hbody : (Program.read body).fault = none)
    (hfresh : StartsFresh (tokens body)) (htext : Copies body n text) :
    (w.interpret (loopText n body)).SameApartFromSpans (w.interpret text) ∧
      (n = 0 → w.interpret (loopText n body) = w.idle) := by
  obtain ⟨b, hb⟩ := exists_sentence_of_fault_none hbody
  have hinner : Sentence (placeless body.toList) (b.mapSpan nowhere) :=
    (sentence_mapSpan_iff nowhere).mpr ⟨b, hb, rfl⟩
  have hinnerFresh : StartsFresh (placeless body.toList) := hfresh.mapSpan nowhere
  -- without places, the tokens of the loop are a loop around those of the body
  have hloop : Sentence (placeless (loopText n body).toList)
      (.loop n (word "REPEAT").span (b.mapSpan nowhere) .done) := by
    rw [placeless_loopText]
    exact .loop rfl (isCount_repr hn) rfl hinner rfl .done
  have hcopies : Sentence (placeless text.toList) ((b.mapSpan nowhere).replicate n) := by
    rw [htext.placeless_eq]
    exact hinner.replicate hinnerFresh n
  obtain ⟨loop, hloop, hloopBlock⟩ := (sentence_mapSpan_iff nowhere).mp hloop
  obtain ⟨copies, hcopies, hcopiesBlock⟩ := (sentence_mapSpan_iff nowhere).mp hcopies
  constructor
  · refine sameApartFromSpans hloop hcopies w fun e => ?_
    rw [hloopBlock, hcopiesBlock, Block.run_replicate]
    rfl
  · rintro rfl
    rw [hloop.interpret_eq]
    cases loop with
    | loop count span inner next =>
      simp only [Block.mapSpan, Block.loop.injEq] at hloopBlock
      obtain ⟨rfl, -, -, hnext⟩ := hloopBlock
      cases next with
      | done => rfl
      | statement => cases hnext
      | loop => cases hnext
    | done => cases hloopBlock
    | statement => cases hloopBlock

/-- A body that clears the screen, and gives rise to a warning and a problem each time. -/
theorem interpret_loop_eq_copies_twice :
    2 < 2 ^ 32 ∧ (Program.read "cs fd x foo").fault = none ∧
      StartsFresh (tokens "cs fd x foo") ∧
      Copies "cs fd x foo" 2 ("cs fd x foo" ++ "\n " ++ "cs fd x foo") ∧
      let w := Workspace.new {} NamedPalette.standard.toPalette
      (w.interpret (loopText 2 "cs fd x foo")).SameApartFromSpans
        (w.interpret ("cs fd x foo" ++ "\n " ++ "cs fd x foo")) := by
  have hfault : (Program.read "cs fd x foo").fault = none := by cbv
  have htokens : tokens "cs fd x foo" =
      [⟨"CS", ⟨0, 2, 1, 1⟩⟩, ⟨"FD", ⟨3, 2, 1, 4⟩⟩, ⟨"X", ⟨6, 1, 1, 7⟩⟩,
        ⟨"FOO", ⟨8, 3, 1, 9⟩⟩] := by cbv
  have hfresh : StartsFresh (tokens "cs fd x foo") := by
    rw [htokens]
    exact startsFresh_cons.mpr (by decide)
  have hblank : ∀ c ∈ "\n ".toList, Text.isBlank c = true := by simp [Text.isBlank]
  have hcopies : Copies "cs fd x foo" 2 ("cs fd x foo" ++ "\n " ++ "cs fd x foo") :=
    .more "\n " (by decide) hblank .one
  exact ⟨by decide, hfault, hfresh, hcopies,
    (interpret_loop_eq_copies _ _ 2 _ (by decide) hfault hfresh hcopies).1⟩

end TurtleGraphics
