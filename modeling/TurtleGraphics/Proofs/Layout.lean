import TurtleGraphics.Proofs.Repetition

namespace TurtleGraphics

open Text (Span Token tokens placeless nowhere isBlank isBracket upperChar)

/-! # Layout and letter case

How a text is laid out, and in which letter case its words are written, has no influence on what it
means.

* `Edit`, `Relaid`: one change of layout or letter case, and any number of them.
* `Edit.placeless_eq`: an edit keeps the tokens of a text, apart from their places.
* `read_placeless`: the reading looks at nothing else.
* `Execution.run_mapSpan`: programs that differ in nothing but spans are carried out alike.

`relaid_same` is the consequence for the tokens, the programs and the outcomes of two texts.
-/

/-! ## Edits -/

/-- One of two neighbouring parts of a text is empty, or there is a bracket where they meet. -/
def AtEdge (as bs : List Char) : Prop :=
  as = [] ∨ bs = [] ∨ (∃ c, as.getLast? = some c ∧ isBracket c = true) ∨
    ∃ c, bs.head? = some c ∧ isBracket c = true

/-- One change of layout or letter case. -/
inductive Edit : List Char → List Char → Prop where
  /-- Some blanks are replaced by others. -/
  | replace (as gap gap' bs) : gap ≠ [] → gap' ≠ [] → (∀ c ∈ gap, isBlank c = true) →
      (∀ c ∈ gap', isBlank c = true) → Edit (as ++ gap ++ bs) (as ++ gap' ++ bs)
  /-- Blanks are put next to a bracket, or at one end of the text. -/
  | insert (as gap bs) : AtEdge as bs → (∀ c ∈ gap, isBlank c = true) →
      Edit (as ++ bs) (as ++ gap ++ bs)
  /-- Blanks are taken away there. -/
  | delete (as gap bs) : AtEdge as bs → (∀ c ∈ gap, isBlank c = true) →
      Edit (as ++ gap ++ bs) (as ++ bs)
  /-- A character is replaced by one with the same upper case. -/
  | recase (as c d bs) : upperChar c = upperChar d → Edit (as ++ c :: bs) (as ++ d :: bs)

/-- The second text comes of the first by some edits. -/
def Relaid (a b : String) : Prop :=
  Relation.ReflTransGen Edit a.toList b.toList

/-! ## The tokens of an edited text -/

theorem AtEdge.parted {as bs : List Char} (h : AtEdge as bs) : Text.Parted as bs := by
  rcases h with rfl | rfl | ⟨c, hlast, hc⟩ | ⟨c, hhead, hc⟩
  · intro c d hc
    cases hc
  · intro c d _ hd
    cases hd
  · exact .of_left hlast (Text.not_isWordChar_of_isBracket hc)
  · exact .of_right hhead (Text.not_isWordChar_of_isBracket hc)

theorem placeless_insert {as gap bs : List Char} (h : AtEdge as bs)
    (hgap : ∀ c ∈ gap, isBlank c = true) : placeless (as ++ gap ++ bs) = placeless (as ++ bs) := by
  by_cases hne : gap = []
  · rw [hne, List.append_nil]
  · rw [Text.placeless_gap hne hgap, Text.placeless_append h.parted]

/-- An edit keeps the tokens apart from their places. -/
theorem Edit.placeless_eq {as bs : List Char} (h : Edit as bs) : placeless as = placeless bs := by
  cases h with
  | replace as gap gap' bs hne hne' hgap hgap' =>
    rw [Text.placeless_gap hne hgap, Text.placeless_gap hne' hgap']
  | insert as gap bs hedge hgap => exact (placeless_insert hedge hgap).symm
  | delete as gap bs hedge hgap => exact placeless_insert hedge hgap
  | recase as c d bs hcase => exact Text.placeless_recased (by simp [hcase])

theorem Edit.placeless_eq_of_reflTransGen {as bs : List Char}
    (h : Relation.ReflTransGen Edit as bs) : placeless as = placeless bs := by
  induction h with
  | refl => rfl
  | tail _ hedit ih => rw [ih, hedit.placeless_eq]

/-! ## The program of an edited text -/

/-- The program with its spans changed. -/
def Program.mapSpan (f : Span → Span) (p : Program) : Program where
  code := p.code.map (·.mapSpan f)
  fault := p.fault.map (·.mapSpan f)

/-- The program of a text is read from its tokens without their places. -/
theorem read_placeless (text : String) :
    (Draft.start (placeless text.toList)).run = (Program.read text).mapSpan nowhere := by
  have hstart : Draft.start (placeless text.toList) =
      (Draft.start (tokens text)).onTop nowhere #[] := by
    simp [Draft.onTop, Draft.start, placeless, Text.tokens_eq_tokensAt]
  rw [hstart, Draft.run_onTop]
  simp [Program.onTop, Program.mapSpan, Program.read]

/-! ## The outcome of an edited text -/

namespace Execution

variable (f : Span → Span)

theorem complain_mapSpan (e : Execution) (p : Problem) :
    (e.mapSpan f).complain (p.mapSpan f) = (e.complain p).mapSpan f := by
  simp [complain, mapSpan]

/-- A program with other spans does the same, and says it of other places. -/
theorem run_mapSpan (palette : Palette) (e : Execution) {program : Program} {b : Block}
    (hb : program.code.toList = b.flatten) :
    (e.mapSpan f).run palette (program.mapSpan f) = (e.run palette program).mapSpan f := by
  have hcode : (program.mapSpan f).code.toList = (b.mapSpan f).flatten := by
    simp [Program.mapSpan, hb, Block.flatten_mapSpan]
  have hblock := Block.run_mapSpan f (act_mapSpan f palette) b e
  rw [run_eq_run_block palette _ hcode, run_eq_run_block palette _ hb, hblock]
  cases hfault : program.fault with
  | none => simp [Program.mapSpan, hfault]
  | some p => simp [Program.mapSpan, hfault, complain_mapSpan]

end Execution

/-- Texts whose programs differ in nothing but spans have the same outcome apart from spans. -/
theorem sameApartFromSpans_of_read {a b : String}
    (h : (Program.read a).mapSpan nowhere = (Program.read b).mapSpan nowhere) (w : Workspace) :
    (w.interpret a).SameApartFromSpans (w.interpret b) := by
  have hstart : ∀ text, (Execution.start w.turtle w.path).run w.palette
      ((Program.read text).mapSpan nowhere) =
        ((Execution.start w.turtle w.path).run w.palette (Program.read text)).mapSpan nowhere := by
    intro text
    rcases exists_block text with ⟨block, hflat⟩
    -- nothing has been said yet, so there are no spans to change
    have hnothing : (Execution.start w.turtle w.path).mapSpan nowhere =
        Execution.start w.turtle w.path := by
      simp [Execution.mapSpan, Execution.start]
    have hrun := Execution.run_mapSpan nowhere w.palette (Execution.start w.turtle w.path) hflat
    rwa [hnothing] at hrun
  apply outcome_sameApartFromSpans
  rw [← hstart a, ← hstart b, h]

/-- Layout and letter case do not matter. If one text comes of another by changing blanks between
words, putting blanks next to brackets or at the ends of the text, or taking them away there, and by
replacing characters by others with the same upper case, then both have the same tokens and programs,
and do the same in every workspace; only the places that they have in their texts may differ. -/
theorem relaid_same {a b : String} (h : Relaid a b) :
    (tokens a).map (·.text) = (tokens b).map (·.text) ∧
      (Program.read a).mapSpan nowhere = (Program.read b).mapSpan nowhere ∧
      ∀ w : Workspace, (w.interpret a).SameApartFromSpans (w.interpret b) := by
  have hplaceless := Edit.placeless_eq_of_reflTransGen h
  have hread : (Program.read a).mapSpan nowhere = (Program.read b).mapSpan nowhere := by
    rw [← read_placeless, ← read_placeless, hplaceless]
  refine ⟨?_, hread, sameApartFromSpans_of_read hread⟩
  have htexts := congrArg (List.map Token.text) hplaceless
  simp only [placeless, List.map_map] at htexts
  exact htexts

/-- One edit of each kind: a capital letter, a wide blank and a tab for a blank, a line break before a
bracket, and a blank less after the last input. -/
theorem relaid_same_spread :
    Relaid "repeat 2[fd 5 ]" "Repeat\u2003\t2\n[fd 5]" ∧
      (tokens "repeat 2[fd 5 ]").map (·.text) = (tokens "Repeat\u2003\t2\n[fd 5]").map (·.text) ∧
      (Program.read "repeat 2[fd 5 ]").mapSpan nowhere =
        (Program.read "Repeat\u2003\t2\n[fd 5]").mapSpan nowhere ∧
      ∀ w : Workspace,
        (w.interpret "repeat 2[fd 5 ]").SameApartFromSpans
          (w.interpret "Repeat\u2003\t2\n[fd 5]") := by
  have hcapital : Edit "repeat 2[fd 5 ]".toList "Repeat 2[fd 5 ]".toList :=
    .recase [] 'r' 'R' "epeat 2[fd 5 ]".toList (by decide)
  have hblanks : Edit "Repeat 2[fd 5 ]".toList "Repeat\u2003\t2[fd 5 ]".toList :=
    .replace "Repeat".toList [' '] ['\u2003', '\t'] "2[fd 5 ]".toList (by decide) (by decide)
      (by simp [isBlank]) (by simp [isBlank])
  have hbreak : Edit "Repeat\u2003\t2[fd 5 ]".toList "Repeat\u2003\t2\n[fd 5 ]".toList :=
    .insert "Repeat\u2003\t2".toList ['\n'] "[fd 5 ]".toList
      (.inr (.inr (.inr ⟨'[', by decide, by decide⟩))) (by simp [isBlank])
  have hless : Edit "Repeat\u2003\t2\n[fd 5 ]".toList "Repeat\u2003\t2\n[fd 5]".toList :=
    .delete "Repeat\u2003\t2\n[fd 5".toList [' '] "]".toList
      (.inr (.inr (.inr ⟨']', by decide, by decide⟩))) (by simp [isBlank])
  have hrelaid : Relaid "repeat 2[fd 5 ]" "Repeat\u2003\t2\n[fd 5]" :=
    .tail (.tail (.tail (.single hcapital) hblanks) hbreak) hless
  exact ⟨hrelaid, relaid_same hrelaid⟩

end TurtleGraphics
