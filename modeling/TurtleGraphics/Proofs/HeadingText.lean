import TurtleGraphics.Proofs.PlainDecimals
import TurtleGraphics.Proofs.PlotArea
import TurtleGraphics.Proofs.Repetition
import TurtleGraphics.Proofs.Validity
import TurtleGraphics.Transcript

namespace TurtleGraphics

open Binary64 Float.Model Float.Model.UnpackedFloat

/-! # Headings as they are shown

A heading is shown in two places, and there it is written and not only held: in the answer to a
question, to the last digit, and in the session report, to the nearest whole degree.

* `WithinTurn`: a text is a plain decimal of a number from 0 on and below 360.
* `withinTurn_text_iff`: the decimal text of a heading is such a text unless the heading is the
  negative zero, which is written `-0`.
* `withinTurn_rounded_iff`: so is the heading in the session report, unless it is the negative zero
  or is rounded to a whole turn.
* `Execution.Answered`: the invariant of a run. Every answer about the heading is the text of a
  heading within one turn.

`headings_shown` is the consequence for all that is asked of a workspace, and
`headings_shown_outside` the two ways in which a text outside is shown.
-/

/-- The text is a plain decimal of a number within one turn. -/
def WithinTurn (text : String) : Prop :=
  ∃ q, Decimal.plain? text.toList = some q ∧ 0 ≤ q ∧ q < 360

theorem withinTurn_of_digits {text : String} {n : ℕ} (h : text.toList = Nat.toDigits 10 n) :
    WithinTurn text ↔ n < 360 := by
  have hvalue : Decimal.plain? text.toList = some (n : ℚ) := by
    rw [h, Decimal.plain?_digits (Decimal.isDigits_toDigits n), Decimal.natOfDigits_toDigits]
  unfold WithinTurn
  rw [hvalue]
  constructor
  · rintro ⟨q, hq, -, hlt⟩
    rw [← Option.some.inj hq] at hlt
    exact_mod_cast hlt
  · intro hlt
    exact ⟨n, rfl, Nat.cast_nonneg n, by exact_mod_cast hlt⟩

theorem not_withinTurn_of_minus {text : String} {cs : List Char} (h : text.toList = '-' :: cs) :
    ¬ WithinTurn text := by
  rintro ⟨q, hq, -⟩
  rw [h, Decimal.plain?_minus] at hq
  cases hq

/-! ## In full -/

section Text

variable {h : Float}

theorem toList_text (x : Float) : (Decimal.text x).toList = Decimal.characters x :=
  String.toList_ofList

theorem toList_text_zero {s : Sign} (hexact : exact h = .zero s) :
    (Decimal.text h).toList = Decimal.signed s ['0'] := by
  rw [toList_text, Decimal.characters, hexact]

/-- A heading that is not zero is written as a number below a whole turn: less than half a unit of
its last binary digit is added. -/
theorem withinTurn_text_of_finite {m k : ℕ} {hm : 0 < m}
    (hexact : exact h = .finite .positive m (-(k : ℤ)) hm) (hshort : m < 2 ^ 53)
    (hless : 44 < k ∨ k = 44 ∧ m < 360 * 2 ^ 44) : WithinTurn (Decimal.text h) := by
  have hcharacters : (Decimal.text h).toList = (Decimal.shortest m (-(k : ℤ))).positional := by
    rw [toList_text, Decimal.characters, hexact]
    rfl
  have hle := Decimal.shortest_le m (-(k : ℤ))
  have hlt : 4 * m + 2 < 360 * 2 ^ (k + 2) := by
    rcases hless with hk | ⟨rfl, hm⟩
    · have hpow : 2 ^ 47 ≤ 2 ^ (k + 2) := Nat.pow_le_pow_right (by decide) (by omega)
      omega
    · omega
  have hpow : (2 : ℚ) ^ (-(k : ℤ) - 2) = (2 ^ (k + 2))⁻¹ := by
    rw [← zpow_natCast, ← zpow_neg]
    congr 1
    push_cast
    ring
  refine ⟨_, by rw [hcharacters, Decimal.plain?_positional], by positivity, lt_of_le_of_lt hle ?_⟩
  rw [hpow, ← div_eq_mul_inv, div_lt_iff₀ (by positivity)]
  exact_mod_cast hlt

/-- The decimal text of a heading shows it within one turn, unless the heading is the negative
zero. -/
theorem withinTurn_text_iff (hle : 0 ≤ h) (hlt : h < 360) :
    WithinTurn (Decimal.text h) ↔ exact h ≠ .zero .negative := by
  rcases exact_of_mem hle hlt with ⟨s, hexact⟩ | ⟨m, k, hm, hexact, hshort, hless⟩
  · have htext := toList_text_zero hexact
    rw [hexact]
    cases s with
    | positive =>
      have hdigits : (Decimal.text h).toList = Nat.toDigits 10 0 := htext
      simp [withinTurn_of_digits hdigits]
    | negative => simpa using not_withinTurn_of_minus htext
  · rw [hexact]
    simpa using withinTurn_text_of_finite hexact hshort hless

/-! ## To the nearest degree -/

/-- Whole numbers up to a turn are written with their digits. -/
theorem characters_nearest : ∀ n < 361,
    Decimal.characters (nearest .positive n 0) = Nat.toDigits 10 n := by decide +kernel

theorem rounded_of_zero {s : Sign} (hexact : exact h = .zero s) :
    Transcript.rounded h = Decimal.text h := by
  rw [Transcript.rounded, roundHalfAway, hexact]

theorem toList_rounded {m k : ℕ} {hm : 0 < m}
    (hexact : exact h = .finite .positive m (-(k : ℤ)) hm) (hk : 0 < k)
    (hsmall : nearestWhole m k < 361) :
    (Transcript.rounded h).toList = Nat.toDigits 10 (nearestWhole m k) := by
  have hround : roundHalfAway h = nearest .positive (nearestWhole m k) 0 := by
    rw [roundHalfAway, hexact]
    dsimp only
    rw [if_neg (by omega), neg_neg, Int.toNat_natCast]
    rfl
  rw [Transcript.rounded, hround, toList_text, characters_nearest _ hsmall]

theorem place_turn_less_half : place 359.5 = toLex (1, toLex (-44, 719 * 2 ^ 43)) := by
  decide +kernel

theorem lt_turn_less_half_iff (hle : 0 ≤ h) : h < 359.5 ↔ place h < place 359.5 := by
  have hnan : h.isNaN = false := (le_iff.mp hle).2.1
  have hiff : h < 359.5 ↔ h.isNaN = false ∧ (359.5 : Float).isNaN = false ∧
      place h < place 359.5 := lt_iff
  rw [hiff, and_iff_right hnan, and_iff_right (by decide +kernel)]

/-- A heading is rounded to less than a whole turn if it is below 359.5. -/
theorem nearestWhole_lt_turn (hle : 0 ≤ h) {m k : ℕ} {hm : 0 < m}
    (hexact : exact h = .finite .positive m (-(k : ℤ)) hm) (hshort : m < 2 ^ 53)
    (hless : 44 < k ∨ k = 44 ∧ m < 360 * 2 ^ 44) :
    nearestWhole m k < 360 ↔ h < 359.5 := by
  rw [lt_turn_less_half_iff hle, place_turn_less_half, place, hexact, nearestWhole,
    Nat.div_lt_iff_lt_mul (by positivity)]
  show _ ↔ toLex (1, toLex (-(k : ℤ), (m : ℤ))) < _
  rw [toLex_lt_toLex]
  rcases hless with hk | ⟨rfl, -⟩
  · have hpow : 2 ^ 45 ≤ 2 ^ k := Nat.pow_le_pow_right (by decide) hk
    omega
  · omega

/-- The heading in the session report is within one turn, unless it is the negative zero or is
rounded up to a whole turn. -/
theorem withinTurn_rounded_iff (hle : 0 ≤ h) (hlt : h < 360) :
    WithinTurn (Transcript.rounded h) ↔ exact h ≠ .zero .negative ∧ h < 359.5 := by
  rcases exact_of_mem hle hlt with ⟨s, hexact⟩ | ⟨m, k, hm, hexact, hshort, hless⟩
  · have hbelow : h < 359.5 := by
      have hzero : place h = place 0 := by
        rw [place, hexact]
        rfl
      rw [lt_turn_less_half_iff hle, hzero]
      decide +kernel
    rw [rounded_of_zero hexact, withinTurn_text_iff hle hlt, and_iff_left hbelow]
  · have hsmall : nearestWhole m k < 361 := by
      have hturn : m ≤ 360 * 2 ^ k := by
        rcases hless with hk | ⟨rfl, hm⟩
        · have hpow : 2 ^ 45 ≤ 2 ^ k := Nat.pow_le_pow_right (by decide) hk
          omega
        · omega
      have := (nearestWhole_mem (by omega : 0 * 2 ^ k ≤ m) hturn).2
      omega
    rw [withinTurn_of_digits (toList_rounded hexact (by omega) hsmall),
      nearestWhole_lt_turn hle hexact hshort hless, hexact]
    simp

end Text

/-! ## Answers -/

/-- The line is an answer about where a turtle is, or where it looks within one turn. -/
inductive IsAnswer : String → Prop where
  | xcor (x : Float) : IsAnswer ("X coordinate: " ++ Decimal.text x)
  | ycor (y : Float) : IsAnswer ("Y coordinate: " ++ Decimal.text y)
  | heading {h : Float} : 0 ≤ h → h < 360 → IsAnswer ("Heading: " ++ Decimal.text h ++ "°")

/-- The turtle is valid, and everything that was said is an answer. -/
structure Execution.Answered (e : Execution) : Prop where
  turtle : e.turtle.Valid
  output : ∀ line ∈ e.output, IsAnswer line

namespace Execution.Answered

variable {e : Execution}

theorem say (h : e.Answered) {line : String} (hline : IsAnswer line) : (e.say line).Answered where
  turtle := h.turtle
  output := by
    intro line' hmem
    rcases Array.mem_push.mp hmem with hmem | rfl
    · exact h.output line' hmem
    · exact hline

theorem perform (h : e.Answered) {action : Action Float} (hfinite : action.IsFinite) :
    (e.perform action).Answered := by
  have hturtle : (e.perform action).turtle.Valid := by
    rw [(Follows.perform e action).turtle]
    exact (h.turtle.steps (fun _ => Action.isArc_of_mem_steps) fun _ => hfinite.steps).1
  cases action with
  | xcor => exact h.say (.xcor _)
  | ycor => exact h.say (.ycor _)
  | heading => exact h.say (.heading h.turtle.heading_nonneg h.turtle.heading_lt)
  | clearScreen => exact ⟨hturtle, h.output⟩
  | _ =>
    refine ⟨hturtle, ?_⟩
    simp only [Execution.perform, foldl_draw]
    exact h.output

theorem act (h : e.Answered) (palette : Palette) (s : Statement) :
    (e.act palette s).Answered := by
  cases s with
  | command c =>
    have hwarned : Answered { e with warnings := e.warnings ++ (c.action palette).warnings } :=
      ⟨h.turtle, h.output⟩
    exact hwarned.perform (c.isFinite_action palette)
  | unknown | stray => exact ⟨h.turtle, h.output⟩

theorem run (h : e.Answered) (palette : Palette) (program : Program) :
    (e.run palette program).Answered := by
  apply Execution.run_preserves ?_ ?_ h
  · exact fun e s _ he => he.act palette s
  · exact fun e p _ he => ⟨he.turtle, he.output⟩

end Execution.Answered

/-- All that a valid workspace says of headings is within one turn. -/
theorem Workspace.Valid.answers {w : Workspace} (h : w.Valid) (text : String) :
    ∀ line ∈ (w.interpret text).report.output, IsAnswer line := by
  have hstart : (Execution.start w.turtle w.path).Answered := ⟨h.turtle, by simp [Execution.start]⟩
  exact (hstart.run w.palette (Program.read text)).output

/-- The answers in the reports of a history. -/
theorem History.answers (config : Config) (palette : Palette) (turns : List Turn) :
    ∀ report, .ran report ∈ ((History.start config palette).after turns).events →
      ∀ line ∈ report.output, IsAnswer line := by
  induction turns using List.reverseRecOn with
  | nil => intro report hreport; cases hreport
  | append_singleton turns turn ih =>
    have hvalid := ((History.Valid.start config palette).after turns).workspace
    have hafter : (History.start config palette).after (turns ++ [turn]) =
        ((History.start config palette).after turns).take turn := by
      simp [History.after, List.foldl_append]
    rw [hafter]
    intro report hreport
    generalize (History.start config palette).after turns = s at *
    cases turn with
    | reset =>
      rcases List.mem_append.mp hreport with hreport | hreport
      · exact ih report hreport
      · cases List.mem_singleton.mp hreport
    | run text | draw text =>
      rcases List.mem_append.mp hreport with hreport | hreport
      · exact ih report hreport
      · rcases Event.ran.inj (List.mem_singleton.mp hreport) with rfl
        exact hvalid.answers text

/-- The question for the heading. -/
def askHeading : Statement := .command ⟨.heading, [], ⟨0, 7, 1, 1⟩⟩

theorem read_heading : Program.read "heading" = ⟨#[.statement askHeading], none⟩ := by
  decide +kernel

theorem interpret_heading (w : Workspace) :
    (w.interpret "heading").report.output =
      #["Heading: " ++ Decimal.text w.turtle.pose.heading ++ "°"] := by
  have hblock : (⟨#[.statement askHeading], none⟩ : Program).code.toList =
      (Block.statement askHeading .done).flatten := rfl
  rw [Workspace.interpret, read_heading, Execution.run_eq_run_block w.palette _ hblock]
  rfl

/-- How headings are shown. Whatever texts are run and resets made, every answer about the heading
is the decimal text of a heading from 0 on and below 360, and so is the answer that would come next;
the session report has the same heading to the nearest degree, whatever it is made of. Such a text is
a plain decimal within one turn, without a minus sign, except for the negative zero, and in the
session report for headings from 359.5 on, which are rounded to a whole turn. -/
theorem headings_shown (config : Config) (palette : Palette) (turns : List Turn) :
    let s := (History.start config palette).after turns
    let pose := s.workspace.turtle.pose
    (∀ report, .ran report ∈ s.events → ∀ line ∈ report.output, IsAnswer line) ∧
      (s.workspace.interpret "heading").report.output =
        #["Heading: " ++ Decimal.text pose.heading ++ "°"] ∧
      (∀ (t : Transcript) (pen : Pen Float), (t.lines pose pen)[5]? =
        some ("- Turtle Heading: " ++ Transcript.rounded pose.heading ++ "°")) ∧
      (0 ≤ pose.heading ∧ pose.heading < 360) ∧
      ∀ h : Float, 0 ≤ h ∧ h < 360 →
        (WithinTurn (Decimal.text h) ↔ exact h ≠ .zero .negative) ∧
          (WithinTurn (Transcript.rounded h) ↔ exact h ≠ .zero .negative ∧ h < 359.5) := by
  intro s pose
  have hvalid : s.Valid := (History.Valid.start config palette).after turns
  have hturtle := hvalid.workspace.turtle
  refine ⟨History.answers config palette turns, interpret_heading s.workspace, fun t pen => rfl,
    ⟨hturtle.heading_nonneg, hturtle.heading_lt⟩, ?_⟩
  rintro h ⟨hle, hlt⟩
  exact ⟨withinTurn_text_iff hle hlt, withinTurn_rounded_iff hle hlt⟩

/-- Turning left by a whole turn leaves a negative zero, and its sign is shown; a heading close to a
whole turn is shown as a whole turn in the session report. -/
theorem headings_shown_outside :
    let w : Workspace := .new {} NamedPalette.standard.toPalette
    let turned := (w.interpret "lt 360").workspace
    let close := (w.interpret "seth 359.7").workspace
    ((turned.interpret "heading").report.output = #["Heading: -0°"] ∧ ¬ WithinTurn "-0") ∧
      (Transcript.empty.lines close.turtle.pose close.turtle.pen)[5]? =
        some "- Turtle Heading: 360°" ∧ ¬ WithinTurn "360" := by
  intro w turned close
  have hminus : "-0".toList = '-' :: ['0'] := rfl
  have hturn : "360".toList = Nat.toDigits 10 360 := by decide
  have houtside : ¬ WithinTurn "360" := by
    rw [withinTurn_of_digits hturn]
    exact Nat.lt_irrefl 360
  exact ⟨⟨by decide +kernel, not_withinTurn_of_minus hminus⟩, by decide +kernel, houtside⟩

end TurtleGraphics
