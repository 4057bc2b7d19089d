import TurtleGraphics.Proofs.Pointing

namespace TurtleGraphics

/-! # Commands and their inputs

A command reads its inputs place by place, at as many places as its primitive takes inputs. What was
read makes its action, and what was wrong makes its warnings.

* `Action.primitive`, `Action.inputs`: an action taken apart. `Primitive.applied?` puts it together
  again, so that an action is known when the two are (`Action.eq_iff`).
* `Command.Reads`: what is read at one place, and the warning that comes with it.
* `Command.exists_readings`: an action and its warnings are what is read at the places in order.
* `Command.isUsable`: there is an input at a place, and nothing is wrong with it. A command gives
  one warning for every place where that is not so (`Command.length_warnings`).

`Command.action_exact` puts this together for all commands.
-/

/-- What a command was given at one place. -/
inductive Input where
  | number (x : Float)
  | color (c : Color)

/-! ## Actions taken apart -/

/-- The primitive that an action comes from. -/
def Action.primitive {α : Type} : Action α → Primitive
  | .forward _ => .forward
  | .back _ => .backward
  | .left _ => .left
  | .right _ => .right
  | .penUp => .penUp
  | .penDown => .penDown
  | .home => .home
  | .clearScreen => .clearScreen
  | .setPenColor _ => .setPenColor
  | .setPenWidth _ => .setPenWidth
  | .setHeading _ => .setHeading
  | .setX _ => .setX
  | .setY _ => .setY
  | .setXY _ _ => .setXY
  | .hideTurtle => .hideTurtle
  | .showTurtle => .showTurtle
  | .arc _ _ => .arc
  | .xcor => .xcor
  | .ycor => .ycor
  | .heading => .heading

/-- The inputs of an action, in the order in which a program gives them. -/
def Action.inputs : Action Float → List Input
  | .forward x | .back x | .left x | .right x | .setPenWidth x | .setHeading x | .setX x
  | .setY x => [.number x]
  | .setXY x y => [.number x, .number y]
  | .arc degrees radius => [.number degrees, .number radius]
  | .setPenColor c => [.color c]
  | .penUp | .penDown | .home | .clearScreen | .hideTurtle | .showTurtle | .xcor | .ycor
  | .heading => []

/-- The action made of a primitive and inputs that fit it. -/
def Primitive.applied? : Primitive → List Input → Option (Action Float)
  | .forward, [.number x] => some (.forward x)
  | .backward, [.number x] => some (.back x)
  | .left, [.number x] => some (.left x)
  | .right, [.number x] => some (.right x)
  | .penUp, [] => some .penUp
  | .penDown, [] => some .penDown
  | .home, [] => some .home
  | .clearScreen, [] => some .clearScreen
  | .setPenColor, [.color c] => some (.setPenColor c)
  | .setPenWidth, [.number x] => some (.setPenWidth x)
  | .setHeading, [.number x] => some (.setHeading x)
  | .setX, [.number x] => some (.setX x)
  | .setY, [.number x] => some (.setY x)
  | .setXY, [.number x, .number y] => some (.setXY x y)
  | .hideTurtle, [] => some .hideTurtle
  | .showTurtle, [] => some .showTurtle
  | .arc, [.number degrees, .number radius] => some (.arc degrees radius)
  | .xcor, [] => some .xcor
  | .ycor, [] => some .ycor
  | .heading, [] => some .heading
  | _, _ => none

theorem Action.applied?_inputs (a : Action Float) : a.primitive.applied? a.inputs = some a := by
  cases a <;> rfl

theorem Action.eq_iff {a b : Action Float} :
    a = b ↔ a.primitive = b.primitive ∧ a.inputs = b.inputs := by
  constructor
  · intro h
    rw [h]
    exact ⟨rfl, rfl⟩
  · intro ⟨hprimitive, hinputs⟩
    have h : some a = some b := by
      rw [← a.applied?_inputs, ← b.applied?_inputs, hprimitive, hinputs]
    exact Option.some_inj.mp h

/-! ## One place -/

/-- The color that a name without quotes comes to: what the palette says, or else a color in
writing. -/
def Palette.color? (p : Palette) (name : String) : Option Color :=
  (p.resolve name).or (Color.ofHex? name)

/-- What was read at one place. -/
structure Reading where
  input : Input
  warning? : Option Warning

namespace Command

variable (c : Command) (palette : Palette)

/-- What a command reads at the place `i`. All inputs are numbers, except that of one primitive. -/
inductive Reads (i : Nat) : Reading → Prop where
  | number {t x} : c.primitive ≠ .setPenColor → c.inputs[i]? = some t →
      Decimal.float? t.text = some x → x.isFinite = true → Reads i ⟨.number x, none⟩
  | notNumber {t} : c.primitive ≠ .setPenColor → c.inputs[i]? = some t →
      (∀ x, Decimal.float? t.text = some x → x.isFinite = false) →
      Reads i ⟨.number 0, some (.malformedInput c.primitive t.text t.span)⟩
  | noNumber : c.primitive ≠ .setPenColor → c.inputs[i]? = none →
      Reads i ⟨.number 0, some (.missingInput c.primitive c.span)⟩
  | color {t color} : c.primitive = .setPenColor → c.inputs[i]? = some t →
      palette.color? (unquote t.text) = some color → Reads i ⟨.color color, none⟩
  | notColor {t} : c.primitive = .setPenColor → c.inputs[i]? = some t →
      palette.color? (unquote t.text) = none →
      Reads i ⟨.color palette.fallback,
        some (.unknownColor (unquote t.text) palette.fallback t.span)⟩
  | noColor : c.primitive = .setPenColor → c.inputs[i]? = none →
      Reads i ⟨.color palette.fallback, some (.missingInput c.primitive c.span)⟩

/-- There is an input at the place `i`, and it is of use to the command. -/
def isUsable (i : Nat) : Bool :=
  c.inputs[i]?.any fun t =>
    if c.primitive = .setPenColor then (palette.color? (unquote t.text)).isSome
    else (Decimal.finite? t.text).isSome

end Command

theorem Decimal.finite?_eq_some {text : String} {x : Float} :
    Decimal.finite? text = some x ↔ Decimal.float? text = some x ∧ x.isFinite = true := by
  rw [Decimal.finite?, Option.filter_eq_some_iff]

theorem Decimal.finite?_eq_none {text : String} :
    Decimal.finite? text = none ↔ ∀ x, Decimal.float? text = some x → x.isFinite = false := by
  simp [Decimal.finite?, Option.filter_eq_none_iff]

namespace Command

variable {c : Command} {palette : Palette} {i : Nat} {r : Reading}

/-- A warning comes exactly where the input is of no use. -/
theorem Reads.isUsable_eq (h : c.Reads palette i r) :
    c.isUsable palette i = r.warning?.isNone := by
  cases h with
  | number hp ht hfloat hfinite =>
    have hnumber := Decimal.finite?_eq_some.mpr ⟨hfloat, hfinite⟩
    simp [isUsable, ht, hp, hnumber]
  | notNumber hp ht hbad =>
    have hnone := Decimal.finite?_eq_none.mpr hbad
    simp [isUsable, ht, hp, hnone]
  | noNumber _ ht | noColor _ ht => simp [isUsable, ht]
  | color hp ht hcolor | notColor hp ht hcolor => simp [isUsable, ht, hp, hcolor]

theorem number_reads (palette : Palette) (hp : c.primitive ≠ .setPenColor) (i : Nat) :
    ∃ r, c.Reads palette i r ∧ r.input = .number (c.number i).value ∧
      (c.number i).warnings = r.warning?.toList := by
  unfold number
  split
  · rename_i ht
    exact ⟨_, .noNumber hp ht, rfl, rfl⟩
  · rename_i t ht
    split
    · rename_i x hx
      rcases Decimal.finite?_eq_some.mp hx with ⟨hfloat, hfinite⟩
      exact ⟨_, .number hp ht hfloat hfinite, rfl, rfl⟩
    · rename_i hnone
      exact ⟨_, .notNumber hp ht (Decimal.finite?_eq_none.mp hnone), rfl, rfl⟩

theorem color_reads (palette : Palette) (hp : c.primitive = .setPenColor) :
    ∃ r, c.Reads palette 0 r ∧ r.input = .color (c.color palette).value ∧
      (c.color palette).warnings = r.warning?.toList := by
  unfold color
  split
  · rename_i ht
    exact ⟨_, .noColor hp ht, rfl, rfl⟩
  · rename_i t ht
    dsimp only
    split
    · rename_i color hcolor
      exact ⟨_, .color hp ht hcolor, rfl, rfl⟩
    · rename_i hnone
      exact ⟨_, .notColor hp ht hnone, rfl, rfl⟩

/-! ## All places -/

/-- The warnings that came with some readings, in their order. -/
def warningsOf (rs : List Reading) : List Warning :=
  rs.filterMap (·.warning?)

theorem warningsOf_cons (r : Reading) (rs : List Reading) :
    warningsOf (r :: rs) = r.warning?.toList ++ warningsOf rs := by
  cases h : r.warning? <;> simp [warningsOf, h]

theorem warningsOf_singleton (r : Reading) : warningsOf [r] = r.warning?.toList := by
  rw [warningsOf_cons]
  exact List.append_nil _

/-- An action and its warnings are read off a list of readings. -/
structure MadeOf (w : Warned (Action Float)) (p : Primitive) (rs : List Reading) : Prop where
  primitive : w.value.primitive = p
  inputs : w.value.inputs = rs.map (·.input)
  warnings : w.warnings = warningsOf rs

theorem one_madeOf (palette : Palette) (hp : c.primitive ≠ .setPenColor)
    {f : Float → Action Float} (hprimitive : ∀ x, (f x).primitive = c.primitive)
    (hinputs : ∀ x, (f x).inputs = [.number x]) :
    ∃ rs, List.Forall₂ (c.Reads palette) (List.range 1) rs ∧ MadeOf (c.one f) c.primitive rs := by
  rcases number_reads palette hp 0 with ⟨r, hr, hinput, hwarnings⟩
  refine ⟨[r], .cons hr .nil, hprimitive _, ?_, ?_⟩
  · simp [one, hinputs, hinput]
  · rw [warningsOf_singleton, ← hwarnings, one]

theorem two_madeOf (palette : Palette) (hp : c.primitive ≠ .setPenColor)
    {f : Float → Float → Action Float} (hprimitive : ∀ x y, (f x y).primitive = c.primitive)
    (hinputs : ∀ x y, (f x y).inputs = [.number x, .number y]) :
    ∃ rs, List.Forall₂ (c.Reads palette) (List.range 2) rs ∧ MadeOf (c.two f) c.primitive rs := by
  rcases number_reads palette hp 0 with ⟨r, hr, hrinput, hrwarnings⟩
  rcases number_reads palette hp 1 with ⟨s, hs, hsinput, hswarnings⟩
  refine ⟨[r, s], .cons hr (.cons hs .nil), hprimitive _ _, ?_, ?_⟩
  · simp [two, hinputs, hrinput, hsinput]
  · rw [warningsOf_cons, warningsOf_singleton, ← hrwarnings, ← hswarnings, two]

/-- A command reads at every place that its primitive takes an input from, and nowhere else. -/
theorem exists_readings (c : Command) (palette : Palette) :
    ∃ rs, List.Forall₂ (c.Reads palette) (List.range c.primitive.arity) rs ∧
      MadeOf (c.action palette) c.primitive rs := by
  rcases c with ⟨p, inputs, span⟩
  -- the cases are the shapes of inputs; which primitive of a shape it is makes no difference
  cases p with
  | penUp | penDown | home | clearScreen | hideTurtle | showTurtle | xcor | ycor | heading =>
    exact ⟨[], .nil, rfl, rfl, rfl⟩
  | setXY | arc =>
    exact two_madeOf palette (by simp) (fun _ _ => rfl) (fun _ _ => rfl)
  | setPenColor =>
    rcases color_reads (c := ⟨.setPenColor, inputs, span⟩) palette rfl with
      ⟨r, hr, hinput, hwarnings⟩
    refine ⟨[r], .cons hr .nil, rfl, ?_, ?_⟩
    · simp [action, Action.inputs, hinput]
    · rw [warningsOf_singleton, ← hwarnings, action]
  | _ => exact one_madeOf palette (by simp) (fun _ => rfl) (fun _ => rfl)

theorem length_warningsOf {is : List Nat} {rs : List Reading}
    (h : List.Forall₂ (c.Reads palette) is rs) :
    (warningsOf rs).length = is.countP (!c.isUsable palette ·) := by
  induction h with
  | nil => rfl
  | cons hr _ ih =>
    rw [warningsOf_cons, List.length_append, ih, List.countP_cons, hr.isUsable_eq, Nat.add_comm,
      Option.length_toList]
    simp

/-- One warning for every place without a usable input. -/
theorem length_warnings (c : Command) (palette : Palette) :
    (c.action palette).warnings.length =
      (List.range c.primitive.arity).countP (!c.isUsable palette ·) := by
  rcases c.exists_readings palette with ⟨rs, hreads, hmade⟩
  rw [hmade.warnings, length_warningsOf hreads]

/-- Inputs after those that the primitive takes make no difference. -/
theorem action_take (c : Command) (palette : Palette) :
    { c with inputs := c.inputs.take c.primitive.arity }.action palette = c.action palette := by
  rcases c with ⟨p, inputs, span⟩
  have hnumber : ∀ n i, i < n →
      number ⟨p, inputs.take n, span⟩ i = number ⟨p, inputs, span⟩ i := by
    intro n i hi
    simp only [number, List.getElem?_take_of_lt hi]
  cases p with
  | penUp | penDown | home | clearScreen | hideTurtle | showTurtle | xcor | ycor | heading => rfl
  | setXY | arc =>
    simp only [action, two, Primitive.arity, hnumber 2 0 (by decide), hnumber 2 1 (by decide)]
  | setPenColor =>
    simp only [action, color, Primitive.arity, List.getElem?_take_of_lt Nat.zero_lt_one]
  | _ => simp only [action, one, Primitive.arity, hnumber 1 0 (by decide)]

/-- What a command does and what it warns of depend on the inputs that its primitive takes, and on
nothing after them. Place by place it reads a finite number, or a color, and where it cannot it
takes zero, or the fallback color, with one warning; the action is the primitive's with what was
read as its inputs. There is no warning if and only if there is a usable input at every place. The
warnings are added to those that a run already gave. -/
theorem action_exact (c : Command) (palette : Palette) :
    { c with inputs := c.inputs.take c.primitive.arity }.action palette = c.action palette ∧
      (∃ rs, List.Forall₂ (c.Reads palette) (List.range c.primitive.arity) rs ∧
        (c.action palette).warnings = rs.filterMap (·.warning?) ∧
        ∀ a, a = (c.action palette).value ↔
          a.primitive = c.primitive ∧ a.inputs = rs.map (·.input)) ∧
      ((c.action palette).warnings = [] ↔ ∀ i < c.primitive.arity, c.isUsable palette i = true) ∧
      ∀ e : Execution, (e.act palette (.command c)).warnings =
        e.warnings ++ (c.action palette).warnings := by
  rcases c.exists_readings palette with ⟨rs, hreads, hmade⟩
  refine ⟨c.action_take palette, ⟨rs, hreads, hmade.warnings, ?_⟩, ?_, ?_⟩
  · intro a
    rw [Action.eq_iff, hmade.primitive, hmade.inputs]
  · rw [← List.length_eq_zero_iff, c.length_warnings palette, List.countP_eq_zero]
    simp
  · intro e
    exact (Execution.perform_diagnostics _ _).2

end Command

end TurtleGraphics
