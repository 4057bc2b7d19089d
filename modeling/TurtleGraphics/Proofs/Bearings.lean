import TurtleGraphics.Proofs.Rationals
import TurtleGraphics.Proofs.Tracing

namespace TurtleGraphics

open Scalar

/-! # Bearings

Where a turtle looks after any number of turns, in exact arithmetic.

* `bearing`: the last heading that was set and all turns after it, added up without regard to whole
  turns.
* `Trail.heading_act`: one action turns the heading by its angle, or sets it, and brings it into one
  turn. An arc is as many turns as it has sides (`Trail.heading_repeat_side`).
* `Trail.heading_foldl`: so any number of actions leads to their bearing, brought into one turn once.

`turns_add_up` is the consequence for headings, with what an arc is made of.
-/

namespace Action

/-- The heading that the action sets, if it sets one. -/
def heading? : Action ℚ → Option ℚ
  | .setHeading degrees => some degrees
  | _ => none

/-- The angle by which the action turns the turtle clockwise. -/
def turn : Action ℚ → ℚ
  | .right degrees => degrees
  | .left degrees => -degrees
  | .arc degrees radius => if 0 < radius then degrees else 0
  | _ => 0

/-- The action turns the turtle or moves it ahead, and an arc has fewer than `2 ^ 64` degrees. -/
def Steers : Action ℚ → Prop
  | .right _ | .left _ | .setHeading _ | .forward _ => True
  | .arc degrees _ => |degrees| < 2 ^ 64
  | _ => False

end Action

/-- The last heading that some actions set, or `start` if they set none, and all turns after it. -/
def bearing (start : ℚ) (as : List (Action ℚ)) : ℚ :=
  (as.filterMap Action.heading?).getLastD start +
    ((as.rtakeWhile (·.heading?.isNone)).map Action.turn).sum

theorem bearing_nil (start : ℚ) : bearing start [] = start := by
  simp [bearing]

/-- One more action sets the bearing, or adds its turn. -/
theorem bearing_concat (start : ℚ) (as : List (Action ℚ)) (a : Action ℚ) :
    bearing start (as ++ [a]) = a.heading?.getD (bearing start as + a.turn) := by
  unfold bearing
  cases hset : a.heading? with
  | some degrees =>
    rw [List.rtakeWhile_concat_neg _ _ _ (by simp [hset])]
    simp [hset]
  | none =>
    rw [List.rtakeWhile_concat_pos _ _ _ (by simp [hset])]
    simp [hset, add_assoc]

/-- Without a heading set, a bearing is where the turtle looked first and the sum of all turns. -/
theorem bearing_of_turns (start : ℚ) {as : List (Action ℚ)} (h : ∀ a ∈ as, a.heading? = none) :
    bearing start as = start + (as.map Action.turn).sum := by
  have hnone : as.filterMap Action.heading? = [] := List.filterMap_eq_nil_iff.mpr h
  have hall : as.rtakeWhile (·.heading?.isNone) = as := by
    rw [List.rtakeWhile_eq_self_iff]
    intro a ha
    rw [h a ha]
    rfl
  rw [bearing, hnone, hall]
  rfl

section Exact

variable [ExactReading]

namespace Trail

/-! ## Arcs -/

variable (w : Trail ℚ)

theorem heading_forward (distance : ℚ) :
    (w.forward distance).turtle.pose.heading = w.turtle.pose.heading := rfl

theorem heading_side (length turn : ℚ) :
    (w.side length turn).turtle.pose.heading = wrapDegrees (w.turtle.pose.heading + turn) := rfl

/-- The turns of a polygon add up. -/
theorem heading_repeat_side (length turn : ℚ) (n : ℕ)
    (h : wrapDegrees w.turtle.pose.heading = w.turtle.pose.heading) :
    (Nat.repeat (side length turn) n w).turtle.pose.heading =
      wrapDegrees (w.turtle.pose.heading + n * turn) := by
  induction n with
  | zero =>
    rw [Nat.cast_zero, zero_mul, add_zero, h]
    rfl
  | succ n ih =>
    rw [Nat.repeat, heading_side, ih, wrapDegrees_wrap_add]
    congr 1
    push_cast
    ring

theorem pen_repeat_side (length turn : ℚ) (n : ℕ) :
    (Nat.repeat (side length turn) n w).turtle.pen = w.turtle.pen := by
  induction n with
  | zero => rfl
  | succ n ih => exact ih

/-- With the pen down, each side of a polygon is drawn. -/
theorem size_repeat_side (length turn : ℚ) (n : ℕ) (hdown : w.turtle.pen.down = true) :
    (Nat.repeat (side length turn) n w).drawn.size = w.drawn.size + n := by
  induction n with
  | zero => rfl
  | succ n ih =>
    have hpen := congrArg Pen.down (pen_repeat_side w length turn n)
    have hside : ∀ v : Trail ℚ, v.turtle.pen.down = true →
        (v.side length turn).drawn.size = v.drawn.size + 1 := by
      intro v hv
      simp [side, mapTurtle, forward, moveTo, hv]
    rw [Nat.repeat, hside _ (hpen.trans hdown), ih]
    rfl

/-- Without a radius or degrees there is no arc. -/
theorem arc_of_degenerate {degrees radius : ℚ} (h : radius ≤ 0 ∨ degrees = 0) :
    w.arc degrees radius = w := by
  unfold arc
  exact if_pos (by simpa [le, eq, nat] using h)

/-- An arc has a side for every degree begun. The sides are parts of its length, and the turns after
them parts of its angle. -/
theorem arc_eq {degrees radius : ℚ} (hradius : 0 < radius) (hdegrees : degrees ≠ 0)
    (hbound : |degrees| < 2 ^ 64) :
    ∃ length turn, w.arc degrees radius = Nat.repeat (side length turn) ⌈|degrees|⌉₊ w ∧
      ⌈|degrees|⌉₊ * length = |degrees| * ExactReading.halfTurn * radius / 180 ∧
      ⌈|degrees|⌉₊ * turn = degrees := by
  have hpos : 0 < |degrees| := abs_pos.mpr hdegrees
  have hcount : ExactReading.count ⌈|degrees|⌉ = ⌈|degrees|⌉₊ :=
    ExactReading.count_ceil _ hpos.le hbound
  have hcast : ((⌈|degrees|⌉ : ℤ) : ℚ) = (⌈|degrees|⌉₊ : ℚ) := by
    rw [← Int.natCast_ceil_eq_ceil hpos.le, Int.cast_natCast]
  have hsides : (⌈|degrees|⌉₊ : ℚ) ≠ 0 := by
    have := Nat.ceil_pos.mpr hpos
    positivity
  refine ⟨|degrees| * ExactReading.halfTurn * radius / 180 / ⌈|degrees|⌉₊, degrees / ⌈|degrees|⌉₊,
    ?_, mul_div_cancel₀ _ hsides, mul_div_cancel₀ _ hsides⟩
  have hnot : ¬ (le radius (nat 0) || eq degrees (nat 0)) = true := by
    simpa [le, eq, nat] using ⟨hradius, hdegrees⟩
  unfold arc
  rw [if_neg hnot]
  show Nat.repeat (side (|degrees| * ExactReading.halfTurn * radius / ((180 : ℕ) : ℚ) / ⌈|degrees|⌉)
    (degrees / ⌈|degrees|⌉)) (ExactReading.count ⌈|degrees|⌉) w = _
  rw [hcount, hcast]
  rfl

/-! ## Actions -/

/-- An action sets the heading or turns it. -/
theorem heading_act (h : wrapDegrees w.turtle.pose.heading = w.turtle.pose.heading) {a : Action ℚ}
    (ha : a.Steers) :
    (w.act a).turtle.pose.heading =
      wrapDegrees (a.heading?.getD (w.turtle.pose.heading + a.turn)) := by
  cases a with
  | right degrees => rfl
  | left degrees => exact congrArg wrapDegrees (sub_eq_add_neg ..)
  | setHeading degrees => rfl
  | forward distance => simpa [Action.heading?, Action.turn, act, heading_forward] using h.symm
  | arc degrees radius =>
    by_cases harc : 0 < radius ∧ degrees ≠ 0
    · rcases w.arc_eq harc.1 harc.2 ha with ⟨length, turn, heq, -, hturn⟩
      simp only [act, heq, Action.heading?, Action.turn, harc.1, if_true, Option.getD_none]
      rw [heading_repeat_side w _ _ _ h, hturn]
    · -- no arc, and no turn either
      have hdegenerate : radius ≤ 0 ∨ degrees = 0 := by
        rwa [not_and_or, not_lt, not_not] at harc
      have hturn : (Action.arc degrees radius).turn = 0 := by
        rcases hdegenerate with hradius | rfl
        · simp [Action.turn, not_lt.mpr hradius]
        · simp [Action.turn]
      simpa [act, arc_of_degenerate w hdegenerate, Action.heading?, hturn] using h.symm
  | _ => cases ha

/-- Any number of actions leads to their bearing, within one turn. -/
theorem heading_foldl (h : wrapDegrees w.turtle.pose.heading = w.turtle.pose.heading)
    {as : List (Action ℚ)} (has : ∀ a ∈ as, a.Steers) :
    (as.foldl act w).turtle.pose.heading = wrapDegrees (bearing w.turtle.pose.heading as) := by
  induction as using List.reverseRecOn with
  | nil => simpa [bearing_nil] using h.symm
  | append_singleton as a ih =>
    have hbefore := ih fun b hb => has b (List.mem_append_left _ hb)
    have hwrapped : wrapDegrees (as.foldl act w).turtle.pose.heading =
        (as.foldl act w).turtle.pose.heading := by
      rw [hbefore]
      exact wrapDegrees_congr (wrapDegrees_modEq _)
    rw [List.foldl_append, List.foldl_cons, List.foldl_nil,
      heading_act _ hwrapped (has a (by simp)), hbefore, bearing_concat]
    cases a.heading? with
    | some degrees => rfl
    | none => exact wrapDegrees_wrap_add ..

end Trail

/-- Turns add up. In exact arithmetic, any number of turns, headings set, ways ahead and arcs lead to
the only heading in `[0, 360)` that is congruent to the last heading set, or the first one, together
with all turns after it. So only the sum of the turns matters, and a turn to the right and back again
changes nothing. An arc is made of ways ahead of one length, as many as it has degrees begun, and of
equal turns after them; the lengths add up to the arc's length and the turns to its degrees, and with
the pen down each way ahead is drawn. -/
theorem turns_add_up (w : Trail ℚ)
    (hstart : 0 ≤ w.turtle.pose.heading ∧ w.turtle.pose.heading < 360) :
    (∀ as : List (Action ℚ), (∀ a ∈ as, a.Steers) →
      (∀ h, h = (as.foldl Trail.act w).turtle.pose.heading ↔
        0 ≤ h ∧ h < 360 ∧ h ≡ bearing w.turtle.pose.heading as [PMOD 360]) ∧
      ∀ bs : List (Action ℚ), (∀ b ∈ bs, b.Steers) →
        (∀ a ∈ as ++ bs, a.heading? = none) →
        (as.map Action.turn).sum = (bs.map Action.turn).sum →
        (as.foldl Trail.act w).turtle.pose.heading = (bs.foldl Trail.act w).turtle.pose.heading) ∧
    (∀ degrees, (w.turtle.right degrees).left degrees = w.turtle) ∧
    ∀ degrees radius, 0 < radius → degrees ≠ 0 → |degrees| < 2 ^ 64 → ∃ length turn,
      w.arc degrees radius =
        (List.replicate ⌈|degrees|⌉₊ [.forward length, .right turn]).flatten.foldl Trail.act w ∧
      ⌈|degrees|⌉₊ * length = |degrees| * ExactReading.halfTurn * radius / 180 ∧
      ⌈|degrees|⌉₊ * turn = degrees ∧
      (w.turtle.pen.down = true →
        (w.arc degrees radius).drawn.size = w.drawn.size + ⌈|degrees|⌉₊) := by
  have hwrapped : wrapDegrees w.turtle.pose.heading = w.turtle.pose.heading :=
    wrapDegrees_of_mem hstart.1 hstart.2
  refine ⟨?_, ?_, ?_⟩
  · intro as has
    have hheading := w.heading_foldl hwrapped has
    refine ⟨?_, ?_⟩
    · intro h
      rw [hheading, ← wrapDegrees_eq_iff, eq_comm]
    · intro bs hbs hturns hsum
      rcases List.forall_mem_append.mp hturns with ⟨hturns, hturns'⟩
      rw [hheading, w.heading_foldl hwrapped hbs, bearing_of_turns _ hturns,
        bearing_of_turns _ hturns', hsum]
  · intro degrees
    have hback : wrapDegrees (wrapDegrees (w.turtle.pose.heading + degrees) - degrees) =
        w.turtle.pose.heading := by
      rw [sub_eq_add_neg, wrapDegrees_wrap_add, add_neg_cancel_right, hwrapped]
    unfold Turtle.left Turtle.right
    dsimp only
    rw [hback]
  · intro degrees radius hradius hdegrees hbound
    rcases w.arc_eq hradius hdegrees hbound with ⟨length, turn, harc, hlength, hturn⟩
    refine ⟨length, turn, ?_, hlength, hturn, ?_⟩
    · rw [harc, Trail.repeat_side]
    · intro hdown
      rw [harc, Trail.size_repeat_side w length turn _ hdown]

end Exact

/-- A heading set, turns to both sides of more and less than a whole turn, and two arcs of which one
has no radius. -/
theorem turns_add_up_spiral :
    letI := ExactReading.nearlyRight
    let w : Trail ℚ := Turtle.still ⟨⟨600, 450, 90⟩, ⟨true, .black, 1, true⟩, ⟨600, 450⟩⟩
    let as : List (Action ℚ) := [.right 1000, .setHeading (-10), .right 30, .arc (-5 / 2) 4,
      .forward 7, .left 725, .arc 90 0]
    (0 ≤ w.turtle.pose.heading ∧ w.turtle.pose.heading < 360) ∧ (∀ a ∈ as, a.Steers) ∧
      (as.foldl Trail.act w).turtle.pose.heading = 25 / 2 ∧
      (w.arc (-5 / 2) 4).drawn.size = 3 := by
  let _ := ExactReading.nearlyRight
  intro w as
  have hstart : 0 ≤ w.turtle.pose.heading ∧ w.turtle.pose.heading < 360 := by
    constructor <;> norm_num [w, Turtle.still]
  have hsteers : ∀ a ∈ as, a.Steers := by
    simp [as, Action.Steers]
    norm_num [abs_lt]
  have hmod : (25 / 2 : ℚ) ≡ bearing w.turtle.pose.heading as [PMOD 360] := by
    rw [AddCommGroup.modEq_iff_zsmul]
    refine ⟨-2, ?_⟩
    norm_num [as, bearing, List.rtakeWhile, List.findSome?, Action.heading?, Action.turn]
  rcases turns_add_up w hstart with ⟨hall, -, harcs⟩
  rcases harcs (-5 / 2) 4 (by norm_num) (by norm_num) (by norm_num [abs_lt]) with
    ⟨length, turn, -, -, -, hsize⟩
  have hceil : ⌈|(-5 / 2 : ℚ)|⌉₊ = 3 := by
    rw [Nat.ceil_eq_iff (by decide)]
    norm_num
  refine ⟨hstart, hsteers, ?_, ?_⟩
  · exact ((hall as hsteers).1 (25 / 2) |>.mpr ⟨by norm_num, by norm_num, hmod⟩).symm
  · rw [hsize rfl, hceil]
    rfl

end TurtleGraphics
