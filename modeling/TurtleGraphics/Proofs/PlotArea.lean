import Mathlib
import TurtleGraphics.CommandLine.Job
import TurtleGraphics.Proofs.PenStrokes

namespace TurtleGraphics

open Binary64 Float.Model Float.Model.UnpackedFloat

/-! # The plotter's area

Whether the moves of a plan lead inside the area of the plotter at hand, as the plotter reads them.

* `wholeUnits_finite`: a finite double is rounded as its exact value is.
* `wholeUnits_across`, `wholeUnits_up`: a double between the bounds of the area is a whole number
  between them when it is rounded.
* `wholeUnits_of_isNaN`: a NaN is written as zero, which lies in the area along `x` but not along `y`.
* `Plotter.onPaper_clamp_iff`: a place is brought into the area unless its `y` is a NaN.
* `Plotter.moveTo_mem_ops`: a plan moves to the ends of segments, and a start that is a NaN is not
  passed over.

`plotterCommands_onPaper_iff` is the consequence for sessions, and `plotterCommands_outside` a session
whose commands lead outside.
-/

/-! ## Rounding -/

theorem wholeUnits_of_isNaN {x : Float} (h : x.isNaN = true) : wholeUnits x = 0 := by
  have hexact : exact x = .notANumber := isNaN_iff.mp h
  have hround : roundHalfAway x = x := by rw [roundHalfAway, hexact]
  rw [wholeUnits, hround, hexact]
  rfl

theorem wholeUnits_zero {x : Float} {s : Sign} (h : exact x = .zero s) : wholeUnits x = 0 := by
  have hround : roundHalfAway x = x := by rw [roundHalfAway, h]
  rw [wholeUnits, hround, h]
  rfl

/-- Small whole numbers are doubles, and come out as they went in. -/
theorem toInt32_nearest : ∀ n < 131, (exact (nearest .positive n 0)).toInt32.toInt = n ∧
    (exact (nearest .negative n 0)).toInt32.toInt = -n := by decide +kernel

/-- The whole number nearest to `m / 2 ^ k`, a half going up. -/
def nearestWhole (m k : ℕ) : ℕ := (2 * m + 2 ^ k) / (2 * 2 ^ k)

/-- A finite double with a fraction is rounded to the nearest whole number, if that is small. -/
theorem wholeUnits_finite {x : Float} {s : Sign} {m k : ℕ} {hm : 0 < m}
    (h : exact x = .finite s m (-(k : ℤ)) hm) (hk : 0 < k) (hsmall : nearestWhole m k < 131) :
    wholeUnits x = match s with
      | .positive => (nearestWhole m k : ℤ)
      | .negative => -(nearestWhole m k : ℤ) := by
  have hround : roundHalfAway x = nearest s (nearestWhole m k) 0 := by
    rw [roundHalfAway, h]
    dsimp only
    rw [if_neg (by omega), neg_neg, Int.toNat_natCast]
    rfl
  rw [wholeUnits, hround]
  cases s with
  | positive => exact (toInt32_nearest _ hsmall).1
  | negative => exact (toInt32_nearest _ hsmall).2

/-- Between two whole numbers, the nearest whole number lies between them too. -/
theorem nearestWhole_mem {m k a b : ℕ} (ha : a * 2 ^ k ≤ m) (hb : m ≤ b * 2 ^ k) :
    a ≤ nearestWhole m k ∧ nearestWhole m k ≤ b := by
  unfold nearestWhole
  have hpos : 0 < 2 ^ k := Nat.two_pow_pos k
  constructor
  · rw [Nat.le_div_iff_mul_le (by omega)]
    calc a * (2 * 2 ^ k) = 2 * (a * 2 ^ k) := by ring
      _ ≤ 2 * m + 2 ^ k := by omega
  · rw [← Nat.lt_succ_iff, Nat.div_lt_iff_lt_mul (by omega)]
    calc 2 * m + 2 ^ k < 2 * (b * 2 ^ k) + 2 * 2 ^ k := by omega
      _ = (b + 1) * (2 * 2 ^ k) := by ring

/-! ## The bounds of the area -/

theorem place_neg_eighty : place (-80) = toLex (-1, toLex (46, -(80 * 2 ^ 46))) := rfl

theorem place_eighty : place 80 = toLex (1, toLex (-46, 80 * 2 ^ 46)) := rfl

theorem place_fifty : place 50 = toLex (1, toLex (-47, 50 * 2 ^ 47)) := rfl

theorem place_one_thirty : place 130 = toLex (1, toLex (-45, 130 * 2 ^ 45)) := rfl

/-- A finite double between the bounds along `x`, on either side of zero, has some binary digits behind
its point. -/
theorem le_eighty {x : Float} {s : Sign} {m : ℕ} {e : ℤ} {hm : 0 < m}
    (h : exact x = .finite s m e hm) (hlow : place (-80) ≤ place x) (hhigh : place x ≤ place 80) :
    ∃ k : ℕ, e = -(k : ℤ) ∧ 0 < k ∧ m ≤ 80 * 2 ^ k := by
  have hlength := (exact_finite h).lt
  have hbound : e < -46 ∨ e = -46 ∧ m ≤ 80 * 2 ^ 46 := by
    rw [place_neg_eighty, place, h] at hlow
    rw [place_eighty, place, h] at hhigh
    cases s with
    | positive =>
      have := (toLex_le_toLex ..).mp hhigh
      omega
    | negative =>
      have := (toLex_le_toLex ..).mp hlow
      omega
  rcases hbound with hlt | ⟨rfl, hle⟩
  · have hpow : 2 ^ 47 ≤ 2 ^ (-e).toNat := Nat.pow_le_pow_right (by decide) (by omega)
    exact ⟨(-e).toNat, by omega, by omega, by omega⟩
  · exact ⟨46, rfl, by decide, hle⟩

/-- A double between the bounds along `x` is a whole number between them when it is rounded. -/
theorem wholeUnits_across {x : Float} (hlow : Float.le (-80) x = true)
    (hhigh : Float.le x 80 = true) : -80 ≤ wholeUnits x ∧ wholeUnits x ≤ 80 := by
  rcases le_iff.mp hlow with ⟨-, hnan, hlow⟩
  rcases le_iff.mp hhigh with ⟨-, -, hhigh⟩
  cases h : exact x with
  | notANumber =>
    rw [wholeUnits_of_isNaN (isNaN_iff.mpr h)]
    omega
  | infinity s =>
    unfold place at hlow hhigh
    rw [h] at hlow hhigh
    cases s with
    | positive => exact absurd hhigh (by decide)
    | negative => exact absurd hlow (by decide)
  | zero s =>
    rw [wholeUnits_zero h]
    omega
  | finite s m e hm =>
    rcases le_eighty h hlow hhigh with ⟨k, rfl, hk, hle⟩
    have hmem := nearestWhole_mem (by omega : 0 * 2 ^ k ≤ m) hle
    rw [wholeUnits_finite h hk (by omega)]
    cases s <;> dsimp only <;> omega

/-- A double between the bounds along `y` is finite and positive, with some digits behind its point. -/
theorem fifty_le {y : Float} (hlow : place 50 ≤ place y) (hhigh : place y ≤ place 130) :
    ∃ (m k : ℕ) (hm : 0 < m), exact y = .finite .positive m (-(k : ℤ)) hm ∧ 0 < k ∧
      50 * 2 ^ k ≤ m ∧ m ≤ 130 * 2 ^ k := by
  rw [place_fifty, place] at hlow
  rw [place_one_thirty, place] at hhigh
  cases h : exact y with
  | notANumber =>
    rw [h] at hlow
    exact absurd hlow (by decide)
  | infinity s =>
    rw [h] at hlow hhigh
    cases s with
    | positive => exact absurd hhigh (by decide)
    | negative => exact absurd hlow (by decide)
  | zero s =>
    rw [h] at hlow
    have := (toLex_le_toLex ..).mp hlow
    omega
  | finite s m e hm =>
    have hlength := (exact_finite h).lt
    have hfull := (exact_finite h).full
    rw [h] at hlow hhigh
    cases s with
    | negative =>
      have := (toLex_le_toLex ..).mp hlow
      omega
    | positive =>
      have hbelow := (toLex_le_toLex ..).mp hlow
      have habove := (toLex_le_toLex ..).mp hhigh
      have he : e = -47 ∨ e = -46 ∨ e = -45 := by omega
      rcases he with rfl | rfl | rfl
      · exact ⟨m, 47, hm, rfl, by decide, by omega, by omega⟩
      · exact ⟨m, 46, hm, rfl, by decide, by omega, by omega⟩
      · exact ⟨m, 45, hm, rfl, by decide, by omega, by omega⟩

/-- A double between the bounds along `y` is a whole number between them when it is rounded. -/
theorem wholeUnits_up {y : Float} (hlow : Float.le 50 y = true) (hhigh : Float.le y 130 = true) :
    50 ≤ wholeUnits y ∧ wholeUnits y ≤ 130 := by
  rcases fifty_le (le_iff.mp hlow).2.2 (le_iff.mp hhigh).2.2 with ⟨m, k, hm, h, hk, hbelow, habove⟩
  have hmem := nearestWhole_mem hbelow habove
  rw [wholeUnits_finite h hk (by omega)]
  dsimp only
  omega

/-! ## The area -/

/-- The place is inside the area as the plotter reads it. -/
def OnPaper (q : Point Float) : Prop :=
  (-80 ≤ wholeUnits q.x ∧ wholeUnits q.x ≤ 80) ∧ 50 ≤ wholeUnits q.y ∧ wholeUnits q.y ≤ 130

instance (q : Point Float) : Decidable (OnPaper q) :=
  inferInstanceAs (Decidable (_ ∧ _))

namespace Plotter

theorem standard_left : standard.area.left = -80 := by decide +kernel

theorem standard_right : standard.area.right = 80 := by decide +kernel

theorem standard_bottom : standard.area.bottom = 50 := by decide +kernel

theorem standard_top : standard.area.top = 130 := by decide +kernel

/-- Along `x` every place is brought into the area, since a NaN is written as a zero. -/
theorem across_clamp (q : Point Float) :
    -80 ≤ wholeUnits (standard.area.clamp q).x ∧ wholeUnits (standard.area.clamp q).x ≤ 80 := by
  unfold Area.clamp
  rw [standard_left, standard_right]
  dsimp only
  cases hnan : q.x.isNaN with
  | true =>
    rw [clamp_of_isNaN hnan, wholeUnits_of_isNaN hnan]
    omega
  | false =>
    have hbounds : Float.le (-80) 80 = true := by decide +kernel
    have hmem := clamp_mem hbounds hnan
    exact wholeUnits_across hmem.1 hmem.2

/-- Along `y` a zero is outside the area. -/
theorem up_clamp_of_isNaN {q : Point Float} (hnan : q.y.isNaN = true) :
    wholeUnits (standard.area.clamp q).y = 0 := by
  unfold Area.clamp
  dsimp only
  rw [clamp_of_isNaN hnan, wholeUnits_of_isNaN hnan]

theorem up_clamp {q : Point Float} (hnan : q.y.isNaN = false) :
    50 ≤ wholeUnits (standard.area.clamp q).y ∧ wholeUnits (standard.area.clamp q).y ≤ 130 := by
  unfold Area.clamp
  rw [standard_bottom, standard_top]
  have hbounds : Float.le 50 130 = true := by decide +kernel
  have hmem := clamp_mem hbounds hnan
  exact wholeUnits_up hmem.1 hmem.2

/-- A place is brought inside the area unless its `y` is a NaN. -/
theorem onPaper_clamp_iff (q : Point Float) :
    OnPaper (standard.area.clamp q) ↔ q.y.isNaN = false := by
  constructor
  · rintro ⟨-, hlow, -⟩
    cases hnan : q.y.isNaN with
    | true =>
      rw [up_clamp_of_isNaN hnan] at hlow
      omega
    | false => rfl
  · intro hnan
    exact ⟨across_clamp q, up_clamp hnan⟩

/-! ## The moves of a plan -/

/-- A segment whose start is a NaN along `y` joins on to nothing: its distance to anything is a NaN or
infinite. -/
theorem joined_of_isNaN (p : Plotter Float) (home : Point Float) (r : Segment Float)
    {s : Segment Float} (h : (p.startOf home s).y.isNaN = true) : p.joined home r s = false := by
  have hnan := isNaN_sub (p.stopOf home r).y h
  show Float.lt (hypot ((p.stopOf home r).x - (p.startOf home s).x)
    ((p.stopOf home r).y - (p.startOf home s).y)) tolerance = false
  unfold hypot
  split
  · -- the other side is infinite
    decide +kernel
  · rw [hnan, Bool.or_true, if_pos rfl]
    decide +kernel

section Moves

variable {α : Type} [Scalar α] {p : Plotter α} {home : Point α}

/-- Drawing some segments adds what each of them adds. -/
theorem toList_foldl_draw {d : Draft α} {before : Option (Segment α)}
    (h : d.last = before.map (p.stopOf home)) (segments : List (Segment α)) :
    (segments.foldl (p.draw home) d).ops.toList =
      d.ops.toList ++ (pairs before segments).flatMap fun bs => p.added home bs.1 bs.2 := by
  induction segments generalizing d before with
  | nil => simp
  | cons s rest ih =>
    have hlast : (p.draw home d s).last = (some s).map (p.stopOf home) := rfl
    rw [List.foldl_cons, ih hlast, toList_draw h]
    simp

theorem moveTo_mem_added {before : Option (Segment α)} {s : Segment α} {q : Point α} :
    .moveTo q ∈ p.added home before s ↔
      q = p.area.clamp (p.stopOf home s) ∨
        p.parts home before s = true ∧ q = p.area.clamp (p.startOf home s) := by
  cases before with
  | none => simp [added, parts, move, or_comm]
  | some r => cases hjoined : p.joined home r s <;> simp [added, parts, hjoined, move, or_comm]

/-- A plan moves to where each segment ends and to where each piece starts, and nowhere else. -/
theorem moveTo_mem_ops {segments : List (Segment α)} {q : Point α} :
    .moveTo q ∈ (p.ops home segments).toList ↔ ∃ bs ∈ pairs none segments,
      q = p.area.clamp (p.stopOf home bs.2) ∨
        p.parts home bs.1 bs.2 = true ∧ q = p.area.clamp (p.startOf home bs.2) := by
  have hlift : .moveTo q ∉ if segments = [] then [] else [PlotOp.penUp] := by
    split <;> simp
  have hstart : (⟨#[], none⟩ : Draft α).last = none.map (p.stopOf home) := rfl
  rw [ops_eq, List.mem_append, or_iff_left hlift, toList_foldl_draw hstart]
  simp [moveTo_mem_added]

/-- Every move of a plan is kept inside the area. -/
theorem clamped_of_mem_ops {segments : List (Segment α)} {q : Point α}
    (h : .moveTo q ∈ (p.ops home segments).toList) : ∃ r, q = p.area.clamp r := by
  rcases moveTo_mem_ops.mp h with ⟨bs, -, hstop | ⟨-, hstart⟩⟩
  · exact ⟨_, hstop⟩
  · exact ⟨_, hstart⟩

end Moves

/-- A segment has an end whose `y` on the plotter is a NaN. -/
def Loses (p : Plotter Float) (home : Point Float) (s : Segment Float) : Prop :=
  (p.startOf home s).y.isNaN = true ∨ (p.stopOf home s).y.isNaN = true

/-- For a plotter with the area of the one at hand, a plan stays inside the area unless it loses an end
of a segment. -/
theorem ops_onPaper_iff {p : Plotter Float} (hp : p.area = standard.area) (home : Point Float)
    (segments : List (Segment Float)) :
    (∀ q, .moveTo q ∈ (p.ops home segments).toList → OnPaper q) ↔
      ∀ s ∈ segments, ¬ p.Loses home s := by
  constructor
  · intro honPaper s hs hloses
    rw [← map_snd_pairs none segments] at hs
    rcases List.mem_map.mp hs with ⟨⟨before, s⟩, hmem, rfl⟩
    rcases hloses with hstart | hstop
    · have hparts : p.parts home before s = true := by
        cases before with
        | none => rfl
        | some r => rw [parts, joined_of_isNaN p home r hstart]; rfl
      have hon := honPaper _ (moveTo_mem_ops.mpr ⟨_, hmem, .inr ⟨hparts, rfl⟩⟩)
      rw [hp, onPaper_clamp_iff, hstart] at hon
      cases hon
    · have hon := honPaper _ (moveTo_mem_ops.mpr ⟨_, hmem, .inl rfl⟩)
      rw [hp, onPaper_clamp_iff, hstop] at hon
      cases hon
  · intro hkeeps q hq
    rcases moveTo_mem_ops.mp hq with ⟨⟨before, s⟩, hmem, hends⟩
    have hkept := hkeeps s (List.of_mem_zip hmem).2
    unfold Loses at hkept
    rcases hends with rfl | ⟨-, rfl⟩
    · rw [hp, onPaper_clamp_iff]
      exact Bool.eq_false_of_not_eq_true fun h => hkept (.inr h)
    · rw [hp, onPaper_clamp_iff]
      exact Bool.eq_false_of_not_eq_true fun h => hkept (.inl h)

end Plotter

/-! ## Sessions -/

namespace CommandLine

namespace Session

/-- The plotter that a session's drawing is meant for. -/
def plotter (x : Session) : Plotter Float :=
  .fit Plotter.standard.area x.workspace.config.width x.workspace.config.height

/-- The operations that a session's plotter commands stand for. -/
def plan (x : Session) : List (PlotOp Float) :=
  (x.plotter.ops x.workspace.config.home x.workspace.path.toList).toList

end Session

/-- The plotter commands of a session lead to places inside the area, or below it at height zero. They
all lead inside if and only if no segment of the drawing has an end whose height on the plotter is a
NaN. -/
theorem plotterCommands_onPaper_iff (x : Session) :
    x.plotterCommands = plotText x.plan ∧
      (∀ q, .moveTo q ∈ x.plan →
        (-80 ≤ wholeUnits q.x ∧ wholeUnits q.x ≤ 80) ∧
          (50 ≤ wholeUnits q.y ∧ wholeUnits q.y ≤ 130 ∨ wholeUnits q.y = 0)) ∧
      ((∀ q, .moveTo q ∈ x.plan → OnPaper q) ↔
        ∀ s ∈ x.workspace.path.toList, ¬ x.plotter.Loses x.workspace.config.home s) := by
  have harea : x.plotter.area = Plotter.standard.area := rfl
  refine ⟨rfl, ?_, Plotter.ops_onPaper_iff harea x.workspace.config.home x.workspace.path.toList⟩
  intro q hq
  rcases Plotter.clamped_of_mem_ops hq with ⟨r, rfl⟩
  rw [harea]
  refine ⟨Plotter.across_clamp r, ?_⟩
  cases hnan : r.y.isNaN with
  | true => exact .inr (Plotter.up_clamp_of_isNaN hnan)
  | false => exact .inl (Plotter.up_clamp hnan)

/-- A surface of infinite height has its middle at infinity. There the way home is not a number, and
the plotter is sent below its area. -/
theorem plotterCommands_outside :
    ∃ settings x,
      Request.read ["run", "p", "--height", "inf", "--plot", "out"] =
        .ok (.job ⟨settings, .run "p"⟩) ∧
      Session.start settings = .ok x ∧
      (x.enter "home").1.files settings =
        [("out", "moveto 0 0\npendown\nmoveto 0 0\npenup\n")] ∧
      ¬ ∀ q, .moveTo q ∈ (x.enter "home").1.plan → OnPaper q := by
  let settings : Settings := ⟨1200, Binary64.infinity, .named, none, none, some "out"⟩
  let x : Session :=
    ⟨.new { width := 1200, height := Binary64.infinity } NamedPalette.standard.toPalette, .empty⟩
  have hpositive : (Float.lt 0 settings.width && Float.lt 0 settings.height) = true := by
    decide +kernel
  refine ⟨settings, x, by decide +kernel, if_pos hpositive, by decide +kernel, ?_⟩
  intro honPaper
  have hmove : .moveTo ⟨0, Binary64.nan⟩ ∈ (x.enter "home").1.plan := by decide +kernel
  exact absurd (honPaper _ hmove) (by decide +kernel)

end CommandLine

end TurtleGraphics
