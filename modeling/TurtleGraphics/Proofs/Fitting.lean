import TurtleGraphics.Proofs.PlotArea
import TurtleGraphics.Proofs.Rationals

namespace TurtleGraphics

open Scalar

/-! # Fitting a surface into an area

What a fitted plotter makes of a surface, in exact arithmetic.

* `Area.Contains`, `OnSurface`: what lies in an area and what on a surface.
* `Plotter.contains_map_iff`: a plotter maps the whole surface into its area if and only if its scale
  is not greater than the two ratios between the area's extent and the surface's. The fitted scale is
  the smaller one of these.
* `Plotter.plainOps`: the plan in which no move is kept inside the area. The plan for a plotter comes
  of it by moving places into the area (`Plotter.ops_eq_map`), which changes none that lie there.

`fit_largest` is the consequence for surfaces and for the drawings on them.
-/

/-! ## Plans without an area -/

section PlainOps

variable {α : Type} [Scalar α]

/-- The operation with its place moved into the area. -/
def PlotOp.within (area : Area α) : PlotOp α → PlotOp α
  | .moveTo q => .moveTo (area.clamp q)
  | .penUp => .penUp
  | .penDown => .penDown

namespace Plotter

variable (p : Plotter α) (home : Point α)

/-- The operations that a segment adds if places outside the area are left there. -/
def plainlyAdded (before : Option (Segment α)) (s : Segment α) : List (PlotOp α) :=
  let start := .moveTo (p.startOf home s)
  let stop := .moveTo (p.stopOf home s)
  match before with
  | none => [start, .penDown, stop]
  | some r => if p.joined home r s then [stop] else [.penUp, start, .penDown, stop]

/-- The plan for some segments if places outside the area are left there. -/
def plainOps (segments : List (Segment α)) : List (PlotOp α) :=
  (pairs none segments).flatMap (fun bs => p.plainlyAdded home bs.1 bs.2) ++
    if segments = [] then [] else [.penUp]

theorem added_eq_map (before : Option (Segment α)) (s : Segment α) :
    p.added home before s = (p.plainlyAdded home before s).map (.within p.area) := by
  cases before with
  | none => rfl
  | some r =>
    unfold added plainlyAdded
    dsimp only
    cases p.joined home r s <;> rfl

/-- Whether the pen is lifted between two segments does not depend on what is moved into the area. -/
theorem ops_eq_map (segments : List (Segment α)) :
    (p.ops home segments).toList = (p.plainOps home segments).map (.within p.area) := by
  have hstart : (⟨#[], none⟩ : Draft α).last = none.map (p.stopOf home) := rfl
  have hadded : (pairs none segments).flatMap (fun bs => p.added home bs.1 bs.2) =
      ((pairs none segments).flatMap fun bs => p.plainlyAdded home bs.1 bs.2).map
        (.within p.area) := by
    simp only [added_eq_map, List.map_flatMap]
  rw [ops_eq, toList_foldl_draw hstart, hadded, plainOps, List.map_append]
  by_cases hempty : segments = []
  · simp [hempty]
  · simp [hempty, PlotOp.within]

theorem moveTo_mem_plainlyAdded {before : Option (Segment α)} {s : Segment α} {q : Point α}
    (h : .moveTo q ∈ p.plainlyAdded home before s) :
    q = p.startOf home s ∨ q = p.stopOf home s := by
  unfold plainlyAdded at h
  cases before with
  | none => simpa using h
  | some r => cases hjoined : p.joined home r s <;> simp_all

/-- The places of a plan are the ends of its segments. -/
theorem moveTo_mem_plainOps {segments : List (Segment α)} {q : Point α}
    (h : .moveTo q ∈ p.plainOps home segments) :
    ∃ s ∈ segments, q = p.startOf home s ∨ q = p.stopOf home s := by
  rcases List.mem_append.mp h with h | h
  · rcases List.mem_flatMap.mp h with ⟨⟨before, s⟩, hmem, hq⟩
    exact ⟨s, (List.of_mem_zip hmem).2, p.moveTo_mem_plainlyAdded home hq⟩
  · split at h <;> simp at h

end Plotter

end PlainOps

/-! ## Surfaces and areas -/

/-- The place lies between the corners of the area or on its edge. -/
def Area.Contains (a : Area ℚ) (q : Point ℚ) : Prop :=
  (a.x₀ ≤ q.x ∧ q.x ≤ a.x₁) ∧ a.y₀ ≤ q.y ∧ q.y ≤ a.y₁

/-- The place lies on a surface of the given size. -/
def OnSurface (width height : ℚ) (q : Point ℚ) : Prop :=
  (0 ≤ q.x ∧ q.x ≤ width) ∧ 0 ≤ q.y ∧ q.y ≤ height

/-- Along one axis, all ways from the middle of a surface to its places stay within the middle of an
area and its bounds, if they do for the ways to the two ends. -/
theorem scaled_mem_iff (low high : ℚ) {size scale : ℚ} (hsize : 0 < size) (hscale : 0 < scale) :
    (∀ x, 0 ≤ x → x ≤ size → low ≤ (low + high) / 2 + (x - size / 2) * scale ∧
      (low + high) / 2 + (x - size / 2) * scale ≤ high) ↔ scale ≤ (high - low) / size := by
  rw [le_div_iff₀ hsize]
  constructor
  · intro h
    have hend := (h size hsize.le le_rfl).2
    linarith
  · intro h x hx hx'
    have hbelow : (0 - size / 2) * scale ≤ (x - size / 2) * scale :=
      mul_le_mul_of_nonneg_right (by linarith) hscale.le
    have habove : (x - size / 2) * scale ≤ (size - size / 2) * scale :=
      mul_le_mul_of_nonneg_right (by linarith) hscale.le
    constructor <;> linarith

section Exact

variable [ExactReading]

theorem Area.clamp_of_contains {a : Area ℚ} (hx : a.x₀ < a.x₁) (hy : a.y₀ < a.y₁) {q : Point ℚ}
    (h : a.Contains q) : a.clamp q = q := by
  rcases h with ⟨⟨hleft, hright⟩, hbottom, htop⟩
  unfold clamp left right bottom top
  rw [smaller_eq_min, smaller_eq_min, larger_eq_max, larger_eq_max, min_eq_left hx.le,
    min_eq_left hy.le, max_eq_right hx.le, max_eq_right hy.le, clamp_of_mem hleft hright,
    clamp_of_mem hbottom htop]

namespace Plotter

/-- Home lies in the middle of the area, and everything else as far from it as the scale says. -/
theorem map_eq (p : Plotter ℚ) (home : Point ℚ) (x y : ℚ) :
    p.map home x y = ⟨(p.area.x₀ + p.area.x₁) / 2 + (x - home.x) * p.scale,
      (p.area.y₀ + p.area.y₁) / 2 + (home.y - y) * p.scale⟩ := by
  have hmap : p.map home x y =
      ⟨((1 : ℕ) : ℚ) / ((2 : ℕ) : ℚ) * (p.area.x₀ + p.area.x₁) + (x - home.x) * p.scale,
        ((1 : ℕ) : ℚ) / ((2 : ℕ) : ℚ) * (p.area.y₀ + p.area.y₁) + (home.y - y) * p.scale⟩ := rfl
  rw [hmap, Point.mk.injEq]
  constructor <;> (push_cast; ring)

/-- A plotter maps a whole surface into its area just when its scale is small enough along both
axes. -/
theorem contains_map_iff {p : Plotter ℚ} (hscale : 0 < p.scale) {width height : ℚ}
    (hwidth : 0 < width) (hheight : 0 < height) :
    (∀ q, OnSurface width height q →
        p.area.Contains (p.map ⟨width / 2, height / 2⟩ q.x q.y)) ↔
      p.scale ≤ min (p.area.width / width) (p.area.height / height) := by
  have hacross := scaled_mem_iff p.area.x₀ p.area.x₁ hwidth hscale
  have hup := scaled_mem_iff p.area.y₀ p.area.y₁ hheight hscale
  have hextent : p.area.width = p.area.x₁ - p.area.x₀ ∧ p.area.height = p.area.y₁ - p.area.y₀ :=
    ⟨rfl, rfl⟩
  rw [hextent.1, hextent.2, le_min_iff, ← hacross, ← hup]
  simp only [map_eq, Area.Contains, OnSurface]
  constructor
  · intro h
    constructor
    · intro x hx hx'
      exact (h ⟨x, 0⟩ ⟨⟨hx, hx'⟩, le_rfl, hheight.le⟩).1
    · -- the surface's axis is turned over
      intro y hy hy'
      have hplace := (h ⟨0, height - y⟩ ⟨⟨le_rfl, hwidth.le⟩, by linarith, by linarith⟩).2
      rwa [show height / 2 - (height - y) = y - height / 2 by ring] at hplace
  · rintro ⟨hacross, hup⟩ q ⟨⟨hx, hx'⟩, hy, hy'⟩
    refine ⟨hacross q.x hx hx', ?_⟩
    have hplace := hup (height - q.y) (by linarith) (by linarith)
    rwa [show height - q.y - height / 2 = height / 2 - q.y by ring] at hplace

theorem scale_fit (area : Area ℚ) (width height : ℚ) :
    (fit area width height).scale = min (area.width / width) (area.height / height) :=
  smaller_eq_min ..

end Plotter

/-- In exact arithmetic, the plotter fitted to a surface maps the whole surface into its area, so
that nothing is moved there; home goes to the middle of the area, every way is scaled by one positive
number and turned over along `y`, and with a greater scale some place of the surface would lie
outside. So the plan for a drawing that stays on the surface is the one without an area. -/
theorem fit_largest (area : Area ℚ) (hx : area.x₀ < area.x₁) (hy : area.y₀ < area.y₁)
    {width height : ℚ} (hwidth : 0 < width) (hheight : 0 < height) :
    let p := Plotter.fit area width height
    let home : Point ℚ := ⟨width / 2, height / 2⟩
    (∀ q, OnSurface width height q →
      area.Contains (p.map home q.x q.y) ∧
        p.area.clamp (p.map home q.x q.y) = p.map home q.x q.y) ∧
    p.map home home.x home.y = ⟨(area.x₀ + area.x₁) / 2, (area.y₀ + area.y₁) / 2⟩ ∧
    (0 < p.scale ∧ ∀ x y dx dy, p.map home (x + dx) (y + dy) =
      ⟨(p.map home x y).x + p.scale * dx, (p.map home x y).y + -(p.scale * dy)⟩) ∧
    (∀ s > p.scale, ¬ ∀ q, OnSurface width height q →
      area.Contains (Plotter.map ⟨area, s⟩ home q.x q.y)) ∧
    ∀ segments : List (Segment ℚ),
      (∀ g ∈ segments, OnSurface width height ⟨g.x₁, g.y₁⟩ ∧
        OnSurface width height ⟨g.x₂, g.y₂⟩) →
      (p.ops home segments).toList = p.plainOps home segments := by
  intro p home
  have hscale : p.scale = min (area.width / width) (area.height / height) :=
    Plotter.scale_fit area width height
  have hpos : 0 < p.scale := by
    rw [hscale, lt_min_iff]
    exact ⟨div_pos (sub_pos.mpr hx) hwidth, div_pos (sub_pos.mpr hy) hheight⟩
  have hcontains : ∀ q, OnSurface width height q → area.Contains (p.map home q.x q.y) :=
    (Plotter.contains_map_iff hpos hwidth hheight).mpr hscale.le
  have hclamp : ∀ q, OnSurface width height q →
      p.area.clamp (p.map home q.x q.y) = p.map home q.x q.y :=
    fun q hq => Area.clamp_of_contains hx hy (hcontains q hq)
  refine ⟨fun q hq => ⟨hcontains q hq, hclamp q hq⟩, ?_, ⟨hpos, ?_⟩, ?_, ?_⟩
  · rw [Plotter.map_eq, sub_self, sub_self, zero_mul, add_zero, add_zero]
    rfl
  · intro x y dx dy
    rw [Plotter.map_eq, Plotter.map_eq, Point.mk.injEq]
    constructor <;> (dsimp only; ring)
  · intro s hs hall
    have hle := (Plotter.contains_map_iff (p := ⟨area, s⟩) (hpos.trans hs) hwidth hheight).mp hall
    exact absurd hle (not_le_of_gt (hscale ▸ hs))
  · intro segments hsegments
    have hwithin : ∀ op ∈ p.plainOps home segments, op.within p.area = op := by
      intro op hop
      cases op with
      | penUp => rfl
      | penDown => rfl
      | moveTo q =>
        rcases p.moveTo_mem_plainOps home hop with ⟨g, hg, rfl | rfl⟩
        · exact congrArg PlotOp.moveTo (hclamp ⟨g.x₁, g.y₁⟩ (hsegments g hg).1)
        · exact congrArg PlotOp.moveTo (hclamp ⟨g.x₂, g.y₂⟩ (hsegments g hg).2)
    rw [Plotter.ops_eq_map, List.map_congr_left hwithin, List.map_id']

end Exact

/-- A surface that is higher than its area is, seen from its width: the scale is that of the
heights. -/
theorem fit_largest_high :
    letI := ExactReading.nearlyRight
    let area : Area ℚ := ⟨0, 0, 120, 60⟩
    let p := Plotter.fit area 1200 900
    let g : Segment ℚ := ⟨0, 0, 1200, 900, .black, 1⟩
    area.x₀ < area.x₁ ∧ area.y₀ < area.y₁ ∧ (0 : ℚ) < 1200 ∧ (0 : ℚ) < 900 ∧
      p.scale = 1 / 15 ∧ area.Contains (p.map ⟨1200 / 2, 900 / 2⟩ 1200 900) ∧
      (p.ops ⟨1200 / 2, 900 / 2⟩ [g]).toList = p.plainOps ⟨1200 / 2, 900 / 2⟩ [g] := by
  let _ := ExactReading.nearlyRight
  intro area p g
  have hx : area.x₀ < area.x₁ := by norm_num [area]
  have hy : area.y₀ < area.y₁ := by norm_num [area]
  have hwidth : (0 : ℚ) < 1200 := by norm_num
  have hheight : (0 : ℚ) < 900 := by norm_num
  have hfirst : OnSurface 1200 900 ⟨g.x₁, g.y₁⟩ := by norm_num [OnSurface, g]
  have hsecond : OnSurface 1200 900 ⟨g.x₂, g.y₂⟩ := by norm_num [OnSurface, g]
  rcases fit_largest area hx hy hwidth hheight with ⟨hcontains, -, -, -, hplain⟩
  refine ⟨hx, hy, hwidth, hheight, ?_, (hcontains _ hsecond).1, hplain [g] ?_⟩
  · have hscale := Plotter.scale_fit area 1200 900
    have hextent : area.width = 120 ∧ area.height = 60 := by
      constructor <;> norm_num [Area.width, Area.height, area]
    rw [hscale, hextent.1, hextent.2]
    norm_num
  · intro h hh
    rw [List.mem_singleton.mp hh]
    exact ⟨hfirst, hsecond⟩

end TurtleGraphics
