import Mathlib
import TurtleGraphics.Drawing.Plotter
import TurtleGraphics.Proofs.DoubleOrder

namespace TurtleGraphics

/-! # Plans on paper

What a plan for a plotter comes to when a pen carries it out.

* `PlotPen.obey`: the pen carries out one operation. It refuses to be lowered where it has no place or
  is down already, and to be lifted when it is up.
* `Plotter.strokeAfter`: the stroke that a segment should become, after the segment before it.
* `IsPiece`: an approach, the lowering of the pen, some moves and the lifting of the pen.
* `Plotter.added`: the operations that one more segment adds to a plan.
* `Plotter.Draft.Draws`: the invariant of a plan in the making. The pen is down where the last segment
  ended, so one more segment adds one more stroke, whether or not it joins on.

`plan_renders` is the consequence for plans of doubles: they are made of pieces, and draw one stroke
for each segment.
-/

variable {α : Type}

/-! ## The pen -/

/-- A line that the pen has drawn. -/
structure Stroke (α : Type) where
  start : Point α
  stop : Point α

/-- Where the pen is. If it is down it is somewhere. -/
inductive PenPlace (α : Type) where
  | unplaced
  | raised (p : Point α)
  | lowered (p : Point α)

/-- The pen is up. -/
def PenPlace.isUp : PenPlace α → Bool
  | .unplaced | .raised _ => true
  | .lowered _ => false

/-- A pen, and what it has drawn so far. -/
structure PlotPen (α : Type) where
  place : PenPlace α
  strokes : List (Stroke α)

namespace PlotPen

/-- A pen that is up and has not been told where to go. -/
def fresh : PlotPen α := ⟨.unplaced, []⟩

/-- The pen carries out an operation. A move while it is down draws a stroke. -/
def obey (pen : PlotPen α) : PlotOp α → Option (PlotPen α)
  | .moveTo q => match pen.place with
    | .unplaced | .raised _ => some ⟨.raised q, pen.strokes⟩
    | .lowered p => some ⟨.lowered q, pen.strokes ++ [⟨p, q⟩]⟩
  | .penDown => match pen.place with
    | .raised p => some ⟨.lowered p, pen.strokes⟩
    | .unplaced | .lowered _ => none
  | .penUp => match pen.place with
    | .lowered p => some ⟨.raised p, pen.strokes⟩
    | .unplaced | .raised _ => none

/-- The pen carries out some operations in order, if it can carry out each of them. -/
def follow (pen : PlotPen α) (ops : List (PlotOp α)) : Option (PlotPen α) :=
  ops.foldlM obey pen

theorem follow_append (pen : PlotPen α) (ops more : List (PlotOp α)) :
    pen.follow (ops ++ more) = (pen.follow ops).bind fun pen => pen.follow more :=
  List.foldlM_append

end PlotPen

/-! ## What a plan should come to -/

/-- The operation lowers the pen. -/
def PlotOp.isPenDown : PlotOp α → Bool
  | .penDown => true
  | _ => false

/-- A piece that is not finished: the pen goes to a place, comes down and goes on. -/
def openPiece (p : Point α) (moves : List (Point α)) : List (PlotOp α) :=
  .moveTo p :: .penDown :: moves.map .moveTo

/-- A piece: the pen goes to a place, comes down, goes on at least once and is lifted. -/
def IsPiece (ops : List (PlotOp α)) : Prop :=
  ∃ p moves, moves ≠ [] ∧ ops = openPiece p moves ++ [.penUp]

namespace Plotter

/-- The segments that come after `before`, each with the one before it. -/
def pairs (before : Option (Segment α)) (segments : List (Segment α)) :
    List (Option (Segment α) × Segment α) :=
  (before :: segments.map some).zip segments

section Pairs

variable {before : Option (Segment α)} {s : Segment α} {segments : List (Segment α)}

@[simp] theorem pairs_nil : pairs before ([] : List (Segment α)) = [] := rfl

@[simp] theorem pairs_cons : pairs before (s :: segments) = (before, s) :: pairs (some s) segments :=
  rfl

theorem map_snd_pairs (before : Option (Segment α)) (segments : List (Segment α)) :
    (pairs before segments).map Prod.snd = segments :=
  List.map_snd_zip (by simp)

@[simp] theorem length_pairs : (pairs before segments).length = segments.length := by
  rw [← List.length_map (f := Prod.snd), map_snd_pairs]

theorem getElem?_pairs {i : ℕ} (h : segments[i]? = some s) :
    (pairs none segments)[i]? = some (if i = 0 then none else segments[i - 1]?, s) := by
  have hlt : i < segments.length := (List.getElem?_eq_some_iff.mp h).1
  rw [pairs, List.getElem?_zip_eq_some, h]
  cases i with
  | zero => simp
  | succ i => simp [show i < segments.length by omega]

end Pairs

variable [Scalar α] (p : Plotter α) (home : Point α)

/-- Where a segment starts on the plotter, inside its area or not. -/
def startOf (s : Segment α) : Point α := p.map home s.x₁ s.y₁

/-- Where a segment ends on the plotter, inside its area or not. -/
def stopOf (s : Segment α) : Point α := p.map home s.x₂ s.y₂

/-- The second segment starts where the first one ended. -/
def joined (r s : Segment α) : Bool :=
  joins (p.stopOf home r) (p.startOf home s)

/-- The stroke for a segment. It goes on from the segment before if the two are joined, and starts
afresh otherwise. -/
def strokeAfter (before : Option (Segment α)) (s : Segment α) : Stroke α where
  start := p.area.clamp <| match before with
    | none => p.startOf home s
    | some r => if p.joined home r s then p.stopOf home r else p.startOf home s
  stop := p.area.clamp (p.stopOf home s)

/-- The segment starts a piece: it is the first one, or not joined to the one before. -/
def parts (before : Option (Segment α)) (s : Segment α) : Bool :=
  match before with
  | none => true
  | some r => !p.joined home r s

/-- The strokes for some segments that come after `before`. -/
def strokesFrom (before : Option (Segment α)) (segments : List (Segment α)) : List (Stroke α) :=
  (pairs before segments).map fun bs => p.strokeAfter home bs.1 bs.2

/-- How many of the segments that come after `before` start a piece. -/
def countParts (before : Option (Segment α)) (segments : List (Segment α)) : ℕ :=
  (pairs before segments).countP fun bs => p.parts home bs.1 bs.2

/-- The operations are a rendering of the segments. -/
structure Renders (segments : List (Segment α)) (ops : Array (PlotOp α)) : Prop where
  empty_iff : ops = #[] ↔ segments = []
  /-- The operations are pieces, one after the other. -/
  pieces : ∃ pieces : List (List (PlotOp α)),
    (∀ x ∈ pieces, IsPiece x) ∧ ops.toList = pieces.flatten
  /-- A pen that starts up carries them all out and ends up. It has drawn one stroke for each segment,
  in the order of the segments. -/
  strokes : ∃ pen, PlotPen.fresh.follow ops.toList = some pen ∧ pen.place.isUp = true ∧
    pen.strokes.length = segments.length ∧
    ∀ i s, segments[i]? = some s → pen.strokes[i]? =
      some (p.strokeAfter home (if i = 0 then none else segments[i - 1]?) s)
  /-- The pen comes down once, and once more for each segment that does not join on. -/
  lowered : segments ≠ [] → ops.toList.countP PlotOp.isPenDown =
    1 + (segments.zip segments.tail).countP fun rs => !p.joined home rs.1 rs.2

/-! ## One more segment -/

/-- The operations that a segment adds. -/
def added (before : Option (Segment α)) (s : Segment α) : List (PlotOp α) :=
  let start := p.move (p.startOf home s)
  let stop := p.move (p.stopOf home s)
  match before with
  | none => [start, .penDown, stop]
  | some r => if p.joined home r s then [stop] else [.penUp, start, .penDown, stop]

/-- Where the pen is after a segment, if there was one. -/
def placeAfter (before : Option (Segment α)) : PenPlace α :=
  match before with
  | none => .unplaced
  | some r => .lowered (p.area.clamp (p.stopOf home r))

/-- The plan in the making ends with the segment `before`, if with any. It draws the strokes, and the
pen comes down so many times in it. -/
structure Draft.Draws (d : Draft α) (before : Option (Segment α)) (strokes : List (Stroke α))
    (lowered : ℕ) : Prop where
  last : d.last = before.map (p.stopOf home)
  follow : PlotPen.fresh.follow d.ops.toList = some ⟨p.placeAfter home before, strokes⟩
  lowered : d.ops.toList.countP PlotOp.isPenDown = lowered
  /-- All pieces but the last are finished. -/
  pieces : match before with
    | none => d.ops = #[]
    | some _ => ∃ (pieces : List (List (PlotOp α))) (q : Point α) (moves : List (Point α)),
      (∀ x ∈ pieces, IsPiece x) ∧ moves ≠ [] ∧ d.ops.toList = pieces.flatten ++ openPiece q moves

variable {p home} {d : Draft α} {before : Option (Segment α)}

theorem toList_draw (h : d.last = before.map (p.stopOf home)) (s : Segment α) :
    (p.draw home d s).ops.toList = d.ops.toList ++ p.added home before s := by
  unfold draw
  rw [h]
  cases before with
  | none => simp [added, startOf, stopOf]
  | some r =>
    have hjoins : joins (p.stopOf home r) (p.map home s.x₁ s.y₁) = p.joined home r s := rfl
    dsimp only [Option.map_some]
    rw [hjoins]
    cases hjoined : p.joined home r s <;> simp [added, hjoined, startOf, stopOf]

/-- From where the last segment left it, the pen draws the stroke of the next one. -/
theorem follow_added (strokes : List (Stroke α)) (s : Segment α) :
    (PlotPen.mk (p.placeAfter home before) strokes).follow (p.added home before s) =
      some ⟨p.placeAfter home (some s), strokes ++ [p.strokeAfter home before s]⟩ := by
  cases before with
  | none => rfl
  | some r =>
    unfold added strokeAfter
    dsimp only
    cases p.joined home r s <;> rfl

theorem countP_added (s : Segment α) :
    (p.added home before s).countP PlotOp.isPenDown = if p.parts home before s then 1 else 0 := by
  cases before with
  | none => rfl
  | some r =>
    cases hjoined : p.joined home r s <;> simp only [added, parts, hjoined] <;> rfl

namespace Draft.Draws

variable {strokes : List (Stroke α)} {lowered : ℕ}

theorem start : (⟨#[], none⟩ : Draft α).Draws p home none [] 0 where
  last := rfl
  follow := rfl
  lowered := rfl
  pieces := rfl

/-- A segment adds a move to the last piece, or finishes it and begins the next. -/
theorem draw_pieces (h : d.Draws p home before strokes lowered) (s : Segment α) :
    ∃ (pieces : List (List (PlotOp α))) (q : Point α) (moves : List (Point α)),
      (∀ x ∈ pieces, IsPiece x) ∧ moves ≠ [] ∧
        (p.draw home d s).ops.toList = pieces.flatten ++ openPiece q moves := by
  rw [toList_draw h.last]
  have hpieces := h.pieces
  cases before with
  | none =>
    refine ⟨[], p.area.clamp (p.startOf home s), [p.area.clamp (p.stopOf home s)], by simp,
      by simp, ?_⟩
    rw [show d.ops = #[] from hpieces]
    rfl
  | some r =>
    rcases hpieces with ⟨pieces, q, moves, hall, hne, hops⟩
    rw [hops]
    unfold added
    dsimp only
    cases p.joined home r s with
    | true =>
      refine ⟨pieces, q, moves ++ [p.area.clamp (p.stopOf home s)], hall, by simp, ?_⟩
      simp [openPiece, move]
    | false =>
      refine ⟨pieces ++ [openPiece q moves ++ [.penUp]], p.area.clamp (p.startOf home s),
        [p.area.clamp (p.stopOf home s)], ?_, by simp, ?_⟩
      · intro x hx
        rcases List.mem_append.mp hx with hx | hx
        · exact hall x hx
        · exact ⟨q, moves, hne, List.mem_singleton.mp hx⟩
      · simp [openPiece, move]

/-- One more segment is one more stroke. -/
theorem draw (h : d.Draws p home before strokes lowered) (s : Segment α) :
    (p.draw home d s).Draws p home (some s) (strokes ++ [p.strokeAfter home before s])
      (lowered + if p.parts home before s then 1 else 0) where
  last := rfl
  follow := by
    rw [toList_draw h.last, PlotPen.follow_append, h.follow, Option.bind_some, follow_added]
  lowered := by rw [toList_draw h.last, List.countP_append, h.lowered, countP_added]
  pieces := h.draw_pieces s

/-- Some more segments, each with the one before it, are as many more strokes. -/
theorem draw_all (h : d.Draws p home before strokes lowered) (segments : List (Segment α)) :
    (segments.foldl (p.draw home) d).Draws p home (segments.getLast?.or before)
      (strokes ++ p.strokesFrom home before segments)
      (lowered + p.countParts home before segments) := by
  induction segments generalizing d before strokes lowered with
  | nil => simpa [strokesFrom, countParts] using h
  | cons s rest ih =>
    have hrest := ih (h.draw s)
    have hlast : (s :: rest).getLast?.or before = rest.getLast?.or (some s) := by
      cases hrest : rest.getLast? with
      | none => simp [List.getLast?_eq_none_iff.mp hrest]
      | some r => simp [List.getLast?_cons, hrest]
    rw [hlast, List.foldl_cons]
    simpa [strokesFrom, countParts, List.countP_cons, Nat.add_assoc, Nat.add_comm] using hrest

end Draft.Draws

/-! ## The finished plan -/

variable {segments : List (Segment α)}

/-- The plan in the making, when all segments are drawn. -/
theorem draws_all (p : Plotter α) (home : Point α) (segments : List (Segment α)) :
    (segments.foldl (p.draw home) ⟨#[], none⟩).Draws p home segments.getLast?
      (p.strokesFrom home none segments) (p.countParts home none segments) := by
  have hstart : (⟨#[], none⟩ : Draft α).Draws p home none [] 0 := .start
  simpa using hstart.draw_all segments

/-- The pen is lifted at the end, unless it was never lowered. -/
theorem ops_eq (p : Plotter α) (home : Point α) (segments : List (Segment α)) :
    (p.ops home segments).toList =
      (segments.foldl (p.draw home) ⟨#[], none⟩).ops.toList ++
        if segments = [] then [] else [.penUp] := by
  unfold ops
  dsimp only
  rw [(draws_all p home segments).last]
  cases segments with
  | nil => rfl
  | cons s rest => simp

/-- Each segment in its turn, with the one before it. -/
theorem getElem?_strokes (p : Plotter α) (home : Point α) {i : ℕ} {s : Segment α}
    (h : segments[i]? = some s) :
    (p.strokesFrom home none segments)[i]? =
      some (p.strokeAfter home (if i = 0 then none else segments[i - 1]?) s) := by
  rw [strokesFrom, List.getElem?_map, getElem?_pairs h, Option.map_some]

/-- The first segment starts a piece, and any other one does unless it joins on. -/
theorem countParts_eq (p : Plotter α) (home : Point α) (hne : segments ≠ []) :
    p.countParts home none segments =
      1 + (segments.zip segments.tail).countP fun rs => !p.joined home rs.1 rs.2 := by
  rcases List.exists_cons_of_ne_nil hne with ⟨s, rest, rfl⟩
  rw [countParts, pairs_cons, List.countP_cons, Nat.add_comm, pairs, ← List.map_cons,
    List.zip_map_left, List.countP_map]
  rfl

theorem renders_ops (p : Plotter α) (home : Point α) (segments : List (Segment α)) :
    p.Renders home segments (p.ops home segments) := by
  have hdraws := draws_all p home segments
  have hops := ops_eq p home segments
  rcases List.eq_nil_or_concat' segments with rfl | ⟨front, s, rfl⟩
  · exact ⟨by simp [ops], ⟨[], by simp, rfl⟩, ⟨_, rfl, rfl, rfl, by simp⟩, by simp⟩
  · have hne : front ++ [s] ≠ [] := by simp
    rw [List.getLast?_concat] at hdraws
    rw [if_neg hne] at hops
    refine ⟨?_, ?_, ?_, ?_⟩
    · constructor
      · intro hempty
        rw [hempty] at hops
        simp at hops
      · intro hempty
        exact absurd hempty hne
    · rcases hdraws.pieces with ⟨pieces, q, moves, hall, hmoves, hlast⟩
      refine ⟨pieces ++ [openPiece q moves ++ [.penUp]], ?_, ?_⟩
      · intro x hx
        rcases List.mem_append.mp hx with hx | hx
        · exact hall x hx
        · exact ⟨q, moves, hmoves, List.mem_singleton.mp hx⟩
      · rw [hops, hlast]
        simp
    · refine ⟨⟨.raised (p.area.clamp (p.stopOf home s)), p.strokesFrom home none (front ++ [s])⟩,
        ?_, rfl, by simp [strokesFrom], fun i s' hs' => getElem?_strokes p home hs'⟩
      rw [hops, PlotPen.follow_append, hdraws.follow]
      rfl
    · intro _
      rw [hops, List.countP_append, hdraws.lowered, countParts_eq p home hne]
      rfl

end Plotter

/-! ## Plans of doubles -/

/-- An area admits a plan unless neither bound along some axis is a number. -/
theorem isDefined_iff (a : Area Float) :
    a.isDefined = true ↔
      ¬ (a.x₀.isNaN = true ∧ a.x₁.isNaN = true) ∧ ¬ (a.y₀.isNaN = true ∧ a.y₁.isNaN = true) := by
  rw [← Binary64.le_smaller_larger_iff, ← Binary64.le_smaller_larger_iff]
  exact Bool.and_eq_true_iff

/-- A plotter whose area has a bound along each axis has a plan for all segments, and the plan renders
them: it is made of pieces, a pen that starts up can carry it out and ends up, and it draws just one
stroke for each segment, in order, within the area. Strokes go on from one another where the segments
do before anything is moved into the area. -/
theorem plan_renders (p : Plotter Float) (home : Point Float) (segments : List (Segment Float))
    (hx : ¬ (p.area.x₀.isNaN = true ∧ p.area.x₁.isNaN = true))
    (hy : ¬ (p.area.y₀.isNaN = true ∧ p.area.y₁.isNaN = true)) :
    ∃ ops, p.plan home segments = .ok ops ∧ p.Renders home segments ops := by
  refine ⟨p.ops home segments, ?_, p.renders_ops home segments⟩
  unfold Plotter.plan
  rw [(isDefined_iff p.area).mpr ⟨hx, hy⟩, Bool.or_true, if_pos rfl]

/-- Two segments that join and one elsewhere are three strokes, for which the pen comes down twice. -/
theorem plan_renders_apart :
    ¬ (Plotter.standard.area.x₀.isNaN = true ∧ Plotter.standard.area.x₁.isNaN = true) ∧
      ¬ (Plotter.standard.area.y₀.isNaN = true ∧ Plotter.standard.area.y₁.isNaN = true) ∧
      ∃ ops pen, Plotter.standard.plan ⟨600, 450⟩ [⟨600, 450, 650, 450, .black, 1⟩,
          ⟨650, 450, 650, 400, .black, 1⟩, ⟨0, 0, 10, 0, .black, 1⟩] = .ok ops ∧
        PlotPen.fresh.follow ops.toList = some pen ∧ pen.place.isUp = true ∧
        pen.strokes.length = 3 ∧ ops.toList.countP PlotOp.isPenDown = 2 := by
  have hx : ¬ (Plotter.standard.area.x₀.isNaN = true ∧ Plotter.standard.area.x₁.isNaN = true) := by
    decide +kernel
  have hy : ¬ (Plotter.standard.area.y₀.isNaN = true ∧ Plotter.standard.area.y₁.isNaN = true) := by
    decide +kernel
  rcases plan_renders Plotter.standard ⟨600, 450⟩ [⟨600, 450, 650, 450, .black, 1⟩,
    ⟨650, 450, 650, 400, .black, 1⟩, ⟨0, 0, 10, 0, .black, 1⟩] hx hy with ⟨ops, hplan, hrenders⟩
  rcases hrenders.strokes with ⟨pen, hfollow, hup, hlength, -⟩
  refine ⟨hx, hy, ops, pen, hplan, hfollow, hup, hlength, ?_⟩
  rw [hrenders.lowered (by simp)]
  decide +kernel

end TurtleGraphics
