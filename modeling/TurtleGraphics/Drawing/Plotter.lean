import TurtleGraphics.Turtle.Basic

namespace TurtleGraphics

open Scalar

/-!
# Drawings for a pen plotter

A plotter has a rectangular area, with `y` growing upwards, and a pen that is up or down. A drawing
becomes a list of moves and lifts.

* `Plotter.fit`: the plotter whose scale lets a whole surface fit its area.
* `Plotter.map`: where a place on the surface lies on the plotter; home lies in the middle.
* `Plotter.ops`: the plan for a list of segments. The pen is not lifted between two segments if one
  starts where the other ended; every move is kept inside the area; the pen is up at the end.
* `Plotter.plan`: the same, with an error for an area that has no extent to keep moves inside of.
-/

variable {α : Type}

/-- A rectangle given by two opposite corners, in either order. -/
structure Area (α : Type) where
  x₀ : α
  y₀ : α
  x₁ : α
  y₁ : α
deriving DecidableEq, Repr

/-- What a plotter is told to do. -/
inductive PlotOp (α : Type) where
  | penUp
  | penDown
  | moveTo (p : Point α)
deriving DecidableEq, Repr

/-- An area, and how many of its units a unit of the surface takes. -/
structure Plotter (α : Type) where
  area : Area α
  scale : α
deriving DecidableEq, Repr

/-- Why there is no plan. -/
inductive PlotError where
  /-- Along some axis neither bound of the area is a number. -/
  | undefinedArea
deriving DecidableEq, Repr

namespace Area

variable [Scalar α]

def left (a : Area α) : α := smaller a.x₀ a.x₁

def right (a : Area α) : α := larger a.x₀ a.x₁

def bottom (a : Area α) : α := smaller a.y₀ a.y₁

def top (a : Area α) : α := larger a.y₀ a.y₁

/-- The way from the first corner to the second along `x`. -/
def width (a : Area α) : α := a.x₁ - a.x₀

/-- The way from the first corner to the second along `y`. -/
def height (a : Area α) : α := a.y₁ - a.y₀

/-- The middle. -/
def center (a : Area α) : Point α :=
  let half : α := nat 1 / nat 2
  ⟨half * (a.x₀ + a.x₁), half * (a.y₀ + a.y₁)⟩

/-- Along each axis at least one of the bounds is a number. -/
def isDefined (a : Area α) : Bool :=
  le a.left a.right && le a.bottom a.top

/-- The place of the area that is nearest along each axis. -/
def clamp (a : Area α) (p : Point α) : Point α :=
  ⟨Scalar.clamp a.left a.right p.x, Scalar.clamp a.bottom a.top p.y⟩

end Area

namespace Plotter

variable [Scalar α]

/-- The plotter that fits a surface of the given size into its area. -/
def fit (area : Area α) (width height : α) : Plotter α :=
  ⟨area, smaller (area.width / width) (area.height / height)⟩

/-- Where a place on the surface lies. The surface's `y` grows downwards, so it is turned over. -/
def map (p : Plotter α) (home : Point α) (x y : α) : Point α :=
  let c := p.area.center
  ⟨c.x + (x - home.x) * p.scale, c.y + (home.y - y) * p.scale⟩

/-- Two ends that are closer than this count as one place: a millionth of a unit. -/
def tolerance : α := nat 1 / nat 1000000

/-- The two places are close enough to go on drawing from one to the other. -/
def joins (p q : Point α) : Bool :=
  shorter (p.x - q.x) (p.y - q.y) tolerance

/-- The move to a place, kept inside the area. -/
def move (p : Plotter α) (q : Point α) : PlotOp α :=
  .moveTo (p.area.clamp q)

/-- A plan in the making: what is to be done so far, and where the last segment ended. -/
structure Draft (α : Type) where
  ops : Array (PlotOp α)
  last : Option (Point α)

/-- The plan with one more segment. -/
def draw (p : Plotter α) (home : Point α) (d : Draft α) (s : Segment α) : Draft α :=
  let start := p.map home s.x₁ s.y₁
  let stop := p.map home s.x₂ s.y₂
  let ops := match d.last with
    | some q =>
      if joins q start then d.ops
      else ((d.ops.push .penUp).push (p.move start)).push .penDown
    | none => (d.ops.push (p.move start)).push .penDown
  ⟨ops.push (p.move stop), some stop⟩

/-- The plan for some segments. -/
def ops (p : Plotter α) (home : Point α) (segments : List (Segment α)) : Array (PlotOp α) :=
  let d := segments.foldl (p.draw home) ⟨#[], none⟩
  if d.last.isSome then d.ops.push .penUp else d.ops

/-- The plan for some segments, if the area admits one. -/
def plan (p : Plotter α) (home : Point α) (segments : List (Segment α)) :
    Except PlotError (Array (PlotOp α)) :=
  if segments.isEmpty || p.area.isDefined then .ok (p.ops home segments)
  else .error .undefinedArea

end Plotter

/-- A move kept inside an area, if the area admits one; lifting and lowering the pen are left. -/
def PlotOp.clamp [Scalar α] (area : Area α) : PlotOp α → Except PlotError (PlotOp α)
  | .moveTo p => if area.isDefined then .ok (.moveTo (area.clamp p)) else .error .undefinedArea
  | op => .ok op

/-! ## The plotter's language -/

/-- The area and scale of the plotter at hand. -/
def Plotter.standard : Plotter Float where
  area := ⟨-80, 50, 80, 130⟩
  scale := 0.1

/-- A coordinate in whole units: the nearest one, a half going away from zero, within the range of
32-bit words. What is not a number becomes zero. -/
def wholeUnits (x : Float) : Int :=
  (Binary64.exact (Binary64.roundHalfAway x)).toInt32.toInt

/-- An operation as the plotter reads it. -/
def PlotOp.text : PlotOp Float → String
  | .penUp => "penup"
  | .penDown => "pendown"
  | .moveTo p => "moveto " ++ toString (wholeUnits p.x) ++ " " ++ toString (wholeUnits p.y)

/-- A plan as the plotter reads it, with an operation on each line. -/
def plotText (ops : List (PlotOp Float)) : String :=
  String.join (ops.map fun op => op.text ++ "\n")

/-- A whole number in the pieces in which it is written: the sign, if there is one, and the digits. -/
def numeralPieces : Int → List String
  | .ofNat n => [Nat.repr n]
  | .negSucc n => ["-", Nat.repr (n + 1)]

/-- The line of an operation in the pieces in which it is written. -/
def PlotOp.pieces : PlotOp Float → List String
  | .penUp => ["penup", "\n"]
  | .penDown => ["pendown", "\n"]
  | .moveTo p =>
    "moveto " :: numeralPieces (wholeUnits p.x) ++ " " :: numeralPieces (wholeUnits p.y) ++ ["\n"]

end TurtleGraphics
