import SurfaceGeometry.Plane

/-!
# Domains

Intervals of one coordinate, and the rectangles of the coordinate plane over which surfaces are
given. Both are accepted only with finite ends of which the upper is greater.
-/

namespace SurfaceGeometry

/-- What is wrong with the domain of a surface. -/
inductive DomainFault (α : Type) where
  /-- A range that is not finite, or whose ends are not in increasing order. -/
  | range (label : String) (lo hi : α)
  /-- A radius of a black hole that is not positive and finite. -/
  | radius (value : α)
deriving DecidableEq, Repr

/-- The message of a fault, with the numbers that are refused. -/
def DomainFault.message {α : Type} [NumberText α] : DomainFault α → String
  | range label lo hi =>
    label ++ " range [" ++ NumberText.positional lo ++ ", " ++ NumberText.positional hi ++
      "] must be finite with max > min"
  | radius value =>
    "Schwarzschild radius must be positive and finite, got " ++ NumberText.positional value

/-- A range of one coordinate. -/
structure Interval (α : Type) where
  lo : α
  hi : α
deriving DecidableEq, Repr

namespace Interval

variable {α : Type} [Scalar α]

/-- Whether the ends are finite and in increasing order. -/
def valid (i : Interval α) : Bool :=
  Scalar.isFinite i.lo && Scalar.isFinite i.hi && !decide (i.hi ≤ i.lo)

/-- Accepts a range, or reports it under a label. -/
def check (label : String) (i : Interval α) : Except (DomainFault α) Unit :=
  if i.valid then .ok () else .error (.range label i.lo i.hi)

/-- The ends belong to the range. -/
def contains (i : Interval α) (a : α) : Bool :=
  decide (a ≥ i.lo) && decide (a ≤ i.hi)

/-- The distance of the ends. -/
def width (i : Interval α) : α := i.hi - i.lo

end Interval

/-- A straight line between two points of the coordinate plane. -/
structure Segment (α : Type) where
  start : Vec2 α
  finish : Vec2 α
deriving DecidableEq, Repr

/-- A rectangle of the coordinate plane. -/
structure Domain (α : Type) where
  x : Interval α
  y : Interval α
deriving DecidableEq, Repr

namespace Domain

variable {α : Type} [Scalar α]

/-- The rectangle of two ranges, if both are accepted. -/
def ofRanges (x y : Interval α) : Except (DomainFault α) (Domain α) := do
  x.check "x"
  y.check "y"
  return ⟨x, y⟩

/-- Whether a point is in both ranges. -/
def contains (d : Domain α) (p : Vec2 α) : Bool :=
  d.x.contains p.x && d.y.contains p.y

/-- A point without a place in the plane is outside. -/
def outside (d : Domain α) (p : Vec2 α) : Bool :=
  !d.contains p

/-- The edge of least `y`, from the least to the greatest `x`. -/
def bottomEdge (d : Domain α) : Segment α :=
  ⟨⟨d.x.lo, d.y.lo⟩, ⟨d.x.hi, d.y.lo⟩⟩

end Domain

end SurfaceGeometry
