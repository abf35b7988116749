import SurfaceGeometry.Domain

/-!
# Plane curves

Curves in the coordinate plane with a parameter from zero to one: straight segments, whose
velocity is constant, and curves given by a function, whose velocity is a central difference.
-/

namespace SurfaceGeometry

/-- A curve in the coordinate plane. -/
structure Curve (α : Type) where
  point : α → Vec2 α
  velocity : α → Vec2 α

namespace Curve

variable {α : Type} [Scalar α]

/-- The straight line between two points. -/
def ofSegment (s : Segment α) : Curve α where
  point t := s.start + (s.finish - s.start) * t
  velocity _ := s.finish - s.start

/-- The width of the central difference. -/
def differenceStep : α := 1e-5

/-- The curve of a function. -/
def ofFunction (point : α → Vec2 α) : Curve α where
  point := point
  velocity t := (point (t + differenceStep) - point (t - differenceStep)) / (2 * differenceStep : α)

/-- Point and velocity of a curve. -/
def tangent (c : Curve α) (t : α) : TangentVector α :=
  ⟨c.point t, c.velocity t⟩

end Curve

end SurfaceGeometry
