import SurfaceGeometry.Integrator.Verlet
import SurfaceGeometry.Settings
import SurfaceGeometry.Surface.Patch
import SurfaceGeometry.Transport

/-!
# Geodesics

Geodesics as polylines in space, and the bundles of tangent vectors that they start from: sprays
around a point, and stripes along a curve.
-/

namespace SurfaceGeometry

namespace Geodesic

variable {α : Type} [Scalar α]

/-- Makes up to `count` steps and puts the point of each on the list of points, the last one
first. The first point outside the patch ends the polyline and belongs to it. -/
def trace (p : Patch α) (h : α) :
    (count : Nat) → TangentVector α → List (Vec3 α) → List (Vec3 α)
  | 0, _, points => points
  | count + 1, s, points =>
    let next := Verlet.step h p.acceleration s
    let points := p.place next.pos :: points
    if p.outside next.pos then points else trace p h count next points

/-- The polyline of the geodesic with a tangent vector, from its point on. -/
def polyline (p : Patch α) (settings : GeodesicSettings α) (s : TangentVector α) :
    List (Vec3 α) :=
  (trace p settings.step settings.maxSteps s [p.place s.pos]).reverse

/-- Where number `i` of `count` lies around the middle, in units of the whole spread. -/
def offset (count i : Nat) : α :=
  (i : α) / (count : α) - 0.5

/-- Unit tangent vectors at a point, with directions spread around an angle. -/
def spray (center : Vec2 α) (angle spread : α) (count : Nat) : List (TangentVector α) :=
  (List.range count).map fun i =>
    let a := angle + spread * offset count i
    ⟨center, ⟨Scalar.cos a, Scalar.sin a⟩⟩

/-- Tangent vectors along a curve, at parameters spread around a position: the direction with the
given angle, carried from the start of the curve. -/
def stripes (anchor : AnchoredFrame α) (position angle spread : α) (count : Nat) :
    List (TangentVector α) :=
  let direction : Vec2 α := ⟨Scalar.sin angle, Scalar.cos angle⟩
  (List.range count).map fun i => anchor.state (position + spread * offset count i) direction

end Geodesic

end SurfaceGeometry
