import SurfaceGeometry.Curve

/-!
# Coordinate patches

What geodesics, frames and grids need to know of a surface that is given by two coordinates.
Grids of points and numerical normals, which do not depend on the kind of surface, are here too.
-/

namespace SurfaceGeometry

/-- A surface seen through its two coordinates. -/
structure Patch (α : Type) where
  /-- The point of space with the given coordinates. -/
  embed : α → α → Vec3 α
  /-- Whether a position has left the patch. -/
  outside : Vec2 α → Bool
  /-- The acceleration of a geodesic in coordinates. -/
  acceleration : TangentVector α → Vec2 α
  /-- The rate of a vector that is carried along a curve without turning. -/
  transportRate : TangentVector α → Vec2 α → Vec2 α
  /-- The unit normal at the given coordinates. -/
  normal : α → α → Vec3 α

namespace Patch

variable {α : Type} [Scalar α]

/-- The point of space of a position. -/
def place (p : Patch α) (pos : Vec2 α) : Vec3 α := p.embed pos.x pos.y

/-- The width of the differences of numerical normals. -/
def normalStep : α := 1e-5

/-- The normal from differences along the coordinates. -/
def numericalNormal (embed : α → α → Vec3 α) (u v : α) : Vec3 α :=
  let du := embed (u + normalStep) v - embed (u - normalStep) v
  let dv := embed u (v + normalStep) - embed u (v - normalStep)
  (du.cross dv).normalize

/-- The coordinate number `i` of `n` that divide a range evenly, its ends included. -/
def gridCoordinate (range : Interval α) (n i : Nat) : α :=
  range.lo + range.width * (i : α) / ((n - 1 : Nat) : α)

/-- The angle number `j` of `n` that divide a whole turn evenly, its ends included. -/
def gridAngle (n j : Nat) : α :=
  Scalar.tau * (j : α) / ((n - 1 : Nat) : α)

/-- The points of a grid, row by row: in each row the first coordinate runs. -/
def grid (embed : α → α → Vec3 α) (first second : Nat → α) (n m : Nat) : List (Vec3 α) :=
  (List.range m).flatMap fun j => (List.range n).map fun i => embed (first i) (second j)

/-- The grid of a rectangle, with at least two points to each side. -/
def rectangleGrid (embed : α → α → Vec3 α) (d : Domain α) (n m : Nat) : List (Vec3 α) :=
  let n := max n 2
  let m := max m 2
  grid embed (gridCoordinate d.x n) (gridCoordinate d.y m) n m

/-- The grid of a surface of revolution, with at least two points to each side: rings of points
along the profile. -/
def revolutionGrid (embed : α → α → Vec3 α) (range : Interval α) (n m : Nat) : List (Vec3 α) :=
  let n := max n 2
  let m := max m 2
  grid embed (gridCoordinate range n) (gridAngle m) n m

end Patch

end SurfaceGeometry
