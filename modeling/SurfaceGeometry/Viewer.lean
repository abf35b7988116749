import SurfaceGeometry.Surface.BlackHole
import SurfaceGeometry.Surface.Graph
import SurfaceGeometry.Surface.Revolution

/-!
# Viewers

Surfaces for a program that draws them and exchanges flat lists of numbers: ranges, parameters
and tangent vectors come in as lists, whose lengths are checked first, and points go out as the
list of their components.
-/

namespace SurfaceGeometry

/-- A failure that a viewer is told of. -/
inductive ViewerError (α : Type) where
  | parameterCounts (names values : Nat)
  | rangeSize (label : String) (count : Nat)
  | tangentSize (count : Nat)
  | directionSize
  | geometry (error : GeometryError α)
deriving DecidableEq, Repr

namespace ViewerError

/-- The message of an error. -/
def message {α : Type} [NumberText α] : ViewerError α → String
  | parameterCounts names values =>
    "Parameter names and values must have the same length (" ++ toString names ++ " vs " ++
      toString values ++ ")."
  | rangeSize label count =>
    label ++ " range must have exactly two entries, got " ++ toString count ++ "."
  | tangentSize count =>
    "Tangent vector must be [x, y, vx, vy], got " ++ toString count ++ " entries."
  | directionSize => "Direction must have two components."
  | geometry error => error.message

end ViewerError

namespace Viewer

variable {α : Type}

/-! ## Reading lists -/

/-- A range of two numbers. -/
def range (label : String) : List α → Except (ViewerError α) (Interval α)
  | [lo, hi] => .ok ⟨lo, hi⟩
  | values => .error (.rangeSize label values.length)

/-- A tangent vector of four numbers. -/
def tangent : List α → Except (ViewerError α) (TangentVector α)
  | [x, y, vx, vy] => .ok (.ofComponents x y vx vy)
  | values => .error (.tangentSize values.length)

/-- A direction of two numbers. -/
def direction : List α → Except (ViewerError α) (Vec2 α)
  | [x, y] => .ok ⟨x, y⟩
  | _ => .error .directionSize

/-- Parameters of as many names as values. -/
def parameters (names : List String) (values : List α) :
    Except (ViewerError α) (Parameters α) :=
  if names.length = values.length then .ok (.ofList (names.zip values))
  else .error (.parameterCounts names.length values.length)

variable [Scalar α]

/-- A rectangle of two ranges. -/
def domain (xs ys : List α) : Except (ViewerError α) (Domain α) := do
  let x ← range "x" xs
  let y ← range "y" ys
  (Domain.ofRanges x y).mapError fun fault => .geometry (.domain fault)

/-! ## Building -/

section

variable [NumberText α]

/-- Builds a graph surface. -/
def buildGraph (source : String) (xs ys : List α) (names : List String) (values : List α)
    (settings : SurfaceSettings α) :
    Report (FallbackWarning α) (ViewerError α) (GraphSurface α) := do
  let domain ← Report.ofExcept (domain xs ys)
  let params ← Report.ofExcept (parameters names values)
  (GraphSurface.build source domain params settings).mapError .geometry

/-- Builds a surface of revolution. -/
def buildRevolution (radius height : String) (us : List α) (names : List String)
    (values : List α) (settings : SurfaceSettings α) :
    Report (FallbackWarning α) (ViewerError α) (RevolutionSurface α) := do
  let domain ← Report.ofExcept (range "u" us)
  let params ← Report.ofExcept (parameters names values)
  (RevolutionSurface.build radius height domain params settings).mapError .geometry

end

/-! ## Geodesics and frames -/

/-- The flat polyline of the geodesic with a tangent vector given as a list. -/
def geodesic (polyline : TangentVector α → List (Vec3 α)) (state : List α) :
    Except (ViewerError α) (List α) := do
  return Vec3.flatten (polyline (← tangent state))

/-- The flat polylines of a spray of geodesics. -/
def spray (polyline : TangentVector α → List (Vec3 α)) (center : Vec2 α) (angle spread : α)
    (count : Nat) : List (List α) :=
  (Geodesic.spray center angle spread count).map fun state => Vec3.flatten (polyline state)

/-- The curve parameter number `i` of `n` that divide a curve evenly, its ends included. -/
def sampleParameter (n i : Nat) : α :=
  (i : α) / ((n - 1 : Nat) : α)

/-- A carried basis at evenly spaced parameters, four numbers each, at least at both ends. -/
def frameSamples (frame : TransportedFrame α) (n : Nat) : List α :=
  let n := max n 2
  (List.range n).flatMap fun i =>
    let (ex, ey) := frame.basis (sampleParameter n i)
    [ex.x, ex.y, ey.x, ey.y]

/-- A carried basis at evenly spaced parameters, with the parameter before the four numbers. -/
def timedFrameSamples (frame : TransportedFrame α) (n : Nat) : List α :=
  let n := max n 2
  (List.range n).flatMap fun i =>
    let t := sampleParameter n i
    let (ex, ey) := frame.basis t
    [t, ex.x, ex.y, ey.x, ey.y]

section

variable [NumberText α]

/-- The flat polylines of geodesics that start along the bottom edge. -/
def stripes (s : GraphSurface α) (position angle spread : α) (count : Nat) :
    Except (ViewerError α) (List (List α)) := do
  let anchor ← s.boundary.mapError .geometry
  return (Geodesic.stripes anchor position angle spread count).map fun state =>
    Vec3.flatten (s.geodesic state)

/-- The basis carried along the bottom edge, at evenly spaced parameters. -/
def graphFrame (s : GraphSurface α) (n : Nat) : Except (ViewerError α) (List α) := do
  return timedFrameSamples (← s.boundary.mapError .geometry).frame n

/-- The tangent vector on the bottom edge with a direction carried from its start. -/
def boundaryState (s : GraphSurface α) (t : α) (v : List α) :
    Except (ViewerError α) (List α) := do
  let v ← direction v
  let anchor ← s.boundary.mapError .geometry
  return (anchor.state t v).toList

/-- The basis carried around the axis, at evenly spaced parameters. -/
def revolutionFrame (s : RevolutionSurface α) (n : Nat) : Except (ViewerError α) (List α) := do
  return frameSamples (← (s.frameAlong s.boundaryCurve).mapError .geometry) n

end

end Viewer

end SurfaceGeometry
