import SurfaceGeometry.Integrator.RungeKutta
import SurfaceGeometry.Settings
import SurfaceGeometry.Spline

/-!
# Parallel transport

The coordinate basis carried along a plane curve: both basis vectors are integrated from the
start of the curve to its end and interpolated between the steps. The transport of any other
vector follows from that of the basis.
-/

namespace SurfaceGeometry

/-- The two vectors of the coordinate basis, carried along a curve. -/
structure TransportedFrame (α : Type) [Scalar α] where
  x : Spline α (Vec2 α)
  y : Spline α (Vec2 α)

namespace TransportedFrame

variable {α : Type} [Scalar α]

/-- The carried basis at a curve parameter. -/
def basis (frame : TransportedFrame α) (t : α) : Vec2 α × Vec2 α :=
  (frame.x.eval t, frame.y.eval t)

/-- The vector that has the coordinates `v` at the start of the curve, carried to a curve
parameter. -/
def transport (frame : TransportedFrame α) (t : α) (v : Vec2 α) : Vec2 α :=
  let (ex, ey) := frame.basis t
  ex * v.x + ey * v.y

/-- The knots of the frame, which are those of both its splines. -/
def knots (frame : TransportedFrame α) : Array α := frame.x.knots

/-- The vector at the start and behind each of `steps` steps of size `h`. -/
def samples (rate : TangentVector α → Vec2 α → Vec2 α) (curve : Curve α) (steps : Nat) (h : α)
    (v : Vec2 α) : Array (Vec2 α) :=
  ((List.range steps).foldl
    (fun (acc : Vec2 α × Array (Vec2 α)) (i : Nat) =>
      let next := RungeKutta.carry h rate curve ((i : α) * h) acc.1
      (next, acc.2.push next))
    (v, #[v])).2

/-- Carries the basis along a curve, for the rate of a carried vector. -/
def along (rate : TangentVector α → Vec2 α → Vec2 α) (curve : Curve α)
    (settings : TransportSettings α) : Except SplineFault (TransportedFrame α) := do
  let steps := max settings.steps 1
  let h : α := 1 / (steps : α)
  let knots : Array α :=
    (0 :: (List.range steps).map fun (i : Nat) => ((i + 1 : Nat) : α) / (steps : α)).toArray
  let x ← Spline.ofKnots knots (samples rate curve steps h ⟨1, 0⟩) settings.tension
  let y ← Spline.ofKnots knots (samples rate curve steps h ⟨0, 1⟩) settings.tension
  return ⟨x, y⟩

end TransportedFrame

/-- A curve with the basis carried along it, from which geodesics start. -/
structure AnchoredFrame (α : Type) [Scalar α] where
  curve : Curve α
  frame : TransportedFrame α

namespace AnchoredFrame

variable {α : Type} [Scalar α]

/-- Carries the basis along a curve. -/
def along (rate : TangentVector α → Vec2 α → Vec2 α) (curve : Curve α)
    (settings : TransportSettings α) : Except SplineFault (AnchoredFrame α) :=
  (TransportedFrame.along rate curve settings).map (⟨curve, ·⟩)

/-- The point of the curve with the vector carried to it. -/
def state (a : AnchoredFrame α) (t : α) (v : Vec2 α) : TangentVector α :=
  ⟨a.curve.point t, a.frame.transport t v⟩

end AnchoredFrame

end SurfaceGeometry
