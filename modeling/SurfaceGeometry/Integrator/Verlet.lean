import SurfaceGeometry.Plane

/-!
# The velocity Verlet step

A step of a second-order flow in the plane, where the acceleration depends on position and
velocity: half a step for the velocity, a whole one for the position with that velocity, and the
other half for the velocity.
-/

namespace SurfaceGeometry

namespace Verlet

variable {α : Type} [Scalar α]

/-- A step of size `h`. -/
def step (h : α) (acceleration : TangentVector α → Vec2 α) (s : TangentVector α) :
    TangentVector α :=
  let a₀ := acceleration s
  let half := s.vel + a₀ * (0.5 * h)
  let pos := s.pos + half * h
  let a₁ := acceleration ⟨pos, half⟩
  ⟨pos, half + a₁ * (0.5 * h)⟩

/-- The states after one, two and so on up to `count` steps. -/
def states (h : α) (acceleration : TangentVector α → Vec2 α) :
    (count : Nat) → TangentVector α → List (TangentVector α)
  | 0, _ => []
  | count + 1, s =>
    let next := step h acceleration s
    next :: states h acceleration count next

end Verlet

end SurfaceGeometry
