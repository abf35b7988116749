import SurfaceGeometry.Geodesic
import SurfaceGeometry.GeometryError

/-!
# Black holes

The equatorial plane around a Schwarzschild black hole with the metric of light, embedded in
space as a surface of revolution in the coordinates `(u, θ)`. Its geodesics are the paths of
light rays. The radius `u` runs from the photon sphere, at one and a half Schwarzschild radii, to
thirty Schwarzschild radii; the height of the embedding is the integral of its slope, sampled and
interpolated by a spline.
-/

namespace SurfaceGeometry

namespace Optical

variable {α : Type} [Scalar α]

/-! ## Formulas in the Schwarzschild radius `R` -/

/-- The slope of the height of the embedding. -/
def heightSlope (R u : α) : α :=
  Scalar.sqrt (u * R * (8 * u - 9 * R) / (4 * Scalar.powInt (u - R) 3))

/-- The distance from the axis. -/
def axisDistance (R u : α) : α :=
  Scalar.sqrt (u * u * u / (u - R))

/-- The coefficients of the metric along `u` and along `θ`. -/
def metric (R u : α) : α × α :=
  (u * u / ((u - R) * (u - R)), u * u * u / (u - R))

/-- The acceleration of a light ray. -/
def acceleration (R : α) (state : TangentVector α) : Vec2 α :=
  let u := state.pos.x
  let up := state.vel.x
  let tp := state.vel.y
  let denom := u * (R - u)
  ⟨0.5 * (2 * u - 3 * R) * tp * tp - R * up * up / denom, (2 * u - 3 * R) * up * tp / denom⟩

/-- The rate of a carried vector. -/
def transportRate (R : α) (state : TangentVector α) (v : Vec2 α) : Vec2 α :=
  let u := state.pos.x
  let up := state.vel.x
  let tp := state.vel.y
  let uuu := R / (u * (R - u))
  let utt := -0.5 * (2 * u - 3 * R)
  let tut := (2 * u - 3 * R) / (2 * u * (u - R))
  ⟨-(uuu * up * v.x + utt * tp * v.y), -tut * (up * v.y + tp * v.x)⟩

/-! ## The height profile -/

/-- The number of steps of the integration. -/
def profileSteps : Nat := 500

/-- The slope as a system of one dimension. -/
def heightSystem (R : α) : RungeKutta.System α :=
  RungeKutta.ofRates fun u _ => [heightSlope R u]

/-- The range of the radius. -/
def domain (R : α) : Interval α := ⟨1.5 * R, 30 * R⟩

/-- The width of a step of the integration. -/
def profileStep (R : α) : α := (domain R).width / (profileSteps : α)

/-- The heights at the knots behind the first one. -/
def heights (R : α) : List (α × List α) :=
  RungeKutta.trajectory (heightSystem R) (.ofDimension 1) (domain R).lo [0]
    (List.replicate profileSteps (profileStep R))

/-- The heights as a spline over the range, with knots counted from its start. -/
def heightProfile (R : α) : Except SplineFault (Spline α α) :=
  let knots := (List.range (profileSteps + 1)).map fun (i : Nat) =>
    if i = 0 then (domain R).lo else (domain R).lo + profileStep R * (i : α)
  let samples := 0 :: (heights R).map fun entry => entry.2.headD 0
  Spline.ofKnots knots.toArray samples.toArray 0

end Optical

/-- The surface around a black hole of a given Schwarzschild radius, with its settings. -/
structure BlackHoleSurface (α : Type) [Scalar α] where
  schwarzschildRadius : α
  heights : Spline α α
  settings : SurfaceSettings α

namespace BlackHoleSurface

variable {α : Type} [Scalar α]

/-- The height profile of a Schwarzschild radius, which has to be positive and finite. -/
def profile (R : α) : Except (GeometryError α) (Spline α α) :=
  if Scalar.isFinite R && decide (R > 0) then
    (Optical.heightProfile R).mapError .interpolation
  else .error (.domain (.radius R))

/-- Builds the surface of a Schwarzschild radius. -/
def build (R : α) (settings : SurfaceSettings α) :
    Except (GeometryError α) (BlackHoleSurface α) := do
  settings.check
  return ⟨R, ← profile R, settings⟩

/-- Replaces the Schwarzschild radius. -/
def rebuild (s : BlackHoleSurface α) (R : α) : Except (GeometryError α) (BlackHoleSurface α) := do
  return { s with schwarzschildRadius := R, heights := ← profile R }

/-- The range of the radius. -/
def domain (s : BlackHoleSurface α) : Interval α := Optical.domain s.schwarzschildRadius

/-- The distance of the profile from the axis at `u`. -/
def radius (s : BlackHoleSurface α) (u : α) : α := Optical.axisDistance s.schwarzschildRadius u

/-- The height of the profile at `u`, as the spline has it. -/
def height (s : BlackHoleSurface α) (u : α) : α := s.heights.eval u

/-- The coefficients of the metric at `u`. -/
def metric (s : BlackHoleSurface α) (u : α) : α × α := Optical.metric s.schwarzschildRadius u

/-- The point of the profile at `u`, turned by an angle. -/
def embed (s : BlackHoleSurface α) (u angle : α) : Vec3 α :=
  let r := s.radius u
  ⟨r * Scalar.cos angle, r * Scalar.sin angle, s.height u⟩

/-- The surface as a patch. -/
def patch (s : BlackHoleSurface α) : Patch α where
  embed := s.embed
  outside pos := !s.domain.contains pos.x
  acceleration := Optical.acceleration s.schwarzschildRadius
  transportRate := Optical.transportRate s.schwarzschildRadius
  normal := Patch.numericalNormal s.embed

/-- The points of a grid: `n` along the radius, in each of `m` rings. -/
def grid (s : BlackHoleSurface α) (n m : Nat) : List (Vec3 α) :=
  Patch.revolutionGrid s.embed s.domain n m

/-- The points of a light ray from a state on. -/
def geodesic (s : BlackHoleSurface α) (state : TangentVector α) : List (Vec3 α) :=
  Geodesic.polyline s.patch s.settings.geodesic state

/-- The basis carried along a curve. -/
def frameAlong (s : BlackHoleSurface α) (curve : Curve α) :
    Except (GeometryError α) (TransportedFrame α) :=
  (TransportedFrame.along s.patch.transportRate curve s.settings.transport).mapError
    .interpolation

end BlackHoleSurface

end SurfaceGeometry
