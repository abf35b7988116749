import SurfaceGeometry.Expr.Derivative
import SurfaceGeometry.Field
import SurfaceGeometry.Geodesic
import SurfaceGeometry.Shader.Block

/-!
# Surfaces of revolution

The surface that a profile curve `(r(u), h(u))` sweeps out around an axis, in the coordinates
`u` along the profile and the angle around the axis. Both profile functions are expressions in
`u`, with their first two derivatives as fields. Curvature, the acceleration of geodesics and the
rate of carried vectors are formulas in the profile and its derivatives (`ProfileJet`).
-/

namespace SurfaceGeometry

/-- The profile functions and their derivatives at one place. -/
@[ext]
structure ProfileJet (α : Type) where
  r : α
  dr : α
  ddr : α
  h : α
  dh : α
  ddh : α
deriving DecidableEq, Repr

namespace ProfileJet

variable {α : Type} [Scalar α]

/-- The coefficient of the metric along the profile, `r'² + h'²`. -/
def speedSquared (j : ProfileJet α) : α :=
  j.dr * j.dr + j.dh * j.dh

/-- The Gaussian curvature. -/
def curvature (j : ProfileJet α) : α :=
  let e := j.speedSquared
  j.dh * (j.dr * j.ddh - j.ddr * j.dh) / (j.r * e * e)

/-- The acceleration of a geodesic with the given velocity. -/
def acceleration (j : ProfileJet α) (vel : Vec2 α) : Vec2 α :=
  let e := j.speedSquared
  ⟨(-(j.dr * j.ddr + j.dh * j.ddh) * vel.x * vel.x + j.r * j.dr * vel.y * vel.y) / e,
    -2 * j.dr / j.r * vel.x * vel.y⟩

/-- The rate of a carried vector along a curve with the given velocity. -/
def transportRate (j : ProfileJet α) (vel v : Vec2 α) : Vec2 α :=
  let e := j.speedSquared
  let uuu := (j.dr * j.ddr + j.dh * j.ddh) / e
  let utt := -j.r * j.dr / e
  let tut := j.dr / j.r
  ⟨-(uuu * vel.x * v.x + utt * vel.y * v.y), -tut * (vel.x * v.y + vel.y * v.x)⟩

end ProfileJet

/-- Everything that is built from the expression of one profile function. -/
structure ProfileFunction (α : Type) where
  source : String
  base : Base α
  first : Artifact α
  second : Artifact α

namespace ProfileFunction

variable {α : Type} [Scalar α] [NumberText α]

/-- The variables of a profile function. -/
def vars : List String := ["u"]

/-- Reads an expression and builds the function and its first two derivatives. -/
def build (name source : String) (params : Parameters α) (settings : SurfaceSettings α) :
    Build α (ProfileFunction α) := do
  let base ← Report.ofExcept (do Base.ofExpr (← Expr.parse source) vars params)
  let du := base.tree.differentiate "u"
  let duu := du.bind (·.differentiate "u")
  let first ← Artifact.ofDerivative (name ++ "'") du base vars params (.first 0)
    settings.difference
  let second ← Artifact.ofDerivative (name ++ "''") duu base vars params (.second 0)
    settings.difference
  return ⟨source, base, first, second⟩

/-- The value at `u`, and those of the first two derivatives. -/
def values (p : ProfileFunction α) (params : List α) (u : α) : α × α × α :=
  (p.base.artifact.native.call params [u], p.first.native.call params [u],
    p.second.native.call params [u])

/-- The value at `u`. -/
def value (p : ProfileFunction α) (params : List α) (u : α) : α :=
  p.base.artifact.native.call params [u]

end ProfileFunction

/-- The radius and the height of a surface of revolution. -/
structure Profile (α : Type) where
  radius : ProfileFunction α
  height : ProfileFunction α

namespace Profile

variable {α : Type} [Scalar α] [NumberText α]

/-- Builds both profile functions, the radius first. -/
def build (radius height : String) (params : Parameters α) (settings : SurfaceSettings α) :
    Build α (Profile α) := do
  let radius ← ProfileFunction.build "r" radius params settings
  let height ← ProfileFunction.build "h" height params settings
  return ⟨radius, height⟩

/-- The GLSL texts with the names of their functions. -/
def snippets (p : Profile α) : List Shader.Snippet :=
  [⟨"r", p.radius.base.shader⟩, ⟨"dr", p.radius.first.shader⟩, ⟨"ddr", p.radius.second.shader⟩,
    ⟨"h", p.height.base.shader⟩, ⟨"dh", p.height.first.shader⟩, ⟨"ddh", p.height.second.shader⟩]

/-- The names of the derivatives that are finite differences. -/
def fallbacks (p : Profile α) : List String :=
  [("dr", p.radius.first), ("ddr", p.radius.second), ("dh", p.height.first),
    ("ddh", p.height.second)].filterMap fun entry =>
      if entry.2.native.isFallback then some entry.1 else none

end Profile

/-- A surface of revolution over a range of its profile, with its parameters and settings. -/
structure RevolutionSurface (α : Type) where
  profile : Profile α
  domain : Interval α
  parameters : Parameters α
  settings : SurfaceSettings α

namespace RevolutionSurface

variable {α : Type} [Scalar α] [NumberText α]

/-- Refuses a range that profiles cannot have. -/
def checkDomain (domain : Interval α) : Except (GeometryError α) Unit :=
  (domain.check "profile").mapError .domain

/-- Builds the surface of two profile expressions. -/
def build (radius height : String) (domain : Interval α) (parameters : Parameters α)
    (settings : SurfaceSettings α) : Change α (RevolutionSurface α) := do
  Report.ofExcept settings.check
  Report.ofExcept (checkDomain domain)
  let profile ← (Profile.build radius height parameters settings).mapError .expression
  return ⟨profile, domain, parameters, settings⟩

/-- Replaces both profile expressions, or neither. -/
def rebuild (s : RevolutionSurface α) (radius height : String) :
    Change α (RevolutionSurface α) := do
  let profile ← (Profile.build radius height s.parameters s.settings).mapError .expression
  return { s with profile }

/-- Replaces the domain, if it is one for a profile, and leaves the profile as it is. -/
def setDomain (s : RevolutionSurface α) (domain : Interval α) :
    Except (GeometryError α) (RevolutionSurface α) := do
  checkDomain domain
  return { s with domain }

/-- Gives a parameter another value, and tells whether the surface has it. -/
def setParameter (s : RevolutionSurface α) (name : String) (value : α) :
    Bool × RevolutionSurface α :=
  match s.parameters.set? name value with
  | some parameters => (true, { s with parameters })
  | none => (false, s)

/-- Adds a parameter, or gives it another value. -/
def insertParameter (s : RevolutionSurface α) (name : String) (value : α) :
    RevolutionSurface α :=
  { s with parameters := s.parameters.insert name value }

/-- The values of both profile functions and their derivatives at `u`. -/
def jet (s : RevolutionSurface α) (u : α) : ProfileJet α :=
  let (r, dr, ddr) := s.profile.radius.values s.parameters.values u
  let (h, dh, ddh) := s.profile.height.values s.parameters.values u
  ⟨r, dr, ddr, h, dh, ddh⟩

/-- The Gaussian curvature at `u`. -/
def curvature (s : RevolutionSurface α) (u : α) : α := (s.jet u).curvature

/-- The point of the profile at `u`, turned by an angle. -/
def embed (s : RevolutionSurface α) (u angle : α) : Vec3 α :=
  let r := s.profile.radius.value s.parameters.values u
  ⟨r * Scalar.cos angle, r * Scalar.sin angle, s.profile.height.value s.parameters.values u⟩

/-- The surface as a patch. -/
def patch (s : RevolutionSurface α) : Patch α where
  embed := s.embed
  outside pos := !s.domain.contains pos.x
  acceleration state := (s.jet state.pos.x).acceleration state.vel
  transportRate state v := (s.jet state.pos.x).transportRate state.vel v
  normal := Patch.numericalNormal s.embed

/-- The shader that declares the parameters and defines the profile and its derivatives. -/
def functionBlock (s : RevolutionSurface α) : String :=
  Shader.block s.profile.snippets ProfileFunction.vars s.parameters.names

/-- The points of a grid: `n` along the profile, in each of `m` rings. -/
def grid (s : RevolutionSurface α) (n m : Nat) : List (Vec3 α) :=
  Patch.revolutionGrid s.embed s.domain n m

/-- The circle at the start of the profile, once around the axis. -/
def boundaryCurve (s : RevolutionSurface α) : Curve α :=
  Curve.ofFunction fun t => ⟨s.domain.lo, Scalar.tau * t⟩

/-- The points of a geodesic from a state on. -/
def geodesic (s : RevolutionSurface α) (state : TangentVector α) : List (Vec3 α) :=
  Geodesic.polyline s.patch s.settings.geodesic state

/-- The basis carried along a curve. -/
def frameAlong (s : RevolutionSurface α) (curve : Curve α) :
    Except (GeometryError α) (TransportedFrame α) :=
  (TransportedFrame.along s.patch.transportRate curve s.settings.transport).mapError
    .interpolation

end RevolutionSurface

end SurfaceGeometry
