import SurfaceGeometry.Expr.Derivative
import SurfaceGeometry.Field
import SurfaceGeometry.Geodesic
import SurfaceGeometry.Shader.Block

/-!
# Graph surfaces

The surface `z = f(x, y)` of an expression over a rectangle. Its fields are the function and its
partial derivatives up to second order; normal, curvature, the acceleration of geodesics and the
rate of carried vectors are formulas in the derivatives at a point (`GraphJet`).

A surface is a value: changing its expression, settings or domain gives another surface, or a
failure, which leaves the old one to the caller. The values of parameters are read whenever a
field is.
-/

namespace SurfaceGeometry

/-! ## Partial derivatives -/

/-- The function of a graph surface and its partial derivatives. -/
inductive Partial where
  | f
  | fx
  | fy
  | fxx
  | fxy
  | fyy
deriving DecidableEq, Repr

namespace Partial

/-- All partial derivatives up to the second order, the function itself first. -/
def all : List Partial := [f, fx, fy, fxx, fxy, fyy]

/-- How a partial derivative is called. -/
def name : Partial → String
  | f => "f"
  | fx => "fx"
  | fy => "fy"
  | fxx => "fxx"
  | fxy => "fxy"
  | fyy => "fyy"

/-- The partial derivative of a name. -/
def ofName? (name : String) : Option Partial :=
  all.find? (·.name == name)

end Partial

/-- The partial derivatives of a function of two variables at a point. -/
@[ext]
structure GraphJet (α : Type) where
  fx : α
  fy : α
  fxx : α
  fxy : α
  fyy : α
deriving DecidableEq, Repr

namespace GraphJet

variable {α : Type} [Scalar α]

/-- The determinant of the induced metric. -/
def metricFactor (j : GraphJet α) : α :=
  1 + j.fx * j.fx + j.fy * j.fy

/-- The Gaussian curvature. -/
def curvature (j : GraphJet α) : α :=
  let d := j.metricFactor
  (j.fxx * j.fyy - j.fxy * j.fxy) / (d * d)

/-- The acceleration of a geodesic with the given velocity. -/
def acceleration (j : GraphJet α) (vel : Vec2 α) : Vec2 α :=
  let bend := j.fxx * vel.x * vel.x + 2 * j.fxy * vel.x * vel.y + j.fyy * vel.y * vel.y
  (⟨j.fx, j.fy⟩ : Vec2 α) * (-bend / j.metricFactor)

/-- The rate of a carried vector along a curve with the given velocity. -/
def transportRate (j : GraphJet α) (vel v : Vec2 α) : Vec2 α :=
  let bend := j.fxx * vel.x * v.x + j.fxy * (vel.x * v.y + vel.y * v.x) + j.fyy * vel.y * v.y
  (⟨j.fx, j.fy⟩ : Vec2 α) * (-bend / j.metricFactor)

/-- The unit normal that points upwards. -/
def normal (j : GraphJet α) : Vec3 α :=
  (⟨-j.fx, -j.fy, 1⟩ : Vec3 α).normalize

end GraphJet

/-! ## Sheets -/

/-- Everything that is built from the expression of a graph surface. -/
structure GraphSheet (α : Type) where
  source : String
  base : Base α
  fx : Artifact α
  fy : Artifact α
  fxx : Artifact α
  fxy : Artifact α
  fyy : Artifact α

namespace GraphSheet

variable {α : Type} [Scalar α] [NumberText α]

/-- The variables of the expression. -/
def vars : List String := ["x", "y"]

/-- Reads an expression and builds the function and its partial derivatives. -/
def build (source : String) (params : Parameters α) (settings : SurfaceSettings α) :
    Build α (GraphSheet α) := do
  let base ← Report.ofExcept (do Base.ofExpr (← Expr.parse source) vars params)
  let dx := base.tree.differentiate "x"
  let dy := base.tree.differentiate "y"
  let dxx := dx.bind (·.differentiate "x")
  let dxy := dx.bind (·.differentiate "y")
  let dyy := dy.bind (·.differentiate "y")
  let make (which : Partial) (stencil : Stencil) (derivative : Except (ExprError α) (Expr α)) :=
    Artifact.ofDerivative which.name derivative base vars params stencil settings.difference
  let fx ← make .fx (.first 0) dx
  let fy ← make .fy (.first 1) dy
  let fxx ← make .fxx (.second 0) dxx
  let fxy ← make .fxy (.mixed 0 1) dxy
  let fyy ← make .fyy (.second 1) dyy
  return ⟨source, base, fx, fy, fxx, fxy, fyy⟩

/-- The function or one of its partial derivatives. -/
def artifact (s : GraphSheet α) : Partial → Artifact α
  | .f => s.base.artifact
  | .fx => s.fx
  | .fy => s.fy
  | .fxx => s.fxx
  | .fxy => s.fxy
  | .fyy => s.fyy

/-- The GLSL texts with the names of their functions. -/
def snippets (s : GraphSheet α) : List Shader.Snippet :=
  Partial.all.map fun p => ⟨p.name, (s.artifact p).shader⟩

end GraphSheet

/-! ## Surfaces -/

/-- A graph surface over a rectangle, with its parameters and settings. -/
structure GraphSurface (α : Type) where
  sheet : GraphSheet α
  domain : Domain α
  parameters : Parameters α
  settings : SurfaceSettings α

namespace GraphSurface

variable {α : Type} [Scalar α] [NumberText α]

/-- Builds the surface of an expression. -/
def build (source : String) (domain : Domain α) (parameters : Parameters α)
    (settings : SurfaceSettings α) : Change α (GraphSurface α) := do
  Report.ofExcept settings.check
  let sheet ← (GraphSheet.build source parameters settings).mapError .expression
  return ⟨sheet, domain, parameters, settings⟩

/-- Replaces the expression. -/
def rebuild (s : GraphSurface α) (source : String) : Change α (GraphSurface α) := do
  let sheet ← (GraphSheet.build source s.parameters s.settings).mapError .expression
  return { s with sheet }

/-- Replaces the settings and builds the expression with them. -/
def setSettings (s : GraphSurface α) (settings : SurfaceSettings α) :
    Change α (GraphSurface α) := do
  Report.ofExcept settings.check
  let sheet ← (GraphSheet.build s.sheet.source s.parameters settings).mapError .expression
  return { s with sheet, settings }

/-- Replaces the domain and leaves the sheet as it is. -/
def setDomain (s : GraphSurface α) (domain : Domain α) : GraphSurface α :=
  { s with domain }

/-- Gives a parameter another value, and tells whether the surface has it. -/
def setParameter (s : GraphSurface α) (name : String) (value : α) : Bool × GraphSurface α :=
  match s.parameters.set? name value with
  | some parameters => (true, { s with parameters })
  | none => (false, s)

/-- Adds a parameter, or gives it another value. -/
def insertParameter (s : GraphSurface α) (name : String) (value : α) : GraphSurface α :=
  { s with parameters := s.parameters.insert name value }

/-- The value of the function or of a partial derivative. -/
def derivative (s : GraphSurface α) (which : Partial) (x y : α) : α :=
  (s.sheet.artifact which).native.call s.parameters.values [x, y]

/-- The height of the graph. -/
def evaluate (s : GraphSurface α) (x y : α) : α := s.derivative .f x y

/-- The partial derivatives at a point. -/
def jet (s : GraphSurface α) (x y : α) : GraphJet α where
  fx := s.derivative .fx x y
  fy := s.derivative .fy x y
  fxx := s.derivative .fxx x y
  fxy := s.derivative .fxy x y
  fyy := s.derivative .fyy x y

/-- The Gaussian curvature at a point. -/
def curvature (s : GraphSurface α) (x y : α) : α := (s.jet x y).curvature

/-- The surface as a patch. -/
def patch (s : GraphSurface α) : Patch α where
  embed x y := ⟨x, y, s.evaluate x y⟩
  outside := s.domain.outside
  acceleration state := (s.jet state.pos.x state.pos.y).acceleration state.vel
  transportRate state v := (s.jet state.pos.x state.pos.y).transportRate state.vel v
  normal x y := (s.jet x y).normal

/-- The partial derivatives that are finite differences. -/
def fallbacks (s : GraphSurface α) : List Partial :=
  Partial.all.filter fun p => (s.sheet.artifact p).native.isFallback

/-- The shader that declares the parameters and defines the function and its derivatives. -/
def functionBlock (s : GraphSurface α) : String :=
  Shader.block s.sheet.snippets GraphSheet.vars s.parameters.names

/-- The points of a grid over the domain, row by row. -/
def grid (s : GraphSurface α) (n m : Nat) : List (Vec3 α) :=
  Patch.rectangleGrid s.patch.embed s.domain n m

/-- The points of a geodesic from a state on. -/
def geodesic (s : GraphSurface α) (state : TangentVector α) : List (Vec3 α) :=
  Geodesic.polyline s.patch s.settings.geodesic state

/-- The basis carried along a curve. -/
def frameAlong (s : GraphSurface α) (curve : Curve α) :
    Except (GeometryError α) (TransportedFrame α) :=
  (TransportedFrame.along s.patch.transportRate curve s.settings.transport).mapError
    .interpolation

/-- A curve with the basis carried along it. -/
def anchorAlong (s : GraphSurface α) (curve : Curve α) :
    Except (GeometryError α) (AnchoredFrame α) :=
  (AnchoredFrame.along s.patch.transportRate curve s.settings.transport).mapError .interpolation

/-- The bottom edge of the domain with the basis carried along it. -/
def boundary (s : GraphSurface α) : Except (GeometryError α) (AnchoredFrame α) :=
  s.anchorAlong (Curve.ofSegment s.domain.bottomEdge)

end GraphSurface

end SurfaceGeometry
