import SurfaceGeometry.Bytecode.Compiler
import SurfaceGeometry.GeometryError
import SurfaceGeometry.Report
import SurfaceGeometry.Shader.Term
import SurfaceGeometry.Stencil

/-!
# Fields

A field is a function of the coordinates of a surface in two forms: one that the library
evaluates and one that a shader does. The base of a surface has to be compiled and translated as
it is; a derivative of it that cannot be is replaced by finite differences of the base, with a
warning.
-/

namespace SurfaceGeometry

/-- A function of coordinates: compiled from a tree, or a finite difference of another one. -/
inductive SurfaceField (α : Type) where
  | compiled (f : CompiledFunction α)
  | difference (base : CompiledFunction α) (stencil : Stencil) (h : α)
deriving DecidableEq

namespace SurfaceField

variable {α : Type} [Scalar α]

/-- Whether a field is a finite difference and not a compiled tree. -/
def isFallback : SurfaceField α → Bool
  | compiled _ => false
  | difference _ _ _ => true

/-- The value at a point, for given values of the parameters. -/
def call (field : SurfaceField α) (params args : List α) : α :=
  match field with
  | compiled f => f.call params args
  | difference base stencil h => stencil.difference (base.call params) h args

end SurfaceField

/-- A field with its GLSL text. -/
structure Artifact (α : Type) where
  native : SurfaceField α
  shader : String
deriving DecidableEq

/-- The tree of a surface, compiled, with its GLSL text. -/
structure Base (α : Type) where
  tree : Expr α
  function : CompiledFunction α
  shader : String

namespace Base

variable {α : Type} [Scalar α] [NumberText α]

/-- Compiles and translates a tree. -/
def ofExpr (tree : Expr α) (vars : List String) (params : Parameters α) :
    Except (ExprError α) (Base α) := do
  let function ← CompiledFunction.ofExpr tree vars params
  let shader ← tree.shader
  return ⟨tree, function, shader⟩

/-- The base as a field. -/
def artifact (base : Base α) : Artifact α :=
  ⟨.compiled base.function, base.shader⟩

end Base

/-- The warning that a derivative is computed by finite differences, and why. -/
structure FallbackWarning (α : Type) where
  label : String
  cause : ExprError α
deriving DecidableEq

/-- The message that a derivative is replaced by a finite difference. -/
def FallbackWarning.message {α : Type} [NumberText α] (w : FallbackWarning α) : String :=
  w.label ++ ": symbolic derivative unavailable (" ++ w.cause.message ++
    "); using finite differences"

/-- A build from expressions: what it gives, and the warnings on the way. -/
abbrev Build (α β : Type) := Report (FallbackWarning α) (ExprError α) β

/-- A change of a surface: the changed surface, and the warnings on the way. -/
abbrev Change (α β : Type) := Report (FallbackWarning α) (GeometryError α) β

namespace Artifact

variable {α : Type} [Scalar α] [NumberText α]

/-- Compiles and translates a tree. -/
def ofExpr (tree : Expr α) (vars : List String) (params : Parameters α) :
    Except (ExprError α) (Artifact α) :=
  (Base.ofExpr tree vars params).map Base.artifact

/-- The finite difference of a base. -/
def ofStencil (base : Base α) (vars : List String) (stencil : Stencil)
    (widths : DifferenceSettings α) : Except (ExprError α) (Artifact α) := do
  let shader ← (stencil.tree base.tree vars widths.shaderStep).shader
  return ⟨.difference base.function stencil widths.nativeStep, shader⟩

/-- A derivative of a base: the given tree where there is one that can be compiled and
translated, otherwise a finite difference. -/
def ofDerivative (label : String) (derivative : Except (ExprError α) (Expr α)) (base : Base α)
    (vars : List String) (params : Parameters α) (stencil : Stencil)
    (widths : DifferenceSettings α) : Build α (Artifact α) :=
  match derivative.bind fun tree => ofExpr tree vars params with
  | .ok artifact => Report.ofExcept (.ok artifact)
  | .error cause => do
    Report.warn ⟨label, cause⟩
    Report.ofExcept (ofStencil base vars stencil widths)

end Artifact

end SurfaceGeometry
