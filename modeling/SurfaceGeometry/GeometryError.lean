import SurfaceGeometry.Domain
import SurfaceGeometry.Expr.Error
import SurfaceGeometry.Settings
import SurfaceGeometry.Spline

/-!
# Failures of surfaces

Everything that can go wrong when a surface is built or changed.
-/

namespace SurfaceGeometry

/-- A failure to build or change a surface. -/
inductive GeometryError (α : Type) where
  | expression (error : ExprError α)
  | domain (fault : DomainFault α)
  | interpolation (fault : SplineFault)
  | settings (fault : SettingsFault α)
deriving DecidableEq, Repr

namespace GeometryError

/-- The message of an error, which ends with that of the fault. -/
def message {α : Type} [NumberText α] : GeometryError α → String
  | expression error => error.message
  | domain fault => "invalid domain: " ++ fault.message
  | interpolation fault => "interpolation error: " ++ fault.message
  | settings fault => "invalid settings: " ++ fault.message

end GeometryError

/-- Refuses settings with a fault. -/
def SurfaceSettings.check {α : Type} [Scalar α] (settings : SurfaceSettings α) :
    Except (GeometryError α) Unit :=
  match settings.fault? with
  | some fault => .error (.settings fault)
  | none => .ok ()

end SurfaceGeometry
