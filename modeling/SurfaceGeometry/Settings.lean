import SurfaceGeometry.Scalar.Basic

/-!
# Settings

The numbers that steer a surface: how geodesics are integrated, how frames are transported, and
how wide the stencils of finite differences are. `SurfaceSettings.fault?` finds the first fault
of a set of settings, in the order in which they are listed here.
-/

namespace SurfaceGeometry

/-- How geodesics are integrated. -/
structure GeodesicSettings (α : Type) where
  /-- The step size of the integrator. -/
  step : α
  maxSteps : Nat
deriving DecidableEq, Repr

/-- How frames are transported. -/
structure TransportSettings (α : Type) where
  /-- The number of steps over the whole curve. -/
  steps : Nat
  /-- The tension of the splines between the steps. -/
  tension : α
deriving DecidableEq, Repr

/-- How wide the stencils of finite differences are. -/
structure DifferenceSettings (α : Type) where
  /-- The width where the library computes. -/
  nativeStep : α
  /-- The width in shaders, which have less precision. -/
  shaderStep : α
deriving DecidableEq, Repr

/-- The settings of a surface. -/
structure SurfaceSettings (α : Type) where
  geodesic : GeodesicSettings α
  transport : TransportSettings α
  difference : DifferenceSettings α
deriving DecidableEq, Repr

/-- A fault of a set of settings. -/
inductive SettingsFault (α : Type) where
  | geodesicStep
  | tooManySteps (count : Nat)
  | noTransportSteps
  | tension
  | nativeStep (value : α)
  | shaderStep (value : α)
deriving DecidableEq, Repr

namespace SurfaceSettings

/-- The greatest number of steps of a geodesic. -/
def maxGeodesicSteps : Nat := 1000000

section

variable {α : Type} [Scalar α]

/-- The settings of a surface that was given none. -/
def default : SurfaceSettings α where
  geodesic := ⟨0.02, 300⟩
  transport := ⟨100, 0⟩
  difference := ⟨1e-5, 1e-3⟩

/-- Whether a number is finite and positive. -/
def positive (value : α) : Bool :=
  Scalar.isFinite value && decide (value > 0)

/-- The first fault of a set of settings. -/
def fault? (s : SurfaceSettings α) : Option (SettingsFault α) :=
  if !positive s.geodesic.step then some .geodesicStep
  else if maxGeodesicSteps < s.geodesic.maxSteps then some (.tooManySteps s.geodesic.maxSteps)
  else if s.transport.steps = 0 then some .noTransportSteps
  else if !Scalar.isFinite s.transport.tension then some .tension
  else if !positive s.difference.nativeStep then some (.nativeStep s.difference.nativeStep)
  else if !positive s.difference.shaderStep then some (.shaderStep s.difference.shaderStep)
  else none

end

end SurfaceSettings

namespace SettingsFault

variable {α : Type} [NumberText α]

/-- The fault of a stencil width. -/
def stepMessage (label : String) (value : α) : String :=
  "Finite-difference " ++ label ++ " step must be positive and finite (got " ++
    NumberText.positional value ++ ")."

/-- The message of a fault, which says what the setting has to be. -/
def message : SettingsFault α → String
  | geodesicStep => "Geodesic step size must be positive and finite."
  | tooManySteps count =>
    "Geodesic step count " ++ toString count ++ " exceeds the limit of " ++
      toString SurfaceSettings.maxGeodesicSteps ++ "."
  | noTransportSteps => "Parallel transport needs at least one step."
  | tension => "Interpolation tension must be finite."
  | nativeStep value => stepMessage "native" value
  | shaderStep value => stepMessage "GLSL" value

end SettingsFault

end SurfaceGeometry
