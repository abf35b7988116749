import SurfaceGeometry.Curve

/-!
# The classic Runge-Kutta step

The fourth-order step, twice: for a vector of the plane that is carried along a curve, and for a
first-order system of any dimension. The second one works in a `Workspace` of lists that it
writes over at every step; a system writes its rates into such a list, and an entry that it does
not write keeps its value.
-/

namespace SurfaceGeometry

namespace RungeKutta

variable {α : Type} [Scalar α]

/-! ## Vectors carried along a curve -/

/-- A step of size `h` from the curve parameter `t`, for the rate that a carried vector has at a
tangent vector of the curve. -/
def carry (h : α) (rate : TangentVector α → Vec2 α → Vec2 α) (curve : Curve α) (t : α)
    (v : Vec2 α) : Vec2 α :=
  let start := curve.tangent t
  let mid := curve.tangent (t + 0.5 * h)
  let finish := curve.tangent (t + h)
  let k₁ := rate start v * h
  let k₂ := rate mid (v + k₁ * (0.5 : α)) * h
  let k₃ := rate mid (v + k₂ * (0.5 : α)) * h
  let k₄ := rate finish (v + k₃) * h
  v + (k₁ + k₂ * (2 : α) + k₃ * (2 : α) + k₄) / (6 : α)

/-! ## Systems -/

/-- A first-order system: from the time, the state and a list of numbers, the list with the rates
of the state written over it. -/
abbrev System (α : Type) := α → List α → List α → List α

/-- Writes numbers over the start of a list. -/
def overwrite (numbers buffer : List α) : List α :=
  numbers ++ buffer.drop numbers.length

/-- A system with rates for the whole state. -/
def ofRates (rates : α → List α → List α) : System α :=
  fun t x buffer => overwrite (rates t x) buffer

/-- The lists that a step writes over: the rates at its four stages, and the state in between. -/
structure Workspace (α : Type) where
  k₁ : List α
  k₂ : List α
  k₃ : List α
  k₄ : List α
  stage : List α
deriving DecidableEq, Repr

/-- The workspace for a dimension, filled with zeros. -/
def Workspace.ofDimension (n : Nat) : Workspace α :=
  let zeros : List α := List.replicate n 0
  ⟨zeros, zeros, zeros, zeros, zeros⟩

/-- The state moved along rates. -/
def advance (h : α) (state rates : List α) : List α :=
  List.zipWith (fun x k => x + h * k) state rates

/-- The weighted sum of the rates of the four stages. -/
def combine (k₁ k₂ k₃ k₄ : List α) : List α :=
  List.zipWith (· + ·)
    (List.zipWith (· + ·)
      (List.zipWith (· + ·) k₁ (k₂.map (2 * ·)))
      (k₃.map (2 * ·)))
    k₄

/-- A step of size `h`: the workspace behind it, the new time and the new state. -/
def step (system : System α) (w : Workspace α) (t : α) (state : List α) (h : α) :
    Workspace α × α × List α :=
  let k₁ := system t state w.k₁
  let stage := overwrite (advance (0.5 * h) state k₁) w.stage
  let k₂ := system (t + 0.5 * h) stage w.k₂
  let stage := overwrite (advance (0.5 * h) state k₂) stage
  let k₃ := system (t + 0.5 * h) stage w.k₃
  let stage := overwrite (advance h state k₃) stage
  let k₄ := system (t + h) stage w.k₄
  (⟨k₁, k₂, k₃, k₄, stage⟩, t + h, advance (h / 6) state (combine k₁ k₂ k₃ k₄))

/-- The times and states behind steps of the given sizes, made one after the other in one
workspace. -/
def trajectory (system : System α) (w : Workspace α) (t : α) (state : List α) :
    List α → List (α × List α)
  | [] => []
  | h :: rest =>
    let (w', t', state') := step system w t state h
    (t', state') :: trajectory system w' t' state' rest

end RungeKutta

end SurfaceGeometry
