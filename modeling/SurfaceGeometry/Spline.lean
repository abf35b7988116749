import SurfaceGeometry.Scalar.Basic

/-!
# Splines

Cubic Hermite splines through samples at increasing knots, with the tangents of Catmull and Rom
scaled by one minus the tension. The samples can be numbers or vectors: anything that can be
added, subtracted and scaled by numbers. Outside the knots a spline keeps its first and its last
sample.
-/

namespace SurfaceGeometry

/-- What is wrong with knots and samples. -/
inductive SplineFault where
  | countMismatch (knots samples : Nat)
  | tooFew
  | notIncreasing
deriving DecidableEq, Repr

/-- The message of a fault. -/
def SplineFault.message : SplineFault → String
  | countMismatch knots samples => toString knots ++ " knots but " ++ toString samples ++ " samples"
  | tooFew => "at least two samples are required"
  | notIncreasing => "knots must be finite and strictly increasing"

/-- Whether no number of a list is followed by one that is not greater. -/
def increasing {α : Type} [Scalar α] : List α → Bool
  | a :: b :: rest => !decide (b ≤ a) && increasing (b :: rest)
  | _ => true

/-- A spline through samples of type `V` at knots of type `α`. -/
structure Spline (α V : Type) [Scalar α] where
  knots : Array α
  samples : Array V
  tension : α
  sameSize : samples.size = knots.size
  two_le_size : 2 ≤ knots.size
  finite : knots.toList.all Scalar.isFinite = true
  ordered : increasing knots.toList = true

namespace Spline

variable {α V : Type} [Scalar α]

/-- The spline through samples at knots, if they can have one. -/
def ofKnots (knots : Array α) (samples : Array V) (tension : α) :
    Except SplineFault (Spline α V) :=
  if hsize : samples.size = knots.size then
    if htwo : 2 ≤ knots.size then
      if hfinite : knots.toList.all Scalar.isFinite = true then
        if hordered : increasing knots.toList = true then
          .ok ⟨knots, samples, tension, hsize, htwo, hfinite, hordered⟩
        else .error .notIncreasing
      else .error .notIncreasing
    else .error .tooFew
  else .error (.countMismatch knots.size samples.size)

/-- The spline through samples at knots evenly spaced from zero to one. -/
def uniform (samples : Array V) (tension : α) : Except SplineFault (Spline α V) :=
  let last : α := ((max (samples.size - 1) 1 : Nat) : α)
  ofKnots ((List.range samples.size).map fun (i : Nat) => (i : α) / last).toArray samples tension

/-- The segment of a number between the first knot and the last: the index of the last knot that
is not above it. -/
def segment (s : Spline α V) (t : α) : Nat :=
  min ((s.knots.toList.takeWhile fun k => decide (k ≤ t)).length - 1) (s.knots.size - 2)

variable [Add V] [Sub V] [HMul V α V]

/-- The cubic on the segment from `x₁` to `x₂` with the values `y₁`, `y₂` and the slopes `m₁`,
`m₂` at its ends. -/
def hermite (x₁ x₂ : α) (y₁ y₂ m₁ m₂ : V) (t : α) : V :=
  let dx := x₂ - x₁
  let s := (t - x₁) / dx
  let s2 := s * s
  let s3 := s2 * s
  let h00 := 2 * s3 - 3 * s2 + 1
  let h10 := s3 - 2 * s2 + s
  let h01 := -2 * s3 + 3 * s2
  let h11 := s3 - s2
  y₁ * h00 + m₁ * (h10 * dx) + y₂ * h01 + m₂ * (h11 * dx)

/-- The value of a spline. A number without value is treated like one below the first knot. -/
def eval (s : Spline α V) (t : α) : V :=
  have hk := s.two_le_size
  have hs := s.sameSize
  if Scalar.isNaN t || decide (t ≤ s.knots[0]) then s.samples[0]
  else if t ≥ s.knots[s.knots.size - 1] then s.samples[s.knots.size - 1]
  else
    let i := s.segment t
    have hi : i ≤ s.knots.size - 2 := Nat.min_le_right _ _
    let before := i - 1
    let next := i + 1
    let behind := min (i + 2) (s.knots.size - 1)
    have hb : behind ≤ s.knots.size - 1 := Nat.min_le_right _ _
    let x₀ := s.knots[before]
    let x₁ := s.knots[i]
    let x₂ := s.knots[next]
    let x₃ := s.knots[behind]
    let y₀ := s.samples[before]
    let y₁ := s.samples[i]
    let y₂ := s.samples[next]
    let y₃ := s.samples[behind]
    let scale := 1 - s.tension
    let m₁ := (y₂ - y₀) * (scale / (x₂ - x₀))
    let m₂ := (y₃ - y₁) * (scale / (x₃ - x₁))
    hermite x₁ x₂ y₁ y₂ m₁ m₂ t

end Spline

end SurfaceGeometry
