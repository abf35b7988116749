import SurfaceGeometry.Proofs.Spline.Smooth

/-!
# Splines through affine samples

Without tension the slopes of a spline are difference quotients of its samples. So samples on a line
have the slope of the line at every knot, the first and the last ones included, where one neighbour
is missing; and the cubic with these slopes is the line (`Spline.hermite_affine`,
`Spline.eval_affine`). The distances between the knots do not matter.
-/

namespace SurfaceGeometry

namespace Spline

variable {K V : Type} [Field K] [LinearOrder K] [ElementaryFunctions K]

/-- The cubic with the values and the slopes of a line at both ends is the line. -/
theorem hermite_affine {x₁ x₂ : K} (h : x₁ ≠ x₂) (a b t : K) :
    hermite x₁ x₂ (a * x₁ + b) (a * x₂ + b) a a t = a * t + b := by
  have hdx : x₂ - x₁ ≠ 0 := sub_ne_zero.2 h.symm
  simp only [hermite, Exact.ofNat_eq]
  field_simp
  push_cast
  ring

/-- A difference quotient of samples on a line is the slope of the line. -/
theorem slope_affine {x y : K} (h : x ≠ y) (a b : K) :
    ((a * y + b) - (a * x + b)) * ((1 - 0) / (y - x)) = a := by
  have hdx : y - x ≠ 0 := sub_ne_zero.2 h.symm
  field_simp
  ring

variable [Add V] [Sub V] [HMul V K V] [Coordinates K V] {s : Spline K V} {a b : V}

open Coordinates

/-- On every segment of a spline through samples on a line the cubic is the line. -/
theorem piece_affine (hsample : ∀ i, (hi : i < s.knots.size) → s.sample i hi = a * s.knots[i] + b)
    (htension : s.tension = 0) {i : Nat} (hi : i + 1 < s.knots.size) (t : K) :
    s.piece i hi t = a * t + b := by
  refine ext fun j : Index K V => ?_
  have hbehind : min (i + 2) (s.knots.size - 1) < s.knots.size := by omega
  have hcoordinate (i : Nat) (hi : i < s.knots.size) :
      coordinate j (s.sample i hi) = coordinate j a * s.knots[i] + coordinate j b := by
    rw [hsample, add, mul]
  have hslope {m n : Nat} (hmn : m < n) (hn : n < s.knots.size) :
      coordinate j ((s.sample n hn - s.sample m (hmn.trans hn)) *
        ((1 - s.tension) / (s.knots[n] - s.knots[m]))) = coordinate j a := by
    rw [mul, sub, hcoordinate, hcoordinate, htension]
    exact slope_affine (knots_lt hmn hn).ne _ _
  have hpiece : s.piece i hi t = hermite s.knots[i] s.knots[i + 1] (s.sample i (by omega))
      (s.sample (i + 1) hi)
      ((s.sample (i + 1) hi - s.sample (i - 1) (by omega)) *
        ((1 - s.tension) / (s.knots[i + 1] - s.knots[i - 1])))
      ((s.sample _ hbehind - s.sample i (by omega)) *
        ((1 - s.tension) / (s.knots[min (i + 2) (s.knots.size - 1)] - s.knots[i]))) t := by
    simp only [piece, Exact.one_eq]
  rw [hpiece, coordinate_hermite, hcoordinate, hcoordinate, hslope (by omega) hi,
    hslope (by omega) hbehind, hermite_affine (knots_lt i.lt_succ_self hi).ne, add, mul]

/-- Without tension, a spline through samples on a line is the line between its first knot and its
last. -/
theorem eval_affine {knots : Array K} (htwo : 2 ≤ knots.size)
    (hordered : knots.toList.Pairwise (· < ·)) (a b : V) :
    ∃ s, ofKnots knots (knots.map fun x => a * x + b) 0 = .ok s ∧
      ∀ t, knots[0] ≤ t → t ≤ knots[knots.size - 1] → s.eval t = a * t + b := by
  have hsize : (knots.map fun x => a * x + b).size = knots.size := Array.size_map
  obtain ⟨s, hs, rfl, hsamples, htension⟩ := exists_ofKnots hsize htwo hordered 0
  refine ⟨s, hs, fun t hfirst hlast => ?_⟩
  have hsample (i : Nat) (hi : i < s.knots.size) : s.sample i hi = a * s.knots[i] + b := by
    simp only [sample, hsamples, Array.getElem_map]
  rcases hlast.eq_or_lt with rfl | hlast
  · rw [eval_knot s.last_lt, hsample]
  · obtain ⟨i, hi, hlo, hhi⟩ := exists_segment hfirst hlast
    rw [eval_piece hi hlo hhi.le, piece_affine hsample htension]

/-- Three knots that are not evenly spaced. -/
theorem eval_affine_three_knots :
    ∃ s : Spline ℝ ℝ, ofKnots #[0, 1, 3] ((#[0, 1, 3] : Array ℝ).map fun x => 2 * x + 5) 0 = .ok s ∧
      ∀ t, 0 ≤ t → t ≤ 3 → s.eval t = 2 * t + 5 :=
  eval_affine (by decide) (by norm_num) 2 5

end Spline

end SurfaceGeometry
