import SurfaceGeometry.Proofs.Exact.Real
import SurfaceGeometry.Proofs.Spline.Checked

/-!
# Splines without corners

In exact arithmetic, and for samples that have coordinates (`Coordinates`), each coordinate of a
cubic is a polynomial of degree at most three with the given values and slopes at the ends of the
segment (`Spline.hasSlope_start`, `Spline.hasSlope_end`). Where two segments meet, the slope at the
end of the one and that at the start of the other are taken between the same two samples, so a
spline has no corners (`Spline.smooth`).
-/

namespace SurfaceGeometry

open Polynomial

/-- Samples with coordinates: numbers, and vectors that are added, subtracted and scaled by
coordinates. -/
class Coordinates (K V : Type) [Field K] [Add V] [Sub V] [HMul V K V] where
  Index : Type
  coordinate : Index → V → K
  ext {u v : V} : (∀ i, coordinate i u = coordinate i v) → u = v
  add (i : Index) (u v : V) : coordinate i (u + v) = coordinate i u + coordinate i v
  sub (i : Index) (u v : V) : coordinate i (u - v) = coordinate i u - coordinate i v
  mul (i : Index) (v : V) (a : K) : coordinate i (v * a) = coordinate i v * a

namespace Coordinates

instance (priority := low) (K V : Type) [Field K] [Add V] [Sub V] [HMul V K V] [Coordinates K V] :
    Interpolant K V where
  one v := ext fun i : Index K V => by rw [mul, mul_one]
  zero u v := ext fun i : Index K V => by rw [add, mul, mul_zero, add_zero]

instance (K : Type) [Field K] : Coordinates K K where
  Index := Unit
  coordinate _ := id
  ext h := h ()
  add _ _ _ := rfl
  sub _ _ _ := rfl
  mul _ _ _ := rfl

instance (K : Type) [Field K] : Coordinates K (Vec2 K) where
  Index := Bool
  coordinate i v := if i then v.x else v.y
  ext h := Vec2.ext (h true) (h false)
  add i _ _ := by cases i <;> rfl
  sub i _ _ := by cases i <;> rfl
  mul i _ _ := by cases i <;> rfl

end Coordinates

namespace Spline

variable {K V : Type} [Field K] [LinearOrder K] [ElementaryFunctions K] [Add V] [Sub V] [HMul V K V]
  [Coordinates K V]

open Coordinates

/-! ## Cubics -/

/-- The coordinates of a cubic are the cubics of the coordinates. -/
theorem coordinate_hermite (i : Index K V) (x₁ x₂ : K) (y₁ y₂ m₁ m₂ : V) (t : K) :
    coordinate i (hermite x₁ x₂ y₁ y₂ m₁ m₂ t) = hermite x₁ x₂ (coordinate i y₁) (coordinate i y₂)
      (coordinate i m₁) (coordinate i m₂) t := by
  simp only [hermite, add, mul]

/-- The polynomial of a cubic, in powers of the distance from the start of the segment. -/
noncomputable def hermitePolynomial (x₁ x₂ y₁ y₂ m₁ m₂ : K) : K[X] :=
  let dx := x₂ - x₁
  let slope := (y₂ - y₁) / dx
  C ((m₁ + m₂ - 2 * slope) / dx ^ 2) * (X - C x₁) ^ 3 +
    C ((3 * slope - 2 * m₁ - m₂) / dx) * (X - C x₁) ^ 2 + C m₁ * (X - C x₁) + C y₁

/-- The polynomial of a segment is a cubic at most. -/
theorem natDegree_hermitePolynomial (x₁ x₂ y₁ y₂ m₁ m₂ : K) :
    (hermitePolynomial x₁ x₂ y₁ y₂ m₁ m₂).natDegree ≤ 3 := by
  have hpower (a : K) {n : Nat} (hn : n ≤ 3) : (C a * (X - C x₁) ^ n).natDegree ≤ 3 :=
    (natDegree_C_mul_le _ _).trans
      ((natDegree_pow_le_of_le n (natDegree_X_sub_C_le x₁)).trans (by rwa [mul_one]))
  have hlinear : (C m₁ * (X - C x₁)).natDegree ≤ 3 := by
    simpa using hpower m₁ (n := 1) (by norm_num)
  exact natDegree_add_le_of_degree_le
    (natDegree_add_le_of_degree_le
      (natDegree_add_le_of_degree_le (hpower _ le_rfl) (hpower _ (by norm_num))) hlinear)
    ((natDegree_C y₁).trans_le (Nat.zero_le 3))

/-- The polynomial has the values of the cubic, on a segment that is not empty. -/
theorem eval_hermitePolynomial {x₁ x₂ : K} (h : x₁ ≠ x₂) (y₁ y₂ m₁ m₂ t : K) :
    (hermitePolynomial x₁ x₂ y₁ y₂ m₁ m₂).eval t = hermite x₁ x₂ y₁ y₂ m₁ m₂ t := by
  have hdx : x₂ - x₁ ≠ 0 := sub_ne_zero.2 h.symm
  simp only [hermitePolynomial, hermite, Exact.ofNat_eq, eval_add, eval_mul, eval_C, eval_pow,
    eval_sub, eval_X]
  field_simp
  push_cast
  ring

/-- The slope of the polynomial, in the distance from the start as a part of the segment. -/
theorem derivative_hermitePolynomial (x₁ x₂ y₁ y₂ m₁ m₂ t : K) :
    (hermitePolynomial x₁ x₂ y₁ y₂ m₁ m₂).derivative.eval t =
      3 * (m₁ + m₂ - 2 * ((y₂ - y₁) / (x₂ - x₁))) * ((t - x₁) / (x₂ - x₁)) ^ 2 +
        2 * (3 * ((y₂ - y₁) / (x₂ - x₁)) - 2 * m₁ - m₂) * ((t - x₁) / (x₂ - x₁)) + m₁ := by
  simp only [hermitePolynomial, derivative_add, derivative_C_mul, derivative_X_sub_C_pow,
    derivative_sub, derivative_X, derivative_C, eval_add, eval_mul, eval_C, eval_pow, eval_sub,
    eval_X, eval_one, eval_zero]
  generalize x₂ - x₁ = dx
  push_cast
  ring

/-- A function is a cubic whose derivative at a number is the given slope. -/
def HasSlope (f : K → V) (slope : V) (t : K) : Prop :=
  ∀ i : Index K V, ∃ p : K[X], p.natDegree ≤ 3 ∧ (∀ t, coordinate i (f t) = p.eval t) ∧
    coordinate i slope = p.derivative.eval t

section
variable {x₁ x₂ : K} {y₁ y₂ m₁ m₂ : V}

/-- A cubic has the slope that its polynomials have in all coordinates. -/
theorem hasSlope_hermite {slope : V} {t : K} (h : x₁ ≠ x₂)
    (hslope : ∀ i : Index K V, coordinate i slope = (hermitePolynomial x₁ x₂ (coordinate i y₁)
      (coordinate i y₂) (coordinate i m₁) (coordinate i m₂)).derivative.eval t) :
    HasSlope (hermite x₁ x₂ y₁ y₂ m₁ m₂) slope t := fun i =>
  ⟨_, natDegree_hermitePolynomial .., fun t => by
    rw [coordinate_hermite, eval_hermitePolynomial h], hslope i⟩

/-- At the start of a segment the slope is the first of the two that are given. -/
theorem hasSlope_start (h : x₁ ≠ x₂) : HasSlope (hermite x₁ x₂ y₁ y₂ m₁ m₂) m₁ x₁ := by
  refine hasSlope_hermite h fun i => ?_
  rw [derivative_hermitePolynomial, sub_self, zero_div]
  ring

/-- At the end of a segment the slope is the second of the two that are given. -/
theorem hasSlope_end (h : x₁ ≠ x₂) : HasSlope (hermite x₁ x₂ y₁ y₂ m₁ m₂) m₂ x₂ := by
  refine hasSlope_hermite h fun i => ?_
  rw [derivative_hermitePolynomial, div_self (sub_ne_zero.2 h.symm)]
  ring

/-- A cubic ends with its second value. -/
theorem hermite_end (h : x₁ ≠ x₂) : hermite x₁ x₂ y₁ y₂ m₁ m₂ x₂ = y₂ := by
  have hdx : x₂ - x₁ ≠ 0 := sub_ne_zero.2 h.symm
  refine ext fun i : Index K V => ?_
  rw [coordinate_hermite, ← eval_hermitePolynomial h]
  simp only [hermitePolynomial, eval_add, eval_mul, eval_C, eval_pow, eval_sub, eval_X]
  field_simp
  ring

end

/-! ## Splines -/

variable {s : Spline K V} {i : Nat} {t : K}

/-- On each segment, both ends included, a spline is the cubic of the segment. -/
theorem eval_piece (hi : i + 1 < s.knots.size) (hlo : s.knots[i] ≤ t)
    (hhi : t ≤ s.knots[i + 1]) : s.eval t = s.piece i hi t := by
  have hknots : s.knots[i] < s.knots[i + 1] := knots_lt i.lt_succ_self hi
  rcases hhi.eq_or_lt with rfl | hhi
  · rw [eval_knot hi]
    exact (hermite_end hknots.ne).symm
  rcases hlo.eq_or_lt with rfl | hlt
  · rw [eval_knot (Nat.lt_of_succ_lt hi)]
    exact (hermite_start ..).symm
  have hfirst : s.first < t := (knots_le i.zero_le (by omega)).trans_lt hlt
  have hlast : t < s.last := hhi.trans_le (knots_le (by omega) s.last_lt)
  rw [eval_of_inside hfirst hlast]
  simp only [segment_eq hi hlo hhi]

/-- The pieces of a spline fit together without a jump and without a corner. -/
structure Smooth (s : Spline K V) : Prop where
  through : ∀ i, (hi : i < s.knots.size) → s.eval s.knots[i] = s.sample i hi
  pieces : ∀ i, (hi : i + 1 < s.knots.size) → ∀ t, s.knots[i] ≤ t → t ≤ s.knots[i + 1] →
    s.eval t = s.piece i hi t
  continuous : ∀ i, (hi : i + 2 < s.knots.size) →
    s.piece i (by omega) s.knots[i + 1] = s.piece (i + 1) hi s.knots[i + 1]
  slope : ∀ i, (hi : i + 2 < s.knots.size) → ∃ slope,
    HasSlope (s.piece i (by omega)) slope s.knots[i + 1] ∧
      HasSlope (s.piece (i + 1) hi) slope s.knots[i + 1]

/-- In exact arithmetic all splines are smooth. At a knot between two segments the slope of both is
taken between the samples next to the knot, the one before and the one behind. -/
theorem smooth (s : Spline K V) : s.Smooth where
  through _ := eval_knot
  pieces _ hi _ := eval_piece hi
  continuous i hi := by
    have hknots : s.knots[i] < s.knots[i + 1] := knots_lt i.lt_succ_self (by omega)
    exact (hermite_end hknots.ne).trans (hermite_start ..).symm
  slope i hi := by
    have hbefore : s.knots[i] < s.knots[i + 1] := knots_lt i.lt_succ_self (by omega)
    have hbehind : s.knots[i + 1] < s.knots[i + 2] := knots_lt (i + 1).lt_succ_self hi
    have hmin : min (i + 2) (s.knots.size - 1) = i + 2 := by omega
    refine ⟨_, hasSlope_end hbefore.ne, ?_⟩
    have hstart : HasSlope (s.piece (i + 1) hi) _ s.knots[i + 1] := hasSlope_start hbehind.ne
    simp only [hmin]
    exact hstart

end Spline

/-! ## Every spline -/

/-- Every spline of doubles is sound, and so is every spline in exact arithmetic, which is also
smooth. -/
theorem Spline.sound_and_smooth {U : Type} [Add U] [Sub U] [HMul U Float U] {K V : Type} [Field K]
    [LinearOrder K] [ElementaryFunctions K] [Add V] [Sub V] [HMul V K V] [Coordinates K V] :
    (∀ (knots : Array Float) (samples : Array U) (tension : Float) (s : Spline Float U),
      ofKnots knots samples tension = .ok s → s.Sound knots samples tension) ∧
    ∀ (knots : Array K) (samples : Array V) (tension : K) (s : Spline K V),
      ofKnots knots samples tension = .ok s → s.Sound knots samples tension ∧ s.Smooth :=
  ⟨fun _ _ _ _ => sound, fun _ _ _ s h => ⟨sound h, s.smooth⟩⟩

/-- Three knots that are not evenly spaced, with rounding and without. -/
theorem Spline.sound_and_smooth_three_knots :
    (∃ s : Spline Float Float, ofKnots #[0, 1, 3] #[5, 2, 4] 0.5 = .ok s ∧
      s.Sound #[0, 1, 3] #[5, 2, 4] 0.5) ∧
    ∃ s : Spline ℝ (Vec2 ℝ), ofKnots #[0, 1, 3] #[⟨5, 1⟩, ⟨2, 0⟩, ⟨4, -1⟩] (1 / 2) = .ok s ∧
      s.Sound #[0, 1, 3] #[⟨5, 1⟩, ⟨2, 0⟩, ⟨4, -1⟩] (1 / 2) ∧ s.Smooth := by
  have hfloat : ∃ s : Spline Float Float, ofKnots #[0, 1, 3] #[5, 2, 4] 0.5 = .ok s :=
    ⟨⟨#[0, 1, 3], #[5, 2, 4], 0.5, by decide, by decide, by decide +kernel, by decide +kernel⟩,
      ofKnots_eq_ok_iff.2 ⟨rfl, rfl, rfl⟩⟩
  obtain ⟨s, hs⟩ := hfloat
  have hsize : (#[⟨5, 1⟩, ⟨2, 0⟩, ⟨4, -1⟩] : Array (Vec2 ℝ)).size =
      (#[0, 1, 3] : Array ℝ).size := rfl
  obtain ⟨r, hr, -⟩ := exists_ofKnots hsize (by decide) (by simp) (1 / 2)
  exact ⟨⟨s, hs, (sound_and_smooth (K := ℝ) (V := ℝ)).1 _ _ _ s hs⟩,
    ⟨r, hr, (sound_and_smooth (U := Float)).2 _ _ _ r hr⟩⟩

end SurfaceGeometry
