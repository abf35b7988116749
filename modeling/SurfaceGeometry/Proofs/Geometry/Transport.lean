import SurfaceGeometry.Proofs.Exact.Real
import SurfaceGeometry.Proofs.Geometry.Rotational

/-!
# Carried vectors and geodesics

On all three kinds of surfaces, two vectors that are carried along a curve keep their inner product
(`keepsInner_germ`), and the acceleration of a geodesic is the rate at which it carries its own
velocity (`autoparallel_germ`). On surfaces with a rotation both follow from the coefficients of the
line element; for a graph surface everything goes by the first and second derivatives along vectors
(`GraphJet.climb`, `GraphJet.bend`).
-/

namespace SurfaceGeometry

namespace GraphJet

section
variable {α : Type} [Scalar α]

/-- The gradient of the height. -/
def gradient (j : GraphJet α) : Vec2 α := ⟨j.fx, j.fy⟩

/-- The derivative along a vector. -/
def climb (j : GraphJet α) (v : Vec2 α) : α := j.fx * v.x + j.fy * v.y

/-- The second derivative along two vectors. -/
def bend (j : GraphJet α) (v w : Vec2 α) : α :=
  j.fxx * v.x * w.x + j.fxy * (v.x * w.y + v.y * w.x) + j.fyy * v.y * w.y

/-- The rate of a carried vector goes along the gradient. -/
theorem transportRate_eq (j : GraphJet α) (vel v : Vec2 α) :
    j.transportRate vel v = j.gradient * (-j.bend vel v / j.metricFactor) := rfl

end

variable {K : Type} [Field K] [LinearOrder K] [ElementaryFunctions K]

/-- The metric factor is positive, one more than a sum of squares. -/
theorem metricFactor_pos [IsStrictOrderedRing K] (j : GraphJet K) : 0 < j.metricFactor := by
  have hx := mul_self_nonneg j.fx
  have hy := mul_self_nonneg j.fy
  simp only [metricFactor, Exact.one_eq]
  linarith

/-! ## The second derivative -/

/-- The second derivative along two vectors is symmetric. -/
theorem bend_symm (j : GraphJet K) (v w : Vec2 K) : j.bend v w = j.bend w v := by
  unfold bend
  ring

/-- The second derivative is additive in a vector. -/
theorem bend_add (j : GraphJet K) (u v w : Vec2 K) :
    j.bend u (v + w) = j.bend u v + j.bend u w := by
  simp only [bend, Vec2.add_x, Vec2.add_y]
  ring

/-- The second derivative is homogeneous in a vector. -/
theorem bend_mul (j : GraphJet K) (v w : Vec2 K) (s : K) : j.bend v (w * s) = j.bend v w * s := by
  simp only [bend, Vec2.mul_x, Vec2.mul_y]
  ring

/-- On graphs the rate of a carried vector is symmetric and bilinear. -/
theorem bilinear (j : GraphJet K) : SymmetricBilinear j.transportRate where
  symm v w := by rw [transportRate_eq, transportRate_eq, bend_symm]
  add u v w := by
    simp only [transportRate_eq, bend_add]
    apply Vec2.ext
    · simp only [Vec2.mul_x, Vec2.add_x]
      ring
    · simp only [Vec2.mul_y, Vec2.add_y]
      ring
  mul v w s := by
    simp only [transportRate_eq, bend_mul]
    apply Vec2.ext
    · simp only [Vec2.mul_x]
      ring
    · simp only [Vec2.mul_y]
      ring

/-- The acceleration of a geodesic on a graph is the rate of its own carried velocity. -/
theorem acceleration_eq_transportRate (j : GraphJet K) (vel : Vec2 K) :
    j.acceleration vel = j.transportRate vel vel := by
  have hbend : j.fxx * vel.x * vel.x + 2 * j.fxy * vel.x * vel.y + j.fyy * vel.y * vel.y =
      j.bend vel vel := by
    unfold bend
    ring
  rw [transportRate_eq, ← hbend]
  rfl

/-! ## Inner products -/

/-- The inner product with the gradient is the derivative along the vector, times the metric factor.
-/
theorem inner_gradient (j : GraphJet K) (s : K) (v : Vec2 K) :
    j.lineElement.inner (j.gradient * s) v = s * j.metricFactor * j.climb v := by
  simp only [LineElement.inner, lineElement, gradient, metricFactor, climb, Vec2.mul_x, Vec2.mul_y]
  ring

/-- The inner product of a rate of a carried vector with any vector. The metric factor cancels the
divisor, which is where it is needed that this is not zero. -/
theorem inner_transportRate [IsStrictOrderedRing K] (j : GraphJet K) (vel v w : Vec2 K) :
    j.lineElement.inner (j.transportRate vel v) w = -(j.bend vel v * j.climb w) := by
  rw [transportRate_eq, inner_gradient, div_mul_cancel₀ _ j.metricFactor_pos.ne', neg_mul]

/-- Along a curve the line element starts with its value at the point. -/
theorem value_lineElement_along (j : GraphJet K) (third : ThirdPartials K) (vel : Vec2 K) :
    (j.along third vel).lineElement.value = j.lineElement := by
  simp [LineElement.value, lineElement, along]

/-- The rate of the line element along a curve, by the rule for products. It cancels what the
carried vectors change by (`inner_transportRate`). -/
theorem rate_lineElement_along (j : GraphJet K) (third : ThirdPartials K) (vel v w : Vec2 K) :
    (j.along third vel).lineElement.rate.inner v w =
      j.bend vel v * j.climb w + j.climb v * j.bend vel w := by
  simp only [LineElement.rate, LineElement.inner, lineElement, along, bend, climb, Dual.ofNat_eq,
    Dual.snd_add, Dual.snd_mul, Dual.fst_changing, Dual.snd_changing]
  ring

/-- What the line element changes is made good by the rates of the two vectors, one each. -/
theorem keepsInner [IsStrictOrderedRing K] (j : GraphJet K) (third : ThirdPartials K) :
    (j.germ third).KeepsInner := by
  intro vel v w
  calc (j.germ third).innerRate vel v (j.transportRate vel v) w (j.transportRate vel w)
      = (j.along third vel).lineElement.rate.inner v w +
          j.lineElement.inner (j.transportRate vel v) w +
          j.lineElement.inner (j.transportRate vel w) v := by
        rw [← value_lineElement_along j third vel, LineElement.inner_comm _ _ v]
        exact LineElement.snd_inner_moving ..
    _ = j.bend vel v * j.climb w + j.climb v * j.bend vel w - j.bend vel v * j.climb w -
          j.bend vel w * j.climb v := by
        rw [rate_lineElement_along, inner_transportRate, inner_transportRate]
        ring
    _ = 0 := by ring

end GraphJet

variable {K : Type} [Field K] [LinearOrder K] [ElementaryFunctions K] [IsStrictOrderedRing K]

/-- Surfaces of revolution keep the inner products of carried vectors, off the axis and where the
profile has a direction. -/
theorem ProfileJet.keepsInner {j : ProfileJet K} (hE : j.speedSquared ≠ 0) (hr : j.r ≠ 0)
    (dddr dddh : K) : (j.germ dddr dddh).KeepsInner :=
  (describes_rotational hr dddr dddh).keepsInner hE (mul_ne_zero hr hr)

/-- Black holes keep the inner products of carried vectors, except at the centre and on the horizon.
-/
theorem Optical.keepsInner {R : K} {pos : Vec2 K} (h0 : pos.x ≠ 0) (hR : pos.x ≠ R) :
    (germ R pos).KeepsInner := by
  have hdifference : pos.x - R ≠ 0 := sub_ne_zero.2 hR
  exact (describes_rotational h0 hR).keepsInner (div_ne_zero (pow_ne_zero 2 h0)
    (pow_ne_zero 2 hdifference)) (div_ne_zero (pow_ne_zero 3 h0) hdifference)

/-! ## All surfaces -/

/-- On a graph surface, on a surface of revolution off its axis and where its profile has a
direction, and around a black hole outside its Schwarzschild radius, carried vectors keep their
inner product. -/
theorem keepsInner_germ :
    (∀ (j : GraphJet K) (third : ThirdPartials K), (j.germ third).KeepsInner) ∧
    (∀ (j : ProfileJet K) (dddr dddh : K), j.speedSquared ≠ 0 → j.r ≠ 0 →
      (j.germ dddr dddh).KeepsInner) ∧
    ∀ (R : K) (pos : Vec2 K), 0 < R → R < pos.x → (Optical.germ R pos).KeepsInner := by
  refine ⟨GraphJet.keepsInner, fun j dddr dddh hE hr => j.keepsInner hE hr dddr dddh,
    fun R pos hpos hu => ?_⟩
  exact Optical.keepsInner (hpos.trans hu).ne' hu.ne'

/-- A profile that leans outwards, and a black hole at three Schwarzschild radii. -/
theorem keepsInner_germ_leaning :
    let j : ProfileJet ℝ := ⟨2, 3, 1, 1, 1, -1⟩
    j.speedSquared ≠ 0 ∧ j.r ≠ 0 ∧ (j.germ 0 0).KeepsInner ∧
      (0 : ℝ) < 1 ∧ (1 : ℝ) < 3 ∧ (Optical.germ (1 : ℝ) ⟨3, 0⟩).KeepsInner := by
  intro j
  have hE : j.speedSquared ≠ 0 := by norm_num [j, ProfileJet.speedSquared]
  have hr : j.r ≠ 0 := two_ne_zero
  obtain ⟨-, hprofile, hhole⟩ := keepsInner_germ (K := ℝ)
  have hu : (1 : ℝ) < 3 := by norm_num
  exact ⟨hE, hr, hprofile j 0 0 hE hr, one_pos, hu, hhole 1 ⟨3, 0⟩ one_pos hu⟩

/-- On a graph surface, on a surface of revolution off its axis and where its profile has a
direction, and around a black hole where its formulas are defined, geodesics carry their own
velocity. -/
theorem autoparallel_germ :
    (∀ (j : GraphJet K) (third : ThirdPartials K), (j.germ third).Autoparallel) ∧
    (∀ (j : ProfileJet K) (dddr dddh : K), j.speedSquared ≠ 0 → j.r ≠ 0 →
      (j.germ dddr dddh).Autoparallel) ∧
    ∀ (R : K) (pos : Vec2 K), pos.x ≠ 0 → pos.x ≠ R → (Optical.germ R pos).Autoparallel := by
  refine ⟨fun j third => ?_, fun j dddr dddh hE hr => ?_, fun R pos h0 hR => ?_⟩
  · exact (j.keepsInner third).autoparallel j.acceleration_eq_transportRate j.bilinear
  · exact (j.keepsInner hE hr dddr dddh).autoparallel j.acceleration_eq_transportRate
      (ProfileJet.describes_rotational hr dddr dddh).bilinear
  · exact (Optical.keepsInner h0 hR).autoparallel (Optical.acceleration_eq_transportRate h0 hR)
      (Optical.describes_rotational h0 hR).bilinear

/-- A profile that closes upwards, and a black hole inside its Schwarzschild radius. -/
theorem autoparallel_germ_closing :
    let j : ProfileJet ℝ := ⟨3, -1, -2, 1, 2, 1⟩
    j.speedSquared ≠ 0 ∧ j.r ≠ 0 ∧ (j.germ 0 0).Autoparallel ∧
      (1 : ℝ) ≠ 0 ∧ (1 : ℝ) ≠ 2 ∧ (Optical.germ (2 : ℝ) ⟨1, 0⟩).Autoparallel := by
  intro j
  have hE : j.speedSquared ≠ 0 := by norm_num [j, ProfileJet.speedSquared]
  have hr : j.r ≠ 0 := three_ne_zero
  obtain ⟨-, hprofile, hhole⟩ := autoparallel_germ (K := ℝ)
  have hR : (1 : ℝ) ≠ 2 := by norm_num
  exact ⟨hE, hr, hprofile j 0 0 hE hr, one_ne_zero, hR, hhole 2 ⟨1, 0⟩ one_ne_zero hR⟩

end SurfaceGeometry
