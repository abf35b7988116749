import SurfaceGeometry.Proofs.Exact.Real
import SurfaceGeometry.Proofs.Geometry.Rotational

/-!
# The surface around a black hole

In exact real arithmetic the surface around a black hole is the surface of revolution that its
radius and its height describe (`Optical.surface_of_revolution`): its metric is that of the profile,
and so are the accelerations of geodesics and the rates of carried vectors. The height is only known
by its slope.
-/

namespace SurfaceGeometry

namespace Optical

open Filter Topology

variable {R u v : ℝ}

/-- The range of the radius starts at one and a half Schwarzschild radii, where light can go around
in a circle. -/
theorem lo_eq (R : ℝ) : (domain R).lo = 3 / 2 * R := by
  simp only [domain, Exact.ofScientific_eq]
  norm_num

/-- The range of the radius ends at thirty Schwarzschild radii. -/
theorem hi_eq (R : ℝ) : (domain R).hi = 30 * R := rfl

/-- Where the surface can be embedded: the slope of the height is a number there. -/
structure Embeds (R u : ℝ) : Prop where
  pos : 0 < R
  outside : R < u
  steep : 9 * R < 8 * u

namespace Embeds

/-- The distance from the Schwarzschild radius is positive. -/
theorem difference_pos (h : Embeds R u) : 0 < u - R := sub_pos.2 h.outside

/-- The radius is positive. -/
theorem radius_pos (h : Embeds R u) : 0 < u := h.pos.trans h.outside

/-- Where the surface can be embedded, it can be nearby, so that there are derivatives to speak of.
-/
theorem eventually (h : Embeds R u) : ∀ᶠ v in 𝓝 u, Embeds R v := by
  have hsteep : 9 * R / 8 < u := by linarith [h.steep]
  filter_upwards [lt_mem_nhds h.outside, lt_mem_nhds hsteep] with v hv hv'
  exact ⟨h.pos, hv, by linarith⟩

/-- Where the surface can be embedded, it can be further outside. -/
theorem mono (h : Embeds R u) (huv : u ≤ v) : Embeds R v :=
  ⟨h.pos, h.outside.trans_le huv, h.steep.trans_le (by linarith)⟩

/-- From the start of the range of the radius on. -/
theorem of_lo_le (hR : 0 < R) (hu : (domain R).lo ≤ u) : Embeds R u := by
  rw [lo_eq] at hu
  exact ⟨hR, by linarith, by linarith⟩

/-- The whole range of the radius that the surface is built for. -/
theorem of_contains (hR : 0 < R) (hu : (domain R).contains u = true) : Embeds R u :=
  of_lo_le hR (of_decide_eq_true (Bool.and_eq_true_iff.1 hu).1)

end Embeds

/-! ## The radius -/

/-- The square of the distance from the axis, which is the coefficient of the metric around the
axis. -/
theorem axisDistance_mul_self (h : Embeds R u) :
    axisDistance R u * axisDistance R u = u ^ 3 / (u - R) := by
  have hu := h.radius_pos
  have hpos : 0 ≤ u * u * u / (u - R) := div_nonneg (by positivity) h.difference_pos.le
  have hsquare : axisDistance R u * axisDistance R u = u * u * u / (u - R) :=
    Real.mul_self_sqrt hpos
  rw [hsquare]
  ring

/-- No point is on the axis. -/
theorem axisDistance_ne_zero (h : Embeds R u) : axisDistance R u ≠ 0 := by
  have hpos : 0 < u ^ 3 / (u - R) := div_pos (pow_pos h.radius_pos 3) h.difference_pos
  rw [← axisDistance_mul_self h] at hpos
  exact left_ne_zero_of_mul hpos.ne'

/-- The derivative of the distance from the axis, by the coefficient of the metric and its
derivative. -/
theorem hasDerivAt_axisDistance (h : Embeds R u) :
    HasDerivAt (axisDistance R) ((rotational R u).dG / (2 * axisDistance R u)) u := by
  have hdifference := h.difference_pos.ne'
  have hG : HasDerivAt (fun v => v * v * v / (v - R)) (rotational R u).dG u := by
    have hcube := ((hasDerivAt_id u).mul (hasDerivAt_id u)).mul (hasDerivAt_id u)
    refine (hcube.div ((hasDerivAt_id u).sub_const R) hdifference).congr_deriv ?_
    simp only [rotational, Pi.mul_apply, id_eq]
    ring
  have hne : u * u * u / (u - R) ≠ 0 := by
    have hu := h.radius_pos.ne'
    positivity
  exact hG.sqrt hne

/-- The same as an equation of the derivative, which is needed to differentiate once more. -/
theorem deriv_axisDistance (h : Embeds R u) :
    deriv (axisDistance R) u = (rotational R u).dG / (2 * axisDistance R u) :=
  (hasDerivAt_axisDistance h).deriv

/-- The distance from the axis can be differentiated twice. -/
theorem differentiableAt_deriv_axisDistance (h : Embeds R u) :
    DifferentiableAt ℝ (deriv (axisDistance R)) u := by
  have hformula : deriv (axisDistance R) =ᶠ[𝓝 u]
      fun v => v ^ 2 * (2 * v - 3 * R) / (v - R) ^ 2 / (2 * axisDistance R v) :=
    h.eventually.mono fun v hv => deriv_axisDistance hv
  refine DifferentiableAt.congr_of_eventuallyEq ?_ hformula
  have hdifference := pow_ne_zero 2 h.difference_pos.ne'
  have hdistance := mul_ne_zero two_ne_zero (axisDistance_ne_zero h)
  have haxis := (hasDerivAt_axisDistance h).differentiableAt
  fun_prop (disch := assumption)

/-! ## The height -/

/-- The slope of the height is a square root. -/
theorem heightSlope_eq (R u : ℝ) :
    heightSlope R u = √(u * R * (8 * u - 9 * R) / (4 * (u - R) ^ 3)) := by
  show √(u * R * (8 * u - 9 * R) / (4 * Scalar.powInt (u - R) 3)) = _
  rw [Exact.powInt_eq]
  rfl

/-- The number under the root is positive. -/
theorem steepness_pos (h : Embeds R u) : 0 < u * R * (8 * u - 9 * R) / (4 * (u - R) ^ 3) := by
  have hsteep : 0 < 8 * u - 9 * R := sub_pos.2 h.steep
  have hdifference := h.difference_pos
  have hu := h.radius_pos
  have hR := h.pos
  positivity

/-- The square of the slope of the height. -/
theorem heightSlope_mul_self (h : Embeds R u) :
    heightSlope R u * heightSlope R u = u * R * (8 * u - 9 * R) / (4 * (u - R) ^ 3) := by
  rw [heightSlope_eq]
  exact Real.mul_self_sqrt (steepness_pos h).le

/-- The slope of the height can be differentiated. -/
theorem differentiableAt_heightSlope (h : Embeds R u) : DifferentiableAt ℝ (heightSlope R) u := by
  have hformula : heightSlope R = fun v => √(v * R * (8 * v - 9 * R) / (4 * (v - R) ^ 3)) :=
    funext (heightSlope_eq R)
  have hdifference : 4 * (u - R) ^ 3 ≠ 0 :=
    mul_ne_zero four_ne_zero (pow_ne_zero 3 h.difference_pos.ne')
  have hpos := (steepness_pos h).ne'
  rw [hformula]
  fun_prop (disch := assumption)

/-! ## The profile -/

/-- The profile that the radius and the slope of the height describe, with the derivatives of both.
-/
structure IsProfile (R u : ℝ) (j : ProfileJet ℝ) : Prop where
  r : j.r = axisDistance R u
  dr : HasDerivAt (axisDistance R) j.dr u
  ddr : HasDerivAt (deriv (axisDistance R)) j.ddr u
  dh : j.dh = heightSlope R u
  ddh : HasDerivAt (heightSlope R) j.ddh u

/-- There is a profile at every radius where the surface can be embedded, with any height that one
likes. -/
theorem exists_isProfile (h : Embeds R u) (height : ℝ) :
    ∃ j, IsProfile R u j ∧ j.h = height :=
  ⟨⟨axisDistance R u, _, _, height, heightSlope R u, _⟩,
    ⟨rfl, hasDerivAt_axisDistance h, (differentiableAt_deriv_axisDistance h).hasDerivAt, rfl,
      (differentiableAt_heightSlope h).hasDerivAt⟩, rfl⟩

/-- The squares of both slopes add up to the coefficient of the metric along the radius. -/
theorem slopes_mul_self (h : Embeds R u) :
    deriv (axisDistance R) u * deriv (axisDistance R) u + heightSlope R u * heightSlope R u =
      (rotational R u).E := by
  have hu := h.radius_pos.ne'
  have hdifference := h.difference_pos.ne'
  have hslope : deriv (axisDistance R) u * deriv (axisDistance R) u =
      (rotational R u).dG ^ 2 / (4 * (u ^ 3 / (u - R))) := by
    rw [deriv_axisDistance h, div_mul_div_comm, ← axisDistance_mul_self h]
    ring
  rw [hslope, heightSlope_mul_self h]
  simp only [rotational]
  field_simp
  ring

/-- The derivative of the radial coefficient of the metric is the one that the formulas use. -/
theorem hasDerivAt_E (h : Embeds R u) :
    HasDerivAt (fun v => (rotational R v).E) (rotational R u).dE u := by
  have hdifference := h.difference_pos.ne'
  have hsquare := ((hasDerivAt_id u).sub_const R).pow 2
  refine (((hasDerivAt_id u).pow 2).div hsquare (pow_ne_zero 2 hdifference)).congr_deriv ?_
  simp only [rotational, Pi.pow_apply, id_eq]
  field_simp
  ring

/-- The profile has the line element of the metric of light, with its derivatives. -/
theorem IsProfile.rotational_eq {j : ProfileJet ℝ} (hj : IsProfile R u j) (h : Embeds R u) :
    j.rotational = rotational R u := by
  have hdr : j.dr = deriv (axisDistance R) u := hj.dr.deriv.symm
  -- Around `u` the coefficient is the sum of the squared slopes, so it has their derivative too.
  have hspeed : HasDerivAt (fun v => (rotational R v).E)
      (j.ddr * j.dr + j.dr * j.ddr + (j.ddh * j.dh + j.dh * j.ddh)) u := by
    have hsum := (hj.ddr.mul hj.ddr).add (hj.ddh.mul hj.ddh)
    rw [← hdr, ← hj.dh] at hsum
    exact hsum.congr_of_eventuallyEq (h.eventually.mono fun v hv => (slopes_mul_self hv).symm)
  apply RotationalJet.ext
  · show j.dr * j.dr + j.dh * j.dh = _
    rw [hdr, hj.dh, slopes_mul_self h]
  · show j.r * j.r = _
    rw [hj.r, axisDistance_mul_self h]
    rfl
  · show 2 * (j.dr * j.ddr + j.dh * j.ddh) = _
    rw [← hspeed.unique (hasDerivAt_E h)]
    ring
  · show 2 * (j.r * j.dr) = _
    rw [hdr, hj.r, deriv_axisDistance h]
    have hdistance := axisDistance_ne_zero h
    field_simp

/-! ## The surface of revolution -/

/-- The metric is that of the rotational coefficients. -/
theorem metric_eq (R u : ℝ) : metric R u = ((rotational R u).E, (rotational R u).G) := by
  simp only [metric, rotational]
  congr 1 <;> ring

/-- Around every black hole, wherever the surface can be embedded, as it can on the whole range of
the radius, there is the profile of a surface of revolution; its metric is that of light, and
geodesics and carried vectors are the same. -/
theorem surface_of_revolution (hR : 0 < R) :
    (∀ u, (domain R).contains u = true → R < u ∧ 9 * R < 8 * u) ∧
    ∀ u, R < u → 9 * R < 8 * u → (∀ height, ∃ j, IsProfile R u j ∧ j.h = height) ∧
      ∀ j, IsProfile R u j →
        j.r * j.r = (metric R u).2 ∧ j.speedSquared = (metric R u).1 ∧
        ∀ θ vel, j.acceleration vel = acceleration R ⟨⟨u, θ⟩, vel⟩ ∧
          ∀ v, j.transportRate vel v = transportRate R ⟨⟨u, θ⟩, vel⟩ v := by
  refine ⟨fun u hu => ?_, fun u houtside hsteep => ?_⟩
  · have h := Embeds.of_contains hR hu
    exact ⟨h.outside, h.steep⟩
  have h : Embeds R u := ⟨hR, houtside, hsteep⟩
  refine ⟨exists_isProfile h, fun j hj => ⟨?_, ?_, fun θ vel => ?_⟩⟩
  · rw [metric_eq, ← hj.rotational_eq h]
    rfl
  · rw [metric_eq, ← hj.rotational_eq h]
    rfl
  have hr : j.r ≠ 0 := hj.r ▸ axisDistance_ne_zero h
  have hhole : (fun w => transportRate R ⟨⟨u, θ⟩, w⟩) = (rotational R u).transportRate :=
    transportRate_eq h.radius_pos.ne' houtside.ne'
  have htransport (w v : Vec2 ℝ) : j.transportRate w v = transportRate R ⟨⟨u, θ⟩, w⟩ v := by
    rw [ProfileJet.transportRate_eq hr, hj.rotational_eq h]
    exact (congrFun₂ hhole w v).symm
  have hacceleration : acceleration R ⟨⟨u, θ⟩, vel⟩ = transportRate R ⟨⟨u, θ⟩, vel⟩ vel :=
    acceleration_eq_transportRate h.radius_pos.ne' houtside.ne' vel
  refine ⟨?_, htransport vel⟩
  rw [hacceleration, j.acceleration_eq_transportRate, htransport]

/-- At two Schwarzschild radii. -/
theorem surface_of_revolution_two_radii :
    (0 : ℝ) < 1 ∧ (1 : ℝ) < 2 ∧ (9 * 1 : ℝ) < 8 * 2 ∧
      ∃ j, IsProfile 1 2 j ∧ j.r * j.r = 8 ∧ j.speedSquared = 4 ∧
        ∀ vel v, j.transportRate vel v = transportRate 1 ⟨⟨2, 0⟩, vel⟩ v := by
  obtain ⟨-, hall⟩ := surface_of_revolution (R := 1) one_pos
  obtain ⟨hprofile, hjet⟩ := hall 2 (by norm_num) (by norm_num)
  obtain ⟨j, hj, -⟩ := hprofile 0
  obtain ⟨hG, hE, hsame⟩ := hjet j hj
  refine ⟨one_pos, by norm_num, by norm_num, j, hj, ?_, ?_, fun vel => (hsame 0 vel).2⟩
  · rw [hG, metric]
    norm_num
  · rw [hE, metric]
    norm_num

end Optical

end SurfaceGeometry
