import SurfaceGeometry.Proofs.Geometry.Optical
import SurfaceGeometry.Proofs.Geometry.Scaling
import SurfaceGeometry.Proofs.Outcome
import SurfaceGeometry.Surface.BlackHole

/-!
# Black holes at another scale

A black hole of `s` times the Schwarzschild radius is the same black hole seen at `s` times the size
(`BlackHoleSurface.exists_scales`): its range, its radius and its height are `s` times as large, and
so is every point of its geodesics. The slope of the height has no unit, so the integration of the
height makes the same steps at both scales.
-/

namespace SurfaceGeometry

namespace Optical

variable {s : ℝ}

/-! ## Formulas -/

/-- The slope of the height does not change with the scale, being a quotient of lengths. -/
theorem heightSlope_scale (hs : s ≠ 0) (R u : ℝ) :
    heightSlope (s * R) (s * u) = heightSlope R u := by
  rw [heightSlope_eq, heightSlope_eq]
  congr 1
  calc s * u * (s * R) * (8 * (s * u) - 9 * (s * R)) / (4 * (s * u - s * R) ^ 3)
      = s ^ 3 * (u * R * (8 * u - 9 * R)) / (s ^ 3 * (4 * (u - R) ^ 3)) := by ring
    _ = u * R * (8 * u - 9 * R) / (4 * (u - R) ^ 3) := mul_div_mul_left _ _ (pow_ne_zero 3 hs)

/-- The distance from the axis scales as a length. -/
theorem axisDistance_scale (hs : 0 < s) (R u : ℝ) :
    axisDistance (s * R) (s * u) = s * axisDistance R u := by
  have hratio : s * u * (s * u) * (s * u) / (s * u - s * R) = s ^ 2 * (u * u * u / (u - R)) := by
    calc s * u * (s * u) * (s * u) / (s * u - s * R)
        = s * (s ^ 2 * (u * u * u)) / (s * (u - R)) := by ring
      _ = s ^ 2 * (u * u * u / (u - R)) := by rw [mul_div_mul_left _ _ hs.ne', mul_div_assoc]
  show √(s * u * (s * u) * (s * u) / (s * u - s * R)) = s * √(u * u * u / (u - R))
  rw [hratio, Real.sqrt_mul (sq_nonneg s), Real.sqrt_sq hs.le]

/-- The acceleration of a geodesic scales in its radial part only, as the velocity does. -/
theorem acceleration_scale (hs : s ≠ 0) (R : ℝ) (state : TangentVector ℝ) :
    acceleration (s * R) (state.stretch s) = (acceleration R state).stretch s := by
  obtain ⟨⟨u, θ⟩, ⟨up, tp⟩⟩ := state
  have hs2 : s ^ 2 ≠ 0 := pow_ne_zero 2 hs
  have hradial : s * R * (s * up) * (s * up) / (s * u * (s * R - s * u)) =
      s * (R * up * up / (u * (R - u))) := by
    calc s * R * (s * up) * (s * up) / (s * u * (s * R - s * u))
        = s ^ 2 * (s * (R * up * up)) / (s ^ 2 * (u * (R - u))) := by ring
      _ = s * (R * up * up / (u * (R - u))) := by rw [mul_div_mul_left _ _ hs2, mul_div_assoc]
  apply Vec2.ext
  · simp only [acceleration, TangentVector.stretch, Vec2.stretch, hradial]
    ring
  · simp only [acceleration, TangentVector.stretch, Vec2.stretch]
    calc (2 * (s * u) - 3 * (s * R)) * (s * up) * tp / (s * u * (s * R - s * u))
        = s ^ 2 * ((2 * u - 3 * R) * up * tp) / (s ^ 2 * (u * (R - u))) := by ring
      _ = (2 * u - 3 * R) * up * tp / (u * (R - u)) := mul_div_mul_left _ _ hs2

/-! ## The range -/

/-- The start of the range of the radius scales as a length. -/
theorem lo_scale (s R : ℝ) : (domain (s * R)).lo = s * (domain R).lo :=
  mul_left_comm _ s R

/-- The end of the range of the radius scales as a length. -/
theorem hi_scale (s R : ℝ) : (domain (s * R)).hi = s * (domain R).hi :=
  mul_left_comm _ s R

/-- A radius is in the range just if the scaled radius is in the scaled range. -/
theorem contains_scale (hs : 0 < s) (R u : ℝ) :
    (domain (s * R)).contains (s * u) = (domain R).contains u := by
  unfold Interval.contains
  rw [lo_scale, hi_scale]
  congr 1
  · exact decide_eq_decide.2 (mul_le_mul_iff_right₀ hs)
  · exact decide_eq_decide.2 (mul_le_mul_iff_right₀ hs)

/-- The distance between two knots scales as a length. -/
theorem profileStep_scale (s R : ℝ) : profileStep (s * R) = s * profileStep R := by
  unfold profileStep Interval.width
  rw [lo_scale, hi_scale, ← mul_sub, mul_div_assoc]

/-- The knots have a positive distance. -/
theorem profileStep_pos {R : ℝ} (hR : 0 < R) : 0 < profileStep R := by
  have hwidth : (domain R).width = 57 / 2 * R := by
    rw [Interval.width, hi_eq, lo_eq]
    ring
  unfold profileStep
  rw [hwidth]
  exact div_pos (by positivity) (Nat.cast_pos.2 (by decide))

/-! ## The height profile -/

/-- The slope of the height is the same at the same place. -/
theorem heightSystem_scale (hs : s ≠ 0) (R t : ℝ) (state buffer : List ℝ) :
    heightSystem (s * R) (s * t) (RungeKutta.scale s state) buffer =
      heightSystem R t state buffer := by
  show RungeKutta.overwrite [heightSlope (s * R) (s * t)] buffer = _
  rw [heightSlope_scale hs]
  rfl

/-- The run of the integrator at one scale is that at the other, with all radii and heights
multiplied by the scale. -/
theorem heights_scale (hs : s ≠ 0) (R : ℝ) :
    heights (s * R) = (heights R).map fun entry => (s * entry.1, RungeKutta.scale s entry.2) := by
  have hworkspace : (RungeKutta.Workspace.ofDimension 1 : RungeKutta.Workspace ℝ).scale s =
      .ofDimension 1 := by
    simp [RungeKutta.Workspace.ofDimension, RungeKutta.Workspace.scale]
  have hstart : RungeKutta.scale s [0] = [0] := by simp
  have htrajectory := RungeKutta.trajectory_scale (heightSystem_scale hs R) (.ofDimension 1)
    (domain R).lo [0] (List.replicate profileSteps (profileStep R))
  rw [hworkspace, hstart, ← lo_scale, RungeKutta.scale, List.map_replicate, ← profileStep_scale]
    at htrajectory
  unfold heights
  simpa using htrajectory

/-- The knot behind a number of steps. -/
noncomputable def knot (R : ℝ) (i : Nat) : ℝ := (domain R).lo + profileStep R * (i : ℝ)

/-- The heights at the knots. -/
noncomputable def sampledHeights (R : ℝ) : List ℝ :=
  0 :: (heights R).map fun entry => entry.2.headD 0

/-- The first knot is the start of the range. -/
theorem knot_zero (R : ℝ) : knot R 0 = (domain R).lo := by
  rw [knot, Nat.cast_zero, mul_zero, add_zero]

/-- The knots scale as lengths. -/
theorem knot_scale (s R : ℝ) (i : Nat) : knot (s * R) i = s * knot R i := by
  unfold knot
  rw [lo_scale, profileStep_scale]
  ring

/-- The knots increase, as a spline asks of its knots. -/
theorem strictMono_knot {R : ℝ} (hR : 0 < R) : StrictMono (knot R) := by
  intro i j hij
  have hstep := mul_lt_mul_of_pos_left (Nat.cast_lt.2 hij : (i : ℝ) < j) (profileStep_pos hR)
  exact add_lt_add_right hstep _

/-- The heights at the knots scale as lengths. -/
theorem sampledHeights_scale (hs : s ≠ 0) (R : ℝ) :
    sampledHeights (s * R) = (sampledHeights R).map (s * ·) := by
  have hhead (state : List ℝ) : (RungeKutta.scale s state).headD 0 = s * state.headD 0 := by
    cases state <;> simp
  unfold sampledHeights
  rw [heights_scale hs]
  simp only [List.map_cons, List.map_map, Function.comp_def, hhead, mul_zero]

/-- There is one height for every knot. -/
theorem length_sampledHeights (R : ℝ) : (sampledHeights R).length = profileSteps + 1 := by
  simp [sampledHeights, heights, RungeKutta.length_trajectory]

/-- The first knot is the start of the range, like all others counted from there. -/
theorem knots_eq (R : ℝ) : ((List.range (profileSteps + 1)).map fun (i : Nat) =>
    if i = 0 then (domain R).lo else (domain R).lo + profileStep R * (i : ℝ)) =
      (List.range (profileSteps + 1)).map (knot R) := by
  refine List.map_congr_left fun i _ => ?_
  split
  · next hi => rw [hi, knot_zero]
  · rfl

/-- The profile of the height is the spline through the knots and the heights at them. -/
theorem heightProfile_eq (R : ℝ) :
    heightProfile R = Spline.ofKnots ((List.range (profileSteps + 1)).map (knot R)).toArray
      (sampledHeights R).toArray 0 := by
  unfold heightProfile sampledHeights
  simp only [knots_eq, Exact.zero_eq]

/-- Every positive Schwarzschild radius has a height profile. -/
theorem exists_heightProfile {R : ℝ} (hR : 0 < R) :
    ∃ profile, heightProfile R = .ok profile ∧
      profile.knots = ((List.range (profileSteps + 1)).map (knot R)).toArray ∧
      profile.samples = (sampledHeights R).toArray ∧ profile.tension = 0 := by
  have hsize : (sampledHeights R).toArray.size =
      ((List.range (profileSteps + 1)).map (knot R)).toArray.size := by
    simp [length_sampledHeights]
  have htwo : 2 ≤ ((List.range (profileSteps + 1)).map (knot R)).toArray.size := by
    simp [profileSteps]
  have hordered :
      ((List.range (profileSteps + 1)).map (knot R)).toArray.toList.Pairwise (· < ·) := by
    rw [List.toList_toArray]
    exact pairwise_map_range (strictMono_knot hR) _
  rw [heightProfile_eq]
  exact Spline.exists_ofKnots hsize htwo hordered 0

/-- Two radii have height profiles that scale as the radii do. -/
theorem exists_scales_heightProfile (hs : 0 < s) {R : ℝ} (hR : 0 < R) :
    ∃ profile profile', heightProfile R = .ok profile ∧ heightProfile (s * R) = .ok profile' ∧
      profile.Scales s profile' := by
  obtain ⟨profile, h, hknots, hsamples, htension⟩ := exists_heightProfile hR
  obtain ⟨profile', h', hknots', hsamples', htension'⟩ := exists_heightProfile (mul_pos hs hR)
  refine ⟨profile, profile', h, h', ?_, ?_, by rw [htension, htension']⟩
  · have hknot : knot (s * R) = (s * ·) ∘ knot R := funext (knot_scale s R)
    rw [hknots, hknots', List.map_toArray, List.map_map, hknot]
  · rw [hsamples, hsamples', sampledHeights_scale hs.ne', List.map_toArray]

end Optical

/-! ## Surfaces -/

/-- A positive number passes the check that the settings make of a positive finite one. -/
theorem SurfaceSettings.positive_of_pos {a : ℝ} (h : 0 < a) : positive a = true := by
  rw [← Exact.zero_eq] at h
  exact decide_eq_true h

/-- The settings of a surface that was given none are accepted. -/
theorem SurfaceSettings.check_default : (default : SurfaceSettings ℝ).check = .ok () := by
  have hpositive (digits places : Nat) (h : 0 < digits) :
      positive (@OfScientific.ofScientific ℝ Scalar.instOfScientific digits true places) =
        true := by
    refine positive_of_pos ?_
    rw [Exact.ofScientific_eq, Rat.cast_pos]
    positivity
  have hfault : (default : SurfaceSettings ℝ).fault? = none := by
    simp only [fault?, default, hpositive, Nat.succ_pos]
    rfl
  rw [check, hfault]

namespace BlackHoleSurface

variable {R s : ℝ} {settings : SurfaceSettings ℝ} {heights heights' : Spline ℝ ℝ}

/-- With a positive radius the profile of a black hole is the profile of its height. -/
theorem profile_eq_ok (hR : 0 < R) (h : Optical.heightProfile R = .ok heights) :
    profile R = .ok heights :=
  (if_pos (SurfaceSettings.positive_of_pos hR)).trans (Outcome.mapError_eq_ok.2 h)

/-- With a positive radius and settings that are accepted, a black hole is built once its profile
is. -/
theorem build_eq_ok (hR : 0 < R) (hsettings : settings.check = .ok ())
    (h : Optical.heightProfile R = .ok heights) :
    build R settings = .ok ⟨R, heights, settings⟩ := by
  rw [build, hsettings, profile_eq_ok hR h]
  rfl

/-- The second surface is the first one at another scale: its range, its heights, its distances from
the axis, and all points of its geodesics, whether with its own settings or with any others. -/
structure Scales (s : ℝ) (b b' : BlackHoleSurface ℝ) : Prop where
  domain : b'.domain = ⟨s * b.domain.lo, s * b.domain.hi⟩
  height (u : ℝ) : b'.height (s * u) = s * b.height u
  radius (u : ℝ) : b'.radius (s * u) = s * b.radius u
  geodesic (u θ up tp : ℝ) : b'.geodesic (.ofComponents (s * u) θ (s * up) tp) =
    (b.geodesic (.ofComponents u θ up tp)).map (·.scale s)
  polyline (settings : GeodesicSettings ℝ) (u θ up tp : ℝ) :
    Geodesic.polyline b'.patch settings (.ofComponents (s * u) θ (s * up) tp) =
      (Geodesic.polyline b.patch settings (.ofComponents u θ up tp)).map (·.scale s)

/-- Between two black holes whose profiles scale, all that the surface does with a position or a
velocity scales: the point, the acceleration and the edge of the range. -/
theorem stretches_patch (hs : 0 < s) (h : heights.Scales s heights') :
    (patch ⟨R, heights, settings⟩).Stretches s (patch ⟨s * R, heights', settings⟩) where
  embed u angle := by
    show (⟨Optical.axisDistance (s * R) (s * u) * Scalar.cos angle,
      Optical.axisDistance (s * R) (s * u) * Scalar.sin angle, heights'.eval (s * u)⟩ : Vec3 ℝ) = _
    rw [Optical.axisDistance_scale hs, h.eval hs, mul_assoc, mul_assoc]
    rfl
  outside pos := congrArg not (Optical.contains_scale hs R pos.x)
  acceleration := Optical.acceleration_scale hs.ne' R

/-- Black holes whose profiles scale are scaled surfaces: the lemmas above for one quantity each are
put together here. -/
theorem scales (hs : 0 < s) (h : heights.Scales s heights') :
    Scales s ⟨R, heights, settings⟩ ⟨s * R, heights', settings⟩ where
  domain := congrArg₂ Interval.mk (Optical.lo_scale s R) (Optical.hi_scale s R)
  height := h.eval hs
  radius := Optical.axisDistance_scale hs R
  geodesic u θ up tp := (stretches_patch hs h).polyline settings.geodesic (.ofComponents u θ up tp)
  polyline steps u θ up tp := (stretches_patch hs h).polyline steps (.ofComponents u θ up tp)

/-- Around a black hole of `s` times the Schwarzschild radius everything is `s` times as large. This
is so inside the Schwarzschild radius too, where the formulas divide by zero or have no root: they
do the same at both scales. -/
theorem exists_scales (hR : 0 < R) (hs : 0 < s) (hsettings : settings.check = .ok ()) :
    ∃ b b', build R settings = .ok b ∧ build (s * R) settings = .ok b' ∧ b.Scales s b' := by
  obtain ⟨heights, heights', h, h', hscales⟩ := Optical.exists_scales_heightProfile hs hR
  exact ⟨_, _, build_eq_ok hR hsettings h, build_eq_ok (mul_pos hs hR) hsettings h',
    scales hs hscales⟩

/-- A light ray that starts inwards from three Schwarzschild radii, and one at twice the size. -/
theorem exists_scales_twice :
    (0 : ℝ) < 1 ∧ (0 : ℝ) < 2 ∧ (SurfaceSettings.default : SurfaceSettings ℝ).check = .ok () ∧
      ∃ b b' : BlackHoleSurface ℝ, build 1 .default = .ok b ∧ build (2 * 1) .default = .ok b' ∧
        b'.geodesic (.ofComponents (2 * 3) 0 (2 * -1) 1) =
          (b.geodesic (.ofComponents 3 0 (-1) 1)).map (·.scale 2) := by
  have hsettings := SurfaceSettings.check_default
  obtain ⟨b, b', h, h', hscales⟩ := exists_scales one_pos two_pos hsettings
  exact ⟨one_pos, two_pos, hsettings, b, b', h, h', hscales.geodesic 3 0 (-1) 1⟩

end BlackHoleSurface

end SurfaceGeometry
