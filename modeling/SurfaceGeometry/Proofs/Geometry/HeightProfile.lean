import SurfaceGeometry.Proofs.Geometry.BlackHole
import SurfaceGeometry.Proofs.Geometry.Optical
import SurfaceGeometry.Proofs.Integrator.Stages
import SurfaceGeometry.Proofs.Spline.Checked

/-!
# The height of the surface around a black hole

The height is integrated by steps that add up the radius, and interpolated between knots that are
computed each for itself. In exact real arithmetic both are the same numbers (`Optical.heights_eq`).
No stage of a step is in front of the range of the radius, and from its start on the slope of the
height is the root of a positive number (`Optical.checked_heights`). So the heights rise from zero
on, with every knot (`Optical.exists_rises`).
-/

namespace SurfaceGeometry

namespace Optical

open RungeKutta

/-! ## The slope -/

section
variable {α : Type} [Scalar α]

/-- The slope of the height, if it is the root of a positive quotient. -/
def heightSlope? (R u : α) : Option α := do
  let steepness ← Scalar.quotient? (u * R * (8 * u - 9 * R)) (4 * Scalar.powInt (u - R) 3)
  if steepness > 0 then return Scalar.sqrt steepness else none

/-- The slope as a system that may have no rate. -/
def heightSystem? (R u : α) (_ buffer : List α) : Option (List α) := do
  let slope ← heightSlope? R u
  return overwrite [slope] buffer

end

variable {R u : ℝ}

/-- Where the surface can be embedded, the slope with checked divisors and roots is found, and is
the slope that is computed without the checks. -/
theorem heightSlope?_eq (h : Embeds R u) : heightSlope? R u = some (heightSlope R u) := by
  have hdivisor : 4 * (u - R) ^ 3 ≠ 0 :=
    mul_ne_zero four_ne_zero (pow_ne_zero 3 h.difference_pos.ne')
  have hquotient : Scalar.quotient? (u * R * (8 * u - 9 * R)) (4 * Scalar.powInt (u - R) 3) =
      some (u * R * (8 * u - 9 * R) / (4 * (u - R) ^ 3)) := by
    rw [Exact.powInt_eq, Scalar.quotient?, Exact.zero_eq]
    exact if_neg (mt eq_of_beq hdivisor)
  rw [heightSlope?, hquotient, heightSlope_eq, Option.bind_eq_bind, Option.bind_some, Exact.zero_eq]
  exact if_pos (steepness_pos h)

/-- The height has a positive slope. -/
theorem heightSlope_pos (h : Embeds R u) : 0 < heightSlope R u := by
  rw [heightSlope_eq]
  exact Real.sqrt_pos.2 (steepness_pos h)

/-- The checked system of the height is defined where the surface can be embedded. -/
theorem defined_heightSystem (h : Embeds R u) : Defined (heightSystem? R) (heightSystem R) u := by
  intro state buffer
  rw [heightSystem?, heightSlope?_eq h]
  rfl

/-! ## The knots -/

/-- The integrator goes from one knot to the next. -/
theorem knot_succ (R : ℝ) (i : Nat) : knot R i + profileStep R = knot R (i + 1) := by
  rw [knot, knot, Nat.cast_succ]
  ring

/-- The last knot is the end of the range. -/
theorem knot_last (R : ℝ) : knot R profileSteps = (domain R).hi := by
  have hsteps : (profileSteps : ℝ) ≠ 0 := Nat.cast_ne_zero.2 (by decide)
  show (domain R).lo + ((domain R).hi - (domain R).lo) / (profileSteps : ℝ) * (profileSteps : ℝ) = _
  rw [div_mul_cancel₀ _ hsteps, add_sub_cancel]

/-- The surface can be embedded at every knot. -/
theorem embeds_knot (hR : 0 < R) (i : Nat) : Embeds R (knot R i) := by
  refine Embeds.of_lo_le hR ?_
  rw [← knot_zero]
  exact (strictMono_knot hR).monotone i.zero_le

/-! ## The heights -/

/-- How far a step lifts the height. -/
noncomputable def rise (R u : ℝ) : ℝ :=
  profileStep R / 6 * (heightSlope R u + 2 * heightSlope R (u + 1 / 2 * profileStep R) +
    2 * heightSlope R (u + 1 / 2 * profileStep R) + heightSlope R (u + profileStep R))

/-- The height at a knot. -/
noncomputable def height (R : ℝ) : Nat → ℝ
  | 0 => 0
  | i + 1 => height R i + rise R (knot R i)

/-- The system of the height computes the slope and does not read the height. -/
theorem computes_heightSystem (R : ℝ) :
    Computes (heightSystem R) fun u _ (_ : Fin 1) => heightSlope R u :=
  fun u _ _ hbuffer => overwrite_ofFn (fun _ : Fin 1 => heightSlope R u) hbuffer

/-- A step of the integrator at a radius adds the distance of the knots to the radius and the rise
to the height. -/
theorem step_heightSystem {w : Workspace ℝ} (hw : w.Fits 1) (R u y : ℝ) :
    ∃ w' : Workspace ℝ, w'.Fits 1 ∧ step (heightSystem R) w u [y] (profileStep R) =
      (w', u + profileStep R, [y + rise R u]) := by
  obtain ⟨w', hw', hstep⟩ :=
    step_of_computes (computes_heightSystem R) hw u (profileStep R) fun _ => y
  refine ⟨w', hw', hstep.trans ?_⟩
  unfold vectorStep rise
  simp only [Exact.half_eq]
  rfl

/-- A run of the integrator from a knot goes through the knots and the heights behind it, one after
the other. -/
theorem trajectory_heightSystem {w : Workspace ℝ} (hw : w.Fits 1) (R : ℝ) (i n : Nat) :
    trajectory (heightSystem R) w (knot R i) [height R i] (List.replicate n (profileStep R)) =
      (List.range n).map fun j => (knot R (i + j + 1), [height R (i + j + 1)]) := by
  induction n generalizing i w with
  | zero => rfl
  | succ n ih =>
    obtain ⟨w', hw', hstep⟩ := step_heightSystem hw R (knot R i) (height R i)
    rw [knot_succ] at hstep
    have hshift (j : Nat) : i + 1 + j = i + (j + 1) := Nat.add_right_comm i 1 j
    rw [List.replicate_succ, trajectory, hstep, map_range_succ]
    dsimp only
    rw [← height, ih hw' (i + 1)]
    simp only [hshift]

/-- The radius that the steps add up is the knot, and the height behind each step the one at the
knot. -/
theorem heights_eq (R : ℝ) :
    heights R = (List.range profileSteps).map fun i => (knot R (i + 1), [height R (i + 1)]) := by
  have hrun := trajectory_heightSystem (Workspace.ofDimension_fits 1) R 0 profileSteps
  rw [knot_zero, show height R 0 = 0 from rfl] at hrun
  simpa only [heights, Exact.zero_eq, Nat.zero_add] using hrun

/-- The height rises in every step, since the slope at each of its stages is positive. -/
theorem rise_pos (h : Embeds R u) : 0 < rise R u := by
  have hstep := profileStep_pos h.pos
  have hstart := heightSlope_pos h
  have hmiddle := heightSlope_pos (h.mono (show u ≤ u + 1 / 2 * profileStep R by linarith))
  have hend := heightSlope_pos (h.mono (show u ≤ u + profileStep R by linarith))
  unfold rise
  positivity

/-- The heights at the knots increase. -/
theorem strictMono_height (hR : 0 < R) : StrictMono (height R) :=
  strictMono_nat_of_lt_succ fun i => lt_add_of_pos_right _ (rise_pos (embeds_knot hR i))

/-- The heights that are sampled are those that add up the rises. -/
theorem sampledHeights_eq (R : ℝ) :
    sampledHeights R = (List.range (profileSteps + 1)).map (height R) := by
  rw [sampledHeights, heights_eq, List.map_map, map_range_succ]
  rfl

/-- No stage of any step is where the slope is not the root of a positive number. -/
theorem checked_heights (hR : 0 < R) :
    trajectory? (heightSystem? R) (.ofDimension 1) (domain R).lo [0]
      (List.replicate profileSteps (profileStep R)) = some (heights R) := by
  have hstep := profileStep_pos hR
  have hdefined (u : ℝ) (hu : (domain R).lo ≤ u) : Defined (heightSystem? R) (heightSystem R) u :=
    defined_heightSystem (Embeds.of_lo_le hR hu)
  rw [heights, Exact.zero_eq]
  refine trajectory?_eq hdefined ?_ _ le_rfl _
  intro h hh u hu
  rw [List.eq_of_mem_replicate hh, Exact.half_eq]
  constructor <;> linarith

/-! ## The profile -/

/-- The spline interpolates what the integration went through, upwards from zero. -/
structure Rises (R : ℝ) (profile : Spline ℝ ℝ) : Prop where
  knots : (heights R).map Prod.fst = profile.knots.toList.tail
  samples : (heights R).map Prod.snd = profile.samples.toList.tail.map ([·])
  first_knot : profile.knots.toList.head? = some (3 / 2 * R)
  last_knot : profile.knots.toList.getLast? = some (30 * R)
  first_sample : profile.samples.toList.head? = some 0
  knots_increasing : profile.knots.toList.Pairwise (· < ·)
  samples_increasing : profile.samples.toList.Pairwise (· < ·)

/-- A profile whose knots and values are known by their number has the knots and the heights that
the surface asks for. -/
theorem Rises.of_numbered (hR : 0 < R) {profile : Spline ℝ ℝ}
    (h : profile.Numbered profileSteps (knot R) (height R)) : Rises R profile := by
  have hknots : profile.knots.toList = (List.range (profileSteps + 1)).map (knot R) := by
    rw [h.knots]
  have hsamples : profile.samples.toList = (List.range (profileSteps + 1)).map (height R) := by
    rw [h.samples]
  constructor
  case knots =>
    rw [hknots, heights_eq, map_range_succ, List.map_map, List.tail_cons]
    rfl
  case samples =>
    rw [hsamples, heights_eq, map_range_succ, List.map_map, List.tail_cons, List.map_map]
    rfl
  case first_knot =>
    rw [hknots, map_range_succ, List.head?_cons, knot_zero, lo_eq]
  case last_knot =>
    rw [hknots, List.range_succ, List.map_append, List.map_singleton, List.getLast?_concat,
      knot_last, hi_eq]
  case first_sample =>
    rw [hsamples, map_range_succ, List.head?_cons, height]
  case knots_increasing =>
    rw [hknots]
    exact pairwise_map_range (strictMono_knot hR) _
  case samples_increasing =>
    rw [hsamples]
    exact pairwise_map_range (strictMono_height hR) _

/-- A positive Schwarzschild radius has a height profile. Its integration never divides by zero and
never takes the root of a number that is not positive, its steps end at the knots, and its heights
rise. -/
theorem exists_rises (hR : 0 < R) :
    trajectory? (heightSystem? R) (.ofDimension 1) (domain R).lo [0]
        (List.replicate profileSteps (profileStep R)) = some (heights R) ∧
      ∃ profile, BlackHoleSurface.profile R = .ok profile ∧ Rises R profile := by
  obtain ⟨profile, hprofile, hknots, hsamples, -⟩ := exists_heightProfile hR
  rw [sampledHeights_eq] at hsamples
  exact ⟨checked_heights hR, profile, BlackHoleSurface.profile_eq_ok hR hprofile,
    .of_numbered hR ⟨hknots, hsamples⟩⟩

/-- Around a black hole of Schwarzschild radius two. -/
theorem exists_rises_two : (0 : ℝ) < 2 ∧
    ∃ profile : Spline ℝ ℝ, BlackHoleSurface.profile 2 = .ok profile ∧
    profile.knots.toList.head? = some 3 ∧ profile.knots.toList.getLast? = some 60 ∧
    profile.samples.toList.Pairwise (· < ·) := by
  obtain ⟨-, profile, hprofile, h⟩ := exists_rises (R := 2) two_pos
  refine ⟨two_pos, profile, hprofile, ?_, ?_, h.samples_increasing⟩
  · rw [h.first_knot]
    norm_num
  · rw [h.last_knot]
    norm_num

end Optical

end SurfaceGeometry
