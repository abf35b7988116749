import SurfaceGeometry.Proofs.Spline.Knots
import SurfaceGeometry.Geodesic

/-!
# Steppers and splines at another scale

Two runs of the same method side by side, the second one with all lengths multiplied by a number. A
spline with scaled knots and samples has the scaled values (`Spline.Scales.eval`), and a Runge-Kutta
trajectory with the same rates has the scaled times and states (`RungeKutta.trajectory_scale`). A
patch whose first coordinate is a length and whose second one is an angle has the scaled polylines
as geodesics, if its accelerations, its points and its bounds scale (`Patch.Stretches.polyline`).
-/

namespace SurfaceGeometry

/-! ## Lengths at another scale -/

section
variable {K : Type} [Field K]

/-- A vector whose first component is a length and whose second one is an angle, at another scale.
-/
def Vec2.stretch (c : K) (v : Vec2 K) : Vec2 K := ⟨c * v.x, v.y⟩

/-- A state at another scale: its position and its velocity have a length and an angle as
components. -/
def TangentVector.stretch (c : K) (state : TangentVector K) : TangentVector K :=
  ⟨state.pos.stretch c, state.vel.stretch c⟩

/-- A point at another scale. -/
def Vec3.scale (c : K) (p : Vec3 K) : Vec3 K := ⟨c * p.x, c * p.y, c * p.z⟩

/-- A step along a vector may be made before or behind the scaling. -/
theorem Vec2.stretch_add_mul (c h : K) (u v : Vec2 K) :
    u.stretch c + v.stretch c * h = (u + v * h).stretch c := by
  apply Vec2.ext
  · simp only [stretch, add_x, mul_x]
    ring
  · rfl

namespace RungeKutta

/-- A list of lengths at another scale. -/
abbrev scale (c : K) (lengths : List K) : List K := lengths.map (c * ·)

/-- The workspace of a run at another scale: the rates are the same, the state in between is scaled.
-/
def Workspace.scale (c : K) (w : Workspace K) : Workspace K :=
  { w with stage := RungeKutta.scale c w.stage }

/-- Overwriting goes number by number, so the numbers and the buffer may be scaled before or behind
it. -/
theorem overwrite_scale (c : K) (numbers buffer : List K) :
    overwrite (scale c numbers) (scale c buffer) = scale c (overwrite numbers buffer) := by
  simp [overwrite]

end RungeKutta

namespace Patch

/-- The second patch is the first one with all lengths multiplied by a number. -/
structure Stretches (c : K) (p p' : Patch K) : Prop where
  embed (u angle : K) : p'.embed (c * u) angle = (p.embed u angle).scale c
  outside (pos : Vec2 K) : p'.outside (pos.stretch c) = p.outside pos
  acceleration (state : TangentVector K) :
    p'.acceleration (state.stretch c) = (p.acceleration state).stretch c

/-- The point at a scaled position is the scaled point. -/
theorem Stretches.place {c : K} {p p' : Patch K} (hp : p.Stretches c p') (pos : Vec2 K) :
    p'.place (pos.stretch c) = (p.place pos).scale c :=
  hp.embed pos.x pos.y

end Patch

end

variable {K : Type} [Field K] [LinearOrder K] [ElementaryFunctions K]

/-! ## Splines -/

namespace Spline

/-- The second spline has the knots and the samples of the first one, multiplied by a number. -/
structure Scales (c : K) (s s' : Spline K K) : Prop where
  knots : s'.knots = s.knots.map (c * ·)
  samples : s'.samples = s.samples.map (c * ·)
  tension : s'.tension = s.tension

/-- A cubic piece between scaled knots and scaled values, with the same tangents, is scaled at every
scaled place: a tangent is a quotient of lengths. -/
theorem hermite_scale {c : K} (hc : c ≠ 0) (x₁ x₂ y₁ y₂ m₁ m₂ t : K) :
    hermite (c * x₁) (c * x₂) (c * y₁) (c * y₂) m₁ m₂ (c * t) =
      c * hermite x₁ x₂ y₁ y₂ m₁ m₂ t := by
  have hplace : (c * t - c * x₁) / (c * x₂ - c * x₁) = (t - x₁) / (x₂ - x₁) := by
    rw [← mul_sub, ← mul_sub, mul_div_mul_left _ _ hc]
  unfold hermite
  dsimp only
  rw [hplace]
  ring

namespace Scales

variable {c : K} {s s' : Spline K K}

/-- Splines that scale have equally many knots. -/
theorem size (h : s.Scales c s') : s'.knots.size = s.knots.size := by
  rw [h.knots, Array.size_map]

/-- The search compares, and finds the same segment. -/
theorem segment [IsStrictOrderedRing K] (h : s.Scales c s') (hc : 0 < c) (t : K) :
    s'.segment (c * t) = s.segment t := by
  have hcompare (k : K) : decide (c * k ≤ c * t) = decide (k ≤ t) :=
    decide_eq_decide.2 (mul_le_mul_iff_right₀ hc)
  unfold Spline.segment
  rw [h.size, h.knots, Array.toList_map, List.takeWhile_map, List.length_map]
  simp only [Function.comp_def, hcompare]

/-- Each piece of the second spline is that of the first, scaled. -/
theorem piece (h : s.Scales c s') (hc : c ≠ 0) {i : Nat} (hi : i + 1 < s.knots.size)
    (hi' : i + 1 < s'.knots.size) (t : K) : s'.piece i hi' (c * t) = c * s.piece i hi t := by
  -- The tangents are quotients of lengths, so they stay what they are.
  have hslope (y y' x x' q : K) :
      (c * y - c * y') * (q / (c * x - c * x')) = (y - y') * (q / (x - x')) := by
    calc (c * y - c * y') * (q / (c * x - c * x'))
        = (y - y') * (c * q / (c * (x - x'))) := by ring
      _ = (y - y') * (q / (x - x')) := by rw [mul_div_mul_left _ _ hc]
  obtain ⟨knots, samples, tension⟩ := h
  unfold Spline.piece
  simp only [knots, samples, tension, Array.getElem_map, Array.size_map, hslope]
  exact hermite_scale hc ..

/-- The first knot scales. -/
theorem first (h : s.Scales c s') : s'.first = c * s.first := by
  simp [Spline.first, h.knots]

/-- The last knot scales. -/
theorem last (h : s.Scales c s') : s'.last = c * s.last := by
  simp [Spline.last, h.knots]

/-- The samples scale. -/
theorem sample (h : s.Scales c s') {i : Nat} (hi : i < s.knots.size) (hi' : i < s'.knots.size) :
    s'.sample i hi' = c * s.sample i hi := by
  simp [Spline.sample, h.samples]

/-- A scaled spline has the scaled values. -/
theorem eval [IsStrictOrderedRing K] (h : s.Scales c s') (hc : 0 < c) (t : K) :
    s'.eval (c * t) = c * s.eval t := by
  rcases le_or_gt t s.first with hfirst | hfirst
  · have hfirst' : c * t ≤ s'.first := by
      rw [h.first]
      exact mul_le_mul_of_nonneg_left hfirst hc.le
    rw [eval_of_le hfirst, eval_of_le hfirst', h.sample]
  rcases le_or_gt s.last t with hlast | hlast
  · have hlast' : s'.last ≤ c * t := by
      rw [h.last]
      exact mul_le_mul_of_nonneg_left hlast hc.le
    rw [eval_of_ge hlast, eval_of_ge hlast']
    simp only [h.size]
    exact h.sample s.last_lt _
  · have hfirst' : s'.first < c * t := by
      rw [h.first]
      exact mul_lt_mul_of_pos_left hfirst hc
    have hlast' : c * t < s'.last := by
      rw [h.last]
      exact mul_lt_mul_of_pos_left hlast hc
    rw [eval_of_inside hfirst hlast, eval_of_inside hfirst' hlast']
    simp only [h.segment hc]
    exact h.piece hc.ne' ..

end Scales

end Spline

/-! ## Runge-Kutta steps -/

namespace RungeKutta

/-- A stage of the integrator with a scaled step and a scaled state is scaled. The rates are not:
they are quotients of lengths. -/
theorem advance_scale (c h : K) (state rates : List K) :
    advance (c * h) (scale c state) rates = scale c (advance h state rates) := by
  unfold advance scale
  rw [List.zipWith_map_left, List.map_zipWith]
  congr 1
  funext x k
  ring

/-- A step at another scale, of a system that has the same rates there. -/
theorem step_scale {c : K} {system system' : System K}
    (hsystem : ∀ t state buffer, system' (c * t) (scale c state) buffer = system t state buffer)
    (w : Workspace K) (t : K) (state : List K) (h : K) :
    step system' (w.scale c) (c * t) (scale c state) (c * h) =
      ((step system w t state h).1.scale c, c * (step system w t state h).2.1,
        scale c (step system w t state h).2.2) := by
  have hpart (a : K) : a * (c * h) = c * (a * h) := mul_left_comm a c h
  unfold step
  simp only [Workspace.scale, hpart, mul_div_assoc, ← mul_add, hsystem, advance_scale,
    overwrite_scale]

/-- The times and states of a trajectory at another scale. -/
theorem trajectory_scale {c : K} {system system' : System K}
    (hsystem : ∀ t state buffer, system' (c * t) (scale c state) buffer = system t state buffer)
    (w : Workspace K) (t : K) (state sizes : List K) :
    trajectory system' (w.scale c) (c * t) (scale c state) (scale c sizes) =
      (trajectory system w t state sizes).map fun entry => (c * entry.1, scale c entry.2) := by
  induction sizes generalizing w t state with
  | nil => rfl
  | cons h rest ih =>
    show trajectory system' (w.scale c) (c * t) (scale c state) (c * h :: scale c rest) = _
    rw [trajectory, trajectory, step_scale hsystem]
    dsimp only
    rw [ih, List.map_cons]

/-- A run has one entry for every step. -/
theorem length_trajectory (system : System K) (w : Workspace K) (t : K) (state sizes : List K) :
    (trajectory system w t state sizes).length = sizes.length := by
  induction sizes generalizing w t state with
  | nil => rfl
  | cons h rest ih => simp [trajectory, ih]

end RungeKutta

/-! ## Geodesics -/

/-- A step at another scale, with an acceleration that scales. -/
theorem Verlet.step_stretch {c : K} {acceleration acceleration' : TangentVector K → Vec2 K}
    (hacceleration : ∀ state : TangentVector K,
      acceleration' (state.stretch c) = (acceleration state).stretch c)
    (h : K) (state : TangentVector K) :
    step h acceleration' (state.stretch c) = (step h acceleration state).stretch c := by
  have hstate (pos vel : Vec2 K) :
      acceleration' ⟨pos.stretch c, vel.stretch c⟩ = (acceleration ⟨pos, vel⟩).stretch c :=
    hacceleration ⟨pos, vel⟩
  obtain ⟨pos, vel⟩ := state
  simp only [step, TangentVector.stretch, hstate, Vec2.stretch_add_mul]

namespace Patch.Stretches

variable {c : K} {p p' : Patch K}

/-- A polyline in the making is scaled point by point, and stops where the other one stops, since
the steps go out of the domain together. -/
theorem trace (hp : p.Stretches c p') (h : K) (count : Nat) (state : TangentVector K)
    (points : List (Vec3 K)) :
    Geodesic.trace p' h count (state.stretch c) (points.map (·.scale c)) =
      (Geodesic.trace p h count state points).map (·.scale c) := by
  induction count generalizing state points with
  | zero => rfl
  | succ count ih =>
    have hstep := Verlet.step_stretch hp.acceleration h state
    have hpoint : p'.place (Verlet.step h p'.acceleration (state.stretch c)).pos =
        (p.place (Verlet.step h p.acceleration state).pos).scale c := by
      rw [hstep]
      exact hp.place _
    have houtside : p'.outside (Verlet.step h p'.acceleration (state.stretch c)).pos =
        p.outside (Verlet.step h p.acceleration state).pos := by
      rw [hstep]
      exact hp.outside _
    unfold Geodesic.trace
    dsimp only
    rw [hpoint, houtside, ← List.map_cons, hstep, ih]
    split <;> rfl

/-- The geodesics of a patch at another scale. They have as many points, for they end at the same
step. -/
theorem polyline (hp : p.Stretches c p') (settings : GeodesicSettings K) (state : TangentVector K) :
    Geodesic.polyline p' settings (state.stretch c) =
      (Geodesic.polyline p settings state).map (·.scale c) := by
  unfold Geodesic.polyline
  rw [List.map_reverse, ← hp.trace, List.map_singleton, ← hp.place]
  rfl

end Patch.Stretches

end SurfaceGeometry
