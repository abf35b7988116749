import SurfaceGeometry.Proofs.Geometry.Transport
import SurfaceGeometry.Proofs.Outcome
import SurfaceGeometry.Proofs.Spline.Knots
import SurfaceGeometry.Surface.BlackHole
import SurfaceGeometry.Surface.Graph
import SurfaceGeometry.Surface.Revolution
import SurfaceGeometry.Transport

/-!
# Transported frames

Only the two vectors of the coordinate basis are carried along a curve, and a frame makes the
transport of any other vector up from theirs. That is the vector that the steps carry themselves
(`exists_superposes`), for on all three kinds of surfaces the rate of a carried vector is linear in
the vector, and with the rate everything that a step does (`Vec2.Linear.carry`) and everything that
a run of steps does (`Vec2.Linear.carried`). The splines between the steps return the carried basis
at their knots.
-/

namespace SurfaceGeometry

/-! ## Runs of steps -/

/-- The vector behind a number of steps of size `h` from the start of a curve. -/
def carried {α : Type} [Scalar α] (rate : TangentVector α → Vec2 α → Vec2 α) (curve : Curve α)
    (h : α) (v : Vec2 α) : Nat → Vec2 α
  | 0 => v
  | i + 1 => RungeKutta.carry h rate curve ((i : α) * h) (carried rate curve h v i)

/-- What a frame samples are the vectors behind the steps. -/
theorem TransportedFrame.samples_eq {α : Type} [Scalar α] (rate : TangentVector α → Vec2 α → Vec2 α)
    (curve : Curve α) (steps : Nat) (h : α) (v : Vec2 α) :
    samples rate curve steps h v =
      ((List.range (steps + 1)).map (carried rate curve h v)).toArray := by
  suffices hrun : (List.range steps).foldl
      (fun (acc : Vec2 α × Array (Vec2 α)) (i : Nat) =>
        let next := RungeKutta.carry h rate curve ((i : α) * h) acc.1
        (next, acc.2.push next))
      (v, #[v]) =
        (carried rate curve h v steps,
          ((List.range (steps + 1)).map (carried rate curve h v)).toArray) by
    rw [samples, hrun]
  induction steps with
  | zero => rfl
  | succ steps ih =>
    rw [List.range_succ, List.foldl_append, ih, List.range_succ (n := steps + 1), List.map_append]
    simp [carried]

/-! ## Linear maps -/

/-- A map of vectors that respects combinations of two of them. -/
def Vec2.Linear {K : Type} [Field K] (f : Vec2 K → Vec2 K) : Prop :=
  ∀ (u v : Vec2 K) (a b : K), f (u * a + v * b) = f u * a + f v * b

namespace Vec2.Linear

section
variable {K : Type} [Field K] {f g : Vec2 K → Vec2 K}

/-- The identity is linear. -/
theorem id : Linear fun v : Vec2 K => v := fun _ _ _ _ => rfl

/-- Linear maps one behind the other are linear. -/
theorem comp (hf : Linear f) (hg : Linear g) : Linear fun v => f (g v) := by
  intro u v a b
  simp only [hg u v a b, hf (g u) (g v) a b]

/-- A sum of linear maps is linear. -/
theorem add (hf : Linear f) (hg : Linear g) : Linear fun v => f v + g v := by
  intro u v a b
  simp only [hf u v a b, hg u v a b]
  apply Vec2.ext
  · simp only [add_x, mul_x]
    ring
  · simp only [add_y, mul_y]
    ring

/-- A linear map times a number is linear. -/
theorem mul (hf : Linear f) (c : K) : Linear fun v => f v * c := by
  intro u v a b
  simp only [hf u v a b]
  apply Vec2.ext
  · simp only [add_x, mul_x]
    ring
  · simp only [add_y, mul_y]
    ring

/-- A linear map over a number is linear, also over zero. -/
theorem div (hf : Linear f) (c : K) : Linear fun v => f v / c := by
  have hdiv : (fun v => f v / c) = fun v => f v * c⁻¹ := by
    funext v
    exact Vec2.ext (div_eq_mul_inv _ _) (div_eq_mul_inv _ _)
  rw [hdiv]
  exact hf.mul c⁻¹

/-- A linear map is known from what it does with the basis. -/
theorem eq_of_basis (hf : Linear f) (v : Vec2 K) : f ⟨1, 0⟩ * v.x + f ⟨0, 1⟩ * v.y = f v := by
  rw [← hf]
  congr 1
  apply Vec2.ext
  · simp
  · simp

end

variable {K : Type} [Field K] [LinearOrder K] [ElementaryFunctions K]

/-- A step is linear if the rates are: each of its stages has a rate at the vector moved along the
stage before, and the step adds multiples of the stages. -/
theorem carry {rate : TangentVector K → Vec2 K → Vec2 K} (hrate : ∀ state, Linear (rate state))
    (h : K) (curve : Curve K) (t : K) : Linear (RungeKutta.carry h rate curve t) := by
  have stage {f : Vec2 K → Vec2 K} (hf : Linear f) (state : TangentVector K) :
      Linear fun v => rate state (v + f v) * h := ((hrate state).comp (id.add hf)).mul h
  unfold RungeKutta.carry
  dsimp only
  have h₁ := (hrate (curve.tangent t)).mul h
  have h₂ (c : K) := stage (h₁.mul c)
  have h₃ (c : K) (mid : TangentVector K) := stage ((h₂ c mid).mul c)
  have h₄ (c : K) (mid : TangentVector K) := stage (h₃ c mid mid)
  exact id.add ((((h₁.add ((h₂ _ _).mul _)).add ((h₃ _ _ _).mul _)).add (h₄ _ _ _)).div _)

/-- A run of steps is linear if the rates are. -/
theorem carried {rate : TangentVector K → Vec2 K → Vec2 K} (hrate : ∀ state, Linear (rate state))
    (curve : Curve K) (h : K) (i : Nat) : Linear fun v => carried rate curve h v i := by
  induction i with
  | zero => exact id
  | succ i ih => exact (carry hrate h curve _).comp ih

end Vec2.Linear

/-! ## The rates of the surfaces -/

variable {K : Type} [Field K] [LinearOrder K] [ElementaryFunctions K]

/-- A rate that is symmetric and bilinear is linear in the vector. -/
theorem SymmetricBilinear.linear {rate : Vec2 K → Vec2 K → Vec2 K} (h : SymmetricBilinear rate)
    (w : Vec2 K) : Vec2.Linear (rate w) := by
  intro u v a b
  rw [h.add, h.mul, h.mul]

/-- The rates on a surface with a rotation: three coefficients, each with its products of
components. -/
theorem Vec2.Linear.ofCoefficients (uuu utt tut : K) (w : Vec2 K) : Vec2.Linear fun v : Vec2 K =>
    ⟨-(uuu * w.x * v.x + utt * w.y * v.y), -tut * (w.x * v.y + w.y * v.x)⟩ := by
  intro u v a b
  apply Vec2.ext
  · simp only [Vec2.add_x, Vec2.add_y, Vec2.mul_x, Vec2.mul_y]
    ring
  · simp only [Vec2.add_x, Vec2.add_y, Vec2.mul_x, Vec2.mul_y]
    ring

/-- On surfaces of revolution the rate of a carried vector is linear in the vector, on the axis
also. -/
theorem ProfileJet.linear (j : ProfileJet K) (vel : Vec2 K) : Vec2.Linear (j.transportRate vel) :=
  .ofCoefficients _ _ _ vel

/-- Around a black hole the rate of a carried vector is linear in the vector, also at the centre and
on the horizon. -/
theorem Optical.linear (R : K) (state : TangentVector K) : Vec2.Linear (transportRate R state) :=
  .ofCoefficients _ _ _ state.vel

/-! ## Frames -/

namespace TransportedFrame

/-- The samples of a frame are the basis behind each step, at the number of the step over the number
of steps. -/
structure Samples (frame : TransportedFrame K) (rate : TangentVector K → Vec2 K → Vec2 K)
    (curve : Curve K) (steps : Nat) : Prop where
  x : frame.x.Numbered steps (fun i => (i : K) / (steps : K))
    (carried rate curve (1 / (steps : K)) ⟨1, 0⟩)
  y : frame.y.Numbered steps (fun i => (i : K) / (steps : K))
    (carried rate curve (1 / (steps : K)) ⟨0, 1⟩)

/-- A frame has a knot for every step. It carries each vector as the steps do, has the vector as it
is up to the start of the curve, and what has become of it from the end of the curve on. -/
structure Superposes (frame : TransportedFrame K) (rate : TangentVector K → Vec2 K → Vec2 K)
    (curve : Curve K) (steps : Nat) : Prop where
  knots : frame.knots.toList = (List.range (steps + 1)).map fun (i : Nat) => (i : K) / (steps : K)
  inside (v : Vec2 K) (i : Nat) : i ≤ steps →
    frame.transport ((i : K) / (steps : K)) v = carried rate curve (1 / (steps : K)) v i
  before (v : Vec2 K) (t : K) : t ≤ 0 → frame.transport t v = v
  behind (v : Vec2 K) (t : K) : 1 ≤ t → frame.transport t v = frame.transport 1 v

/-- The knots are the numbers of the steps over how many there are, the first knot like all others.
-/
theorem knots_eq (steps : Nat) :
    (0 :: (List.range steps).map fun (i : Nat) => ((i + 1 : Nat) : K) / (steps : K)) =
      (List.range (steps + 1)).map fun (i : Nat) => (i : K) / (steps : K) := by
  rw [map_range_succ, Nat.cast_zero, zero_div]

variable [IsStrictOrderedRing K]

/-- With at least one step a frame is built along every curve, and its splines have the carried
basis vectors as samples. -/
theorem exists_samples (rate : TangentVector K → Vec2 K → Vec2 K) (curve : Curve K)
    {settings : TransportSettings K} (hsteps : 1 ≤ settings.steps) :
    ∃ frame, along rate curve settings = .ok frame ∧ frame.Samples rate curve settings.steps := by
  have hknot : StrictMono fun (i : Nat) => (i : K) / (settings.steps : K) := by
    intro i j hij
    exact div_lt_div_of_pos_right (Nat.cast_lt.2 hij) (Nat.cast_pos.2 hsteps)
  have hspline (e : Vec2 K) := Spline.exists_numbered hsteps hknot
    (carried rate curve (1 / (settings.steps : K)) e) settings.tension
  obtain ⟨x, hx, hxnumbered⟩ := hspline ⟨1, 0⟩
  obtain ⟨y, hy, hynumbered⟩ := hspline ⟨0, 1⟩
  refine ⟨⟨x, y⟩, ?_, hxnumbered, hynumbered⟩
  rw [← knots_eq, ← samples_eq] at hx hy
  unfold along
  simp only [max_eq_left hsteps, Exact.zero_eq, Exact.one_eq]
  exact Outcome.bind_eq_ok.2 ⟨x, hx, Outcome.bind_eq_ok.2 ⟨y, hy, rfl⟩⟩

/-- A frame whose splines have the carried basis vectors as samples carries every vector by its
components, because the runs of steps are linear. -/
theorem Samples.superposes {frame : TransportedFrame K} {rate : TangentVector K → Vec2 K → Vec2 K}
    {curve : Curve K} {steps : Nat} (h : frame.Samples rate curve steps) (hsteps : 1 ≤ steps)
    (hrate : ∀ state, Vec2.Linear (rate state)) : frame.Superposes rate curve steps := by
  have hfirst : ((0 : Nat) : K) / (steps : K) = 0 := by rw [Nat.cast_zero, zero_div]
  have hlast : (steps : K) / (steps : K) = 1 := div_self (Nat.cast_pos.2 hsteps).ne'
  -- Where both splines return a sample, the frame returns the vector behind that step.
  have hstep {t : K} {i : Nat} (v : Vec2 K)
      (hx : frame.x.eval t = carried rate curve (1 / (steps : K)) ⟨1, 0⟩ i)
      (hy : frame.y.eval t = carried rate curve (1 / (steps : K)) ⟨0, 1⟩ i) :
      frame.transport t v = carried rate curve (1 / (steps : K)) v i := by
    show frame.x.eval t * v.x + frame.y.eval t * v.y = _
    rw [hx, hy]
    exact (Vec2.Linear.carried hrate curve (1 / (steps : K)) i).eq_of_basis v
  have hbehind (v : Vec2 K) {t : K} (ht : 1 ≤ t) :
      frame.transport t v = carried rate curve (1 / (steps : K)) v steps := by
    rw [← hlast] at ht
    exact hstep v (h.x.eval_of_ge ht) (h.y.eval_of_ge ht)
  refine ⟨?_, fun v i hi => hstep v (h.x.eval_knot hi) (h.y.eval_knot hi), fun v t ht => ?_,
    fun v t ht => ?_⟩
  · rw [TransportedFrame.knots, h.x.knots]
  · rw [← hfirst] at ht
    exact hstep v (h.x.eval_of_le ht) (h.y.eval_of_le ht)
  · rw [hbehind v ht, hbehind v le_rfl]

end TransportedFrame

/-- On all three kinds of surfaces, along every curve and for any number of steps and any tension,
the basis is carried along the curve, and the frame carries every vector as the steps do by
themselves. The rates are linear at a quotient by zero too, so that nothing is asked of the curve.
-/
theorem exists_superposes [IsStrictOrderedRing K] (curve : Curve K) (settings : TransportSettings K)
    (hsteps : 1 ≤ settings.steps) :
    (∀ s : GraphSurface K, ∃ frame,
      TransportedFrame.along s.patch.transportRate curve settings = .ok frame ∧
        frame.Superposes s.patch.transportRate curve settings.steps) ∧
    (∀ s : RevolutionSurface K, ∃ frame,
      TransportedFrame.along s.patch.transportRate curve settings = .ok frame ∧
        frame.Superposes s.patch.transportRate curve settings.steps) ∧
    ∀ s : BlackHoleSurface K, ∃ frame,
      TransportedFrame.along s.patch.transportRate curve settings = .ok frame ∧
        frame.Superposes s.patch.transportRate curve settings.steps := by
  have hframe {rate : TangentVector K → Vec2 K → Vec2 K}
      (hrate : ∀ state, Vec2.Linear (rate state)) :
      ∃ frame, TransportedFrame.along rate curve settings = .ok frame ∧
        frame.Superposes rate curve settings.steps := by
    obtain ⟨frame, hframe, hsamples⟩ := TransportedFrame.exists_samples rate curve hsteps
    exact ⟨frame, hframe, hsamples.superposes hsteps hrate⟩
  refine ⟨fun s => hframe fun state => ?_, fun s => hframe fun state => ?_,
    fun s => hframe fun state => ?_⟩
  · exact (s.jet state.pos.x state.pos.y).bilinear.linear state.vel
  · exact (s.jet state.pos.x).linear state.vel
  · exact Optical.linear s.schwarzschildRadius state

/-- Two steps along a straight line past a black hole, with a surface whose heights are zero. -/
theorem exists_superposes_two_steps :
    let heights : Spline ℝ ℝ := ⟨#[0, 1], #[0, 0], 0, rfl, le_rfl, rfl,
      increasing_iff_pairwise.2 (List.pairwise_pair.2 one_pos)⟩
    let s : BlackHoleSurface ℝ := ⟨1, heights, .default⟩
    let curve : Curve ℝ := .ofSegment ⟨⟨3, 0⟩, ⟨4, 1⟩⟩
    let settings : TransportSettings ℝ := ⟨2, 1⟩
    1 ≤ settings.steps ∧ ∃ frame,
      TransportedFrame.along s.patch.transportRate curve settings = .ok frame ∧
        frame.transport (1 / 2) ⟨1, 2⟩ =
          RungeKutta.carry (1 / 2) (Optical.transportRate 1) curve 0 ⟨1, 2⟩ ∧
        frame.transport 7 ⟨1, 2⟩ = frame.transport 1 ⟨1, 2⟩ := by
  intro heights s curve settings
  have hsteps : 1 ≤ settings.steps := Nat.le_succ 1
  obtain ⟨-, -, hhole⟩ := exists_superposes curve settings hsteps
  obtain ⟨frame, hframe, hsuperposes⟩ := hhole s
  refine ⟨hsteps, frame, hframe, ?_, hsuperposes.behind ⟨1, 2⟩ 7 (by norm_num)⟩
  have hone := hsuperposes.inside ⟨1, 2⟩ 1 hsteps
  simpa [carried, settings, s, BlackHoleSurface.patch] using hone

end SurfaceGeometry
