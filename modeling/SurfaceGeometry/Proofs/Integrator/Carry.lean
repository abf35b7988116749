import SurfaceGeometry.Proofs.Exact.Real
import SurfaceGeometry.Integrator.RungeKutta

/-!
# Carried vectors as systems

A vector that is carried along a curve is the state of a system of two numbers (`carriedSystem`),
and in exact arithmetic the two steps of Runge and Kutta are one method: the step of the system is
the step of the vector (`step_carriedSystem`), and so are any number of steps one after the other
(`trajectory_carriedSystem`). The one keeps slopes, the other slopes times the size of the step. The
lists that the system writes over are as long behind a step as before, so that the next step can use
them.
-/

namespace SurfaceGeometry

/-- The components of a vector. -/
def Vec2.toList {α : Type} (v : Vec2 α) : List α := [v.x, v.y]

namespace RungeKutta

/-! ## Workspaces -/

/-- A workspace has room for a state of `n` numbers, and for no more. -/
structure Workspace.Fits {α : Type} (w : Workspace α) (n : Nat) : Prop where
  k₁ : w.k₁.length = n
  k₂ : w.k₂.length = n
  k₃ : w.k₃.length = n
  k₄ : w.k₄.length = n
  stage : w.stage.length = n

/-- A new workspace has room for the number of components it is made for. -/
theorem Workspace.ofDimension_fits {α : Type} [Scalar α] (n : Nat) :
    (Workspace.ofDimension n : Workspace α).Fits n := by
  constructor <;> exact List.length_replicate

/-- Nothing is left of a list as long as what is written over it. -/
theorem overwrite_eq {α : Type} {numbers buffer : List α} (h : buffer.length = numbers.length) :
    overwrite numbers buffer = numbers := by
  rw [overwrite, ← h, List.drop_length, List.append_nil]

/-! ## The system of a carried vector -/

/-- The system whose state is a vector that is carried along a curve. -/
def carriedSystem {α : Type} (rate : TangentVector α → Vec2 α → Vec2 α) (curve : Curve α) :
    System α :=
  ofRates fun t state =>
    match state with
    | [x, y] => (rate (curve.tangent t) ⟨x, y⟩).toList
    | _ => []

/-- Over a list of two numbers the system writes the rate of the vector. -/
theorem carriedSystem_apply {α : Type} (rate : TangentVector α → Vec2 α → Vec2 α) (curve : Curve α)
    (t : α) (v : Vec2 α) {buffer : List α} (h : buffer.length = 2) :
    carriedSystem rate curve t v.toList buffer = (rate (curve.tangent t) v).toList :=
  overwrite_eq h

/-! ## Slopes -/

/-- A stage is moved along a slope times a part of the step. -/
theorem stage_eq {K : Type} [Field K] (v k : Vec2 K) (h part : K) :
    v + k * h * part = v + k * (part * h) := by
  have hpart (a : K) : a * h * part = a * (part * h) := by ring
  apply Vec2.ext
  · simp only [Vec2.add_x, Vec2.mul_x, hpart]
  · simp only [Vec2.add_y, Vec2.mul_y, hpart]

/-- The mean of the stages is that of their slopes, times the step. -/
theorem mean_eq {K : Type} [Field K] (v k₁ k₂ k₃ k₄ : Vec2 K) (h two six : K) :
    v + (k₁ * h + k₂ * h * two + k₃ * h * two + k₄ * h) / six =
      v + (k₁ + k₂ * two + k₃ * two + k₄) * (h / six) := by
  have hmean (a b c d : K) : (a * h + b * h * two + c * h * two + d * h) / six =
      (a + b * two + c * two + d) * (h / six) := by ring
  apply Vec2.ext
  · simp only [Vec2.add_x, Vec2.mul_x, Vec2.div_x, hmean]
  · simp only [Vec2.add_y, Vec2.mul_y, Vec2.div_y, hmean]

variable {K : Type} [Field K] [LinearOrder K] [ElementaryFunctions K]

/-- A state moved along rates is the vector moved along the rate. -/
theorem advance_toList (h : K) (v k : Vec2 K) :
    advance h v.toList k.toList = (v + k * h).toList := by
  show [v.x + h * k.x, v.y + h * k.y] = [v.x + k.x * h, v.y + k.y * h]
  rw [mul_comm h, mul_comm h]

/-- The stage of a system, written over the one before. -/
theorem overwrite_advance (h : K) (v k : Vec2 K) {buffer : List K} (hbuffer : buffer.length = 2) :
    overwrite (advance h v.toList k.toList) buffer = (v + k * h).toList := by
  rw [advance_toList]
  exact overwrite_eq hbuffer

/-- The weighted sum of the stages, taken number by number, is that of vectors. -/
theorem combine_toList (k₁ k₂ k₃ k₄ : Vec2 K) :
    combine k₁.toList k₂.toList k₃.toList k₄.toList =
      (k₁ + k₂ * ((2 : Nat) : K) + k₃ * ((2 : Nat) : K) + k₄).toList := by
  have htwo (a : K) : ((2 : Nat) : K) * a = a * ((2 : Nat) : K) := mul_comm _ _
  show [k₁.x + (2 : Nat) * k₂.x + (2 : Nat) * k₃.x + k₄.x,
    k₁.y + (2 : Nat) * k₂.y + (2 : Nat) * k₃.y + k₄.y] = _
  rw [htwo, htwo, htwo, htwo]
  rfl

/-! ## Steps -/

/-- The step of the system of a carried vector is the step of the vector, whatever the lists hold
that it writes over. -/
theorem step_carriedSystem {w : Workspace K} (hw : w.Fits 2)
    (rate : TangentVector K → Vec2 K → Vec2 K) (curve : Curve K) (t : K) (v : Vec2 K) (h : K) :
    ∃ w' : Workspace K, w'.Fits 2 ∧
      step (carriedSystem rate curve) w t v.toList h =
        (w', t + h, (carry h rate curve t v).toList) := by
  unfold step carry
  dsimp only
  rw [mean_eq, stage_eq, stage_eq, carriedSystem_apply rate curve t v hw.k₁]
  rw [overwrite_advance _ _ _ hw.stage, carriedSystem_apply _ _ _ _ hw.k₂,
    overwrite_advance _ _ _ rfl, carriedSystem_apply _ _ _ _ hw.k₃, overwrite_advance _ _ _ rfl,
    carriedSystem_apply _ _ _ _ hw.k₄, combine_toList, advance_toList]
  exact ⟨_, ⟨rfl, rfl, rfl, rfl, rfl⟩, rfl⟩

/-- The times and the vectors behind steps of the given sizes, made one after the other. -/
def carriedTrajectory {α : Type} [Scalar α] (rate : TangentVector α → Vec2 α → Vec2 α)
    (curve : Curve α) (t : α) (v : Vec2 α) : List α → List (α × List α)
  | [] => []
  | h :: rest =>
    let v' := carry h rate curve t v
    (t + h, v'.toList) :: carriedTrajectory rate curve (t + h) v' rest

/-- A run of the system is a run of steps of the vector, with the times. -/
theorem trajectory_carriedSystem {w : Workspace K} (hw : w.Fits 2)
    (rate : TangentVector K → Vec2 K → Vec2 K) (curve : Curve K) (t : K) (v : Vec2 K)
    (sizes : List K) :
    trajectory (carriedSystem rate curve) w t v.toList sizes =
      carriedTrajectory rate curve t v sizes := by
  induction sizes generalizing w t v with
  | nil => rfl
  | cons h rest ih =>
    obtain ⟨w', hw', hstep⟩ := step_carriedSystem hw rate curve t v h
    rw [trajectory, hstep, carriedTrajectory]
    dsimp only
    rw [ih hw']

/-- The two steps are one method: for a vector that is carried along a curve they give the same
vector and the time behind the step, once and any number of times in one workspace. -/
theorem carriedSystem_method {w : Workspace K} (hw : w.Fits 2)
    (rate : TangentVector K → Vec2 K → Vec2 K) (curve : Curve K) (t : K) (v : Vec2 K) :
    (∀ h, ∃ w' : Workspace K, step (carriedSystem rate curve) w t v.toList h =
        (w', t + h, (carry h rate curve t v).toList)) ∧
      ∀ sizes, trajectory (carriedSystem rate curve) w t v.toList sizes =
        carriedTrajectory rate curve t v sizes := by
  refine ⟨fun h => ?_, trajectory_carriedSystem hw rate curve t v⟩
  obtain ⟨w', -, hstep⟩ := step_carriedSystem hw rate curve t v h
  exact ⟨w', hstep⟩

/-- A vector that turns along a straight line, and a step in a new workspace. -/
theorem carriedSystem_method_turning :
    let rate : TangentVector ℝ → Vec2 ℝ → Vec2 ℝ := fun s v => ⟨-(s.pos.x * v.y), s.pos.x * v.x⟩
    let curve : Curve ℝ := .ofSegment ⟨⟨0, 1⟩, ⟨1, 2⟩⟩
    (Workspace.ofDimension 2 : Workspace ℝ).Fits 2 ∧
      ∃ w', step (carriedSystem rate curve) (Workspace.ofDimension 2) 0 [3, 4] (1 / 2) =
        (w', 0 + 1 / 2, (carry (1 / 2) rate curve 0 ⟨3, 4⟩).toList) := by
  intro rate curve
  have hfits : (Workspace.ofDimension 2 : Workspace ℝ).Fits 2 := Workspace.ofDimension_fits 2
  exact ⟨hfits, (carriedSystem_method hfits rate curve 0 ⟨3, 4⟩).1 (1 / 2)⟩

end RungeKutta

end SurfaceGeometry
