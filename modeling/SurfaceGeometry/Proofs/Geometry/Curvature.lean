import SurfaceGeometry.Proofs.Geometry.Connection
import SurfaceGeometry.Proofs.Geometry.Transport

/-!
# Gaussian curvature

The curvature that graph surfaces and surfaces of revolution report is that of the connection by
which they carry vectors (`hasCurvature_germ`). For a graph surface the curvature tensor is a
determinant of second derivatives, whatever the third derivatives are
(`GraphJet.riemannLowered_eq`).
-/

namespace SurfaceGeometry

section
variable {α : Type}

/-- The second derivatives along two coordinate lines. -/
def GraphJet.hessian (j : GraphJet α) : Fin 2 → Fin 2 → α
  | 0, 0 => j.fxx
  | 0, 1 => j.fxy
  | 1, 0 => j.fxy
  | 1, 1 => j.fyy

/-- The third derivatives along three coordinate lines. -/
def ThirdPartials.component (t : ThirdPartials α) : Fin 2 → Fin 2 → Fin 2 → α
  | 0, 0, 0 => t.fxxx
  | 0, 0, 1 => t.fxxy
  | 0, 1, 0 => t.fxxy
  | 1, 0, 0 => t.fxxy
  | 0, 1, 1 => t.fxyy
  | 1, 0, 1 => t.fxyy
  | 1, 1, 0 => t.fxyy
  | 1, 1, 1 => t.fyyy

/-- Second derivatives do not depend on the order of the coordinates. -/
theorem GraphJet.hessian_symm (j : GraphJet α) (a b : Fin 2) : j.hessian a b = j.hessian b a := by
  fin_cases a <;> fin_cases b <;> rfl

/-- Third derivatives do not depend on the order of the coordinates; the first and the last may be
exchanged. -/
theorem ThirdPartials.component_symm (t : ThirdPartials α) (a b c : Fin 2) :
    t.component a b c = t.component c b a := by
  fin_cases a <;> fin_cases b <;> fin_cases c <;> rfl

/-- The coefficients of the connection of a surface of revolution. -/
def ProfileJet.christoffel [Scalar α] (j : ProfileJet α) : Fin 2 → Fin 2 → Fin 2 → α
  | 0, 0, 0 => (j.dr * j.ddr + j.dh * j.ddh) / j.speedSquared
  | 0, 1, 1 => -j.r * j.dr / j.speedSquared
  | 1, 0, 1 => j.dr / j.r
  | 1, 1, 0 => j.dr / j.r
  | _, _, _ => 0

end

variable {K : Type} [Field K] [LinearOrder K] [ElementaryFunctions K]

/-! ## Graph surfaces -/

namespace GraphJet

section
variable (j : GraphJet K) (third : ThirdPartials K) (i k a b : Fin 2)

/-- The second fundamental form of a graph, without its normalisation, has the second derivatives as
its entries. -/
theorem bend_coordinate : j.bend (Vec2.coordinate a) (Vec2.coordinate b) = j.hessian a b := by
  fin_cases a <;> fin_cases b <;> simp [bend, Vec2.coordinate, hessian]

/-- The connection coefficients of a graph: a first derivative times a second one, over the metric
factor. -/
theorem connection_eq : j.geometry.connection k a b =
    j.gradient.component k * j.hessian a b / j.metricFactor := by
  show -(j.transportRate (Vec2.coordinate a) (Vec2.coordinate b)).component k = _
  rw [transportRate_eq, bend_coordinate, Vec2.component_mul]
  ring

/-! The same formula in dual numbers, and what it is made from along a coordinate line. -/

/-- The same over dual numbers, where the jet is taken along a curve. It is a lemma of its own since
dual numbers are no field. -/
theorem bend_coordinate_dual (j : GraphJet (DualNumber K)) :
    j.bend (Vec2.coordinate a) (Vec2.coordinate b) = j.hessian a b := by
  fin_cases a <;> fin_cases b <;> simp [bend, Vec2.coordinate, hessian]

/-- The connection coefficients along a curve, over dual numbers. -/
theorem connection_dual_eq (j : GraphJet (DualNumber K)) : j.geometry.connection k a b =
    j.gradient.component k * j.hessian a b / j.metricFactor := by
  show -(j.transportRate (Vec2.coordinate a) (Vec2.coordinate b)).component k = _
  rw [transportRate_eq, bend_coordinate_dual, Vec2.component_mul]
  simp only [Dual.div_eq]
  ring

/-- Along a coordinate the gradient changes by a row of the second derivatives. -/
theorem gradient_along : (j.along third (Vec2.coordinate i)).gradient.component k =
    Dual.changing (j.gradient.component k) (j.hessian k i) := by
  fin_cases i <;> fin_cases k <;>
    simp [Vec2.coordinate, along, gradient, Vec2.component, hessian]

/-- Along a coordinate the second derivatives change by the third ones. -/
theorem hessian_along : (j.along third (Vec2.coordinate i)).hessian a b =
    Dual.changing (j.hessian a b) (third.component a b i) := by
  fin_cases i <;> fin_cases a <;> fin_cases b <;>
    simp [Vec2.coordinate, along, hessian, ThirdPartials.component]

/-- The metric factor is one more than the square of the gradient, as a sum over the coordinates. -/
theorem metricFactor_eq : j.metricFactor = 1 + ∑ p, j.gradient.component p ^ 2 := by
  simp only [metricFactor, gradient, Vec2.component, Fin.sum_univ_two, Exact.one_eq]
  ring

/-- The rate of the metric factor along a coordinate. -/
theorem metricFactor_along : (j.along third (Vec2.coordinate i)).metricFactor =
    Dual.changing j.metricFactor (2 * ∑ p, j.gradient.component p * j.hessian p i) := by
  have hfx : (j.along third (Vec2.coordinate i)).fx = Dual.changing j.fx (j.hessian 0 i) :=
    j.gradient_along third i 0
  have hfy : (j.along third (Vec2.coordinate i)).fy = Dual.changing j.fy (j.hessian 1 i) :=
    j.gradient_along third i 1
  apply TrivSqZeroExt.ext
  · simp [metricFactor, hfx, hfy]
  · simp only [metricFactor, hfx, hfy, gradient, Vec2.component, Fin.sum_univ_two, Dual.ofNat_eq,
      Dual.snd_add, Dual.snd_mul, Dual.fst_changing, Dual.snd_changing]
    ring

/-- The rate of a connection coefficient along a coordinate, by the rule for quotients. It holds the
only third derivative that the curvature needs. -/
theorem connectionRate_eq : (j.germ third).connectionRate i k a b =
    ((j.gradient.component k * third.component a b i + j.hessian k i * j.hessian a b) *
        j.metricFactor -
      j.gradient.component k * j.hessian a b *
        (2 * ∑ p, j.gradient.component p * j.hessian p i)) / j.metricFactor ^ 2 := by
  show ((j.along third (Vec2.coordinate i)).geometry.connection k a b).snd = _
  simp only [connection_dual_eq, gradient_along, hessian_along, metricFactor_along, Dual.snd_div,
    Dual.fst_mul, Dual.snd_mul, Dual.fst_changing, Dual.snd_changing]

end

/-- The determinant of the line element of a graph is its metric factor. -/
theorem det_lineElement (j : GraphJet K) : j.lineElement.det = j.metricFactor := by
  simp only [LineElement.det, lineElement, metricFactor, Exact.one_eq]
  ring

/-- To lower an index, add the part of the vector along the gradient. -/
theorem sum_coefficient (j : GraphJet K) (l : Fin 2) (v : Fin 2 → K) :
    ∑ m, j.lineElement.coefficient l m * v m =
      v l + j.gradient.component l * ∑ m, j.gradient.component m * v m := by
  rw [Fin.sum_univ_two, Fin.sum_univ_two]
  match l with
  | 0 =>
    simp only [LineElement.coefficient, lineElement, gradient, Vec2.component, Exact.one_eq]
    ring
  | 1 =>
    simp only [LineElement.coefficient, lineElement, gradient, Vec2.component, Exact.one_eq]
    ring

/-- The equation of Gauss. -/
theorem riemannLowered_eq [IsStrictOrderedRing K] (j : GraphJet K) (third : ThirdPartials K)
    (l k a b : Fin 2) :
    (j.germ third).riemannLowered l k a b =
      (j.hessian l a * j.hessian k b - j.hessian l b * j.hessian k a) / j.metricFactor := by
  have hD := j.metricFactor_pos.ne'
  -- Both derivatives of the coefficients have this third derivative, so it cancels.
  have hthird : third.component b k a = third.component a k b := third.component_symm b k a
  have hriemann (m : Fin 2) : (j.germ third).riemann m k a b =
      (j.germ third).connectionRate a m b k - (j.germ third).connectionRate b m a k +
        ∑ p, (j.geometry.connection m a p * j.geometry.connection p b k -
          j.geometry.connection m b p * j.geometry.connection p a k) := rfl
  calc (j.germ third).riemannLowered l k a b
      = ∑ m, j.lineElement.coefficient l m * (j.germ third).riemann m k a b := rfl
    _ = (j.germ third).riemann l k a b +
          j.gradient.component l *
            ∑ m, j.gradient.component m * (j.germ third).riemann m k a b := j.sum_coefficient l _
    _ = _ := by
        simp only [hriemann, connectionRate_eq, connection_eq, metricFactor_eq, Fin.sum_univ_two,
          hthird, j.hessian_symm a, j.hessian_symm b] at hD ⊢
        field_simp
        ring

end GraphJet

/-! ## Surfaces of revolution -/

namespace ProfileJet

/-- The connection coefficients of a surface of revolution are its Christoffel symbols. -/
theorem connection_eq (j : ProfileJet K) : j.geometry.connection = j.christoffel := by
  funext k a b
  fin_cases k <;> fin_cases a <;> fin_cases b <;>
    simp [PointGeometry.connection, geometry, transportRate, Vec2.component, Vec2.coordinate,
      christoffel]

/-- The connection coefficients of a surface of revolution along a curve, over dual numbers. -/
theorem connection_dual_eq (j : ProfileJet (DualNumber K)) :
    j.geometry.connection = j.christoffel := by
  funext k a b
  fin_cases k <;> fin_cases a <;> fin_cases b <;>
    simp [PointGeometry.connection, geometry, transportRate, Vec2.component, Vec2.coordinate,
      christoffel]

section
variable (j : ProfileJet K) (dddr dddh : K)

/-- The rate of a connection coefficient is that of the Christoffel symbol. -/
theorem connectionRate_eq (i m a b : Fin 2) : (j.germ dddr dddh).connectionRate i m a b =
    ((j.along dddr dddh (Vec2.coordinate i)).christoffel m a b).snd := by
  rw [← connection_dual_eq]
  rfl

/-- How the coefficient that turns a circle towards the axis changes along the profile. -/
theorem snd_christoffel_along :
    ((j.along dddr dddh (Vec2.coordinate 0)).christoffel 0 1 1).snd =
      (2 * j.r * j.dr * (j.dr * j.ddr + j.dh * j.ddh) -
        (j.dr * j.dr + j.r * j.ddr) * j.speedSquared) / j.speedSquared ^ 2 := by
  simp only [christoffel, along, speedSquared, Vec2.coordinate, Dual.snd_div, Dual.fst_mul,
    Dual.snd_mul, Dual.fst_add, Dual.snd_add, Dual.fst_neg, Dual.snd_neg, Dual.fst_changing,
    Dual.snd_changing, Exact.one_eq]
  ring

/-- Around the axis nothing changes. -/
theorem riemann_eq : (j.germ dddr dddh).riemann 0 1 0 1 =
    ((j.along dddr dddh (Vec2.coordinate 0)).christoffel 0 1 1).snd +
      j.christoffel 0 1 1 * (j.christoffel 0 0 0 - j.christoffel 1 0 1) := by
  have hhere : (j.germ dddr dddh).here.connection = j.christoffel := j.connection_eq
  simp only [SurfaceGerm.riemann, connectionRate_eq, hhere, Fin.sum_univ_two]
  simp only [christoffel, Dual.ofNat_eq, Exact.zero_eq, Dual.snd_changing]
  ring

end

/-- For a surface of revolution the component of the Riemann tensor is the curvature times the
determinant of the line element. -/
theorem riemannLowered_eq {j : ProfileJet K} (hE : j.speedSquared ≠ 0) (hr : j.r ≠ 0)
    (dddr dddh : K) :
    (j.germ dddr dddh).riemannLowered 0 1 0 1 = j.curvature * j.lineElement.det := by
  have hlower : (j.germ dddr dddh).riemannLowered 0 1 0 1 =
      j.speedSquared * (j.germ dddr dddh).riemann 0 1 0 1 := by
    -- The line element is diagonal: only the component along the profile is left.
    have hsum := Fin.sum_univ_two fun m =>
      j.lineElement.coefficient 0 m * (j.germ dddr dddh).riemann m 1 0 1
    rw [show j.lineElement.coefficient 0 1 = 0 from Exact.zero_eq, zero_mul, add_zero] at hsum
    exact hsum
  have hspeed : j.speedSquared = j.dr ^ 2 + j.dh ^ 2 := by
    unfold speedSquared
    ring
  rw [hlower, riemann_eq, snd_christoffel_along]
  simp only [christoffel, curvature, LineElement.det, lineElement, Exact.zero_eq, hspeed] at hE ⊢
  field_simp
  ring

end ProfileJet

/-! ## All surfaces -/

variable [IsStrictOrderedRing K]

/-- The curvature that is reported for graph surfaces, and for surfaces of revolution off the axis
and where the profile has a direction, is that of the connection. -/
theorem hasCurvature_germ :
    (∀ (j : GraphJet K) (third : ThirdPartials K), (j.germ third).HasCurvature j.curvature) ∧
    ∀ (j : ProfileJet K) (dddr dddh : K), j.speedSquared ≠ 0 → j.r ≠ 0 →
      (j.germ dddr dddh).HasCurvature j.curvature := by
  refine ⟨fun j third => ⟨j.bilinear.component_eq, ?_⟩, fun j dddr dddh hE hr => ⟨?_, ?_⟩⟩
  · show _ = (j.fxx * j.fyy - j.fxy * j.fxy) / (j.metricFactor * j.metricFactor) * j.lineElement.det
    rw [j.riemannLowered_eq, j.det_lineElement, ← div_div, div_mul_cancel₀ _ j.metricFactor_pos.ne']
    rfl
  · exact (ProfileJet.describes_rotational hr dddr dddh).bilinear.component_eq
  · exact ProfileJet.riemannLowered_eq hE hr dddr dddh

/-- The unit sphere has the curvature one. -/
theorem hasCurvature_germ_sphere :
    let j : ProfileJet ℝ := ⟨3 / 5, 4 / 5, -(3 / 5), -(4 / 5), 3 / 5, 4 / 5⟩
    j.speedSquared ≠ 0 ∧ j.r ≠ 0 ∧ (j.germ (-(4 / 5)) (-(3 / 5))).HasCurvature 1 := by
  intro j
  have hE : j.speedSquared ≠ 0 := by norm_num [j, ProfileJet.speedSquared]
  have hr : j.r ≠ 0 := by norm_num [j]
  have hone : j.curvature = 1 := by norm_num [j, ProfileJet.curvature, ProfileJet.speedSquared]
  refine ⟨hE, hr, ?_⟩
  rw [← hone]
  exact hasCurvature_germ.2 j _ _ hE hr

end SurfaceGeometry
