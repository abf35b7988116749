import SurfaceGeometry.Proofs.Geometry.Germ

/-!
# Connections

The coefficients of the connection by which vectors are carried are read off the rates of the
coordinate vectors (`PointGeometry.connection`); the rate of any vector is made from them where it
is bilinear (`SymmetricBilinear.component_eq`). Together with their derivatives along the coordinate
lines they give the curvature tensor (`SurfaceGerm.riemann`).
-/

namespace SurfaceGeometry

namespace Vec2

variable {α : Type}

/-- The component of a vector in one of the two coordinates. -/
def component (v : Vec2 α) : Fin 2 → α
  | 0 => v.x
  | 1 => v.y

/-- The velocity along a coordinate line. -/
def coordinate [Scalar α] : Fin 2 → Vec2 α
  | 0 => ⟨1, 0⟩
  | 1 => ⟨0, 1⟩

/-- Vectors are added component by component. -/
theorem component_add [Add α] (v w : Vec2 α) (k : Fin 2) :
    (v + w).component k = v.component k + w.component k := by
  fin_cases k <;> rfl

/-- Vectors are multiplied by a number component by component. -/
theorem component_mul [Mul α] (v : Vec2 α) (s : α) (k : Fin 2) :
    (v * s).component k = v.component k * s := by
  fin_cases k <;> rfl

end Vec2

/-- The coefficients of a line element as a symmetric matrix. -/
def LineElement.coefficient {α : Type} (g : LineElement α) : Fin 2 → Fin 2 → α
  | 0, 0 => g.xx
  | 0, 1 => g.xy
  | 1, 0 => g.xy
  | 1, 1 => g.yy

/-- The coefficient `Γ^k_ij`: minus the component `k` of the rate of the coordinate vector `j` that
is carried along the coordinate line `i`. -/
def PointGeometry.connection {α : Type} [Scalar α] (s : PointGeometry α) (k i j : Fin 2) : α :=
  -(s.transportRate (Vec2.coordinate i) (Vec2.coordinate j)).component k

variable {K : Type} [Field K] [LinearOrder K] [ElementaryFunctions K]

/-! ## Rates from coefficients -/

/-- A vector is the sum of the coordinate vectors times its components. -/
theorem Vec2.eq_coordinates (v : Vec2 K) :
    v = (coordinate 0 : Vec2 K) * v.x + (coordinate 1 : Vec2 K) * v.y := by
  apply Vec2.ext <;> simp [coordinate]

namespace SymmetricBilinear

/-- A bilinear rate is known from the rates for the coordinate vectors, which are the connection
coefficients but for their sign. -/
theorem component_right {rate : Vec2 K → Vec2 K → Vec2 K} (h : SymmetricBilinear rate)
    (u v : Vec2 K) (k : Fin 2) :
    (rate u v).component k = ∑ j, (rate u (Vec2.coordinate j)).component k * v.component j := by
  conv_lhs => rw [v.eq_coordinates, h.add, h.mul, h.mul]
  rw [Vec2.component_add, Vec2.component_mul, Vec2.component_mul, Fin.sum_univ_two]
  rfl

/-- The coefficients are the factors of minus a component of the velocity and one of the vector. -/
theorem component_eq {s : PointGeometry K} (h : SymmetricBilinear s.transportRate) (vel v : Vec2 K)
    (k : Fin 2) :
    (s.transportRate vel v).component k =
      -∑ i, ∑ j, s.connection k i j * vel.component i * v.component j := by
  rw [h.symm, h.component_right, ← Finset.sum_neg_distrib]
  refine Finset.sum_congr rfl fun i _ => ?_
  rw [h.symm, h.component_right, Finset.sum_mul, ← Finset.sum_neg_distrib]
  refine Finset.sum_congr rfl fun j _ => ?_
  unfold PointGeometry.connection
  ring

end SymmetricBilinear

/-! ## Curvature -/

namespace SurfaceGerm

/-- The derivative of `Γ^m_jk` along the coordinate line `i`. -/
noncomputable def connectionRate (s : SurfaceGerm K) (i m j k : Fin 2) : K :=
  ((s.along (Vec2.coordinate i)).connection m j k).snd

/-- The component `R^m_kij` of the curvature tensor. -/
noncomputable def riemann (s : SurfaceGerm K) (m k i j : Fin 2) : K :=
  s.connectionRate i m j k - s.connectionRate j m i k +
    ∑ p, (s.here.connection m i p * s.here.connection p j k -
      s.here.connection m j p * s.here.connection p i k)

/-- The component `R_lkij` of the curvature tensor, with the upper index lowered. -/
noncomputable def riemannLowered (s : SurfaceGerm K) (l k i j : Fin 2) : K :=
  ∑ m, s.here.lineElement.coefficient l m * s.riemann m k i j

/-- The curvature of the connection by which vectors are carried. On a sphere it is positive. -/
structure HasCurvature (s : SurfaceGerm K) (curvature : K) : Prop where
  /-- Vectors are carried by the connection. -/
  transportRate (vel v : Vec2 K) (k) : (s.here.transportRate vel v).component k =
    -∑ i, ∑ j, s.here.connection k i j * vel.component i * v.component j
  riemann : s.riemannLowered 0 1 0 1 = curvature * s.here.lineElement.det

end SurfaceGerm

end SurfaceGeometry
