import SurfaceGeometry.Proofs.Integrator.Stages

/-!
# The order of the Runge-Kutta step

In exact arithmetic a step integrates rates that are polynomials of the time, of degree three or
less, and no other polynomials (`simpson_iff`): along such rates the step is the rule of Simpson. A
linear system is multiplied by the exponential series up to the fourth power (`vectorStep_mulVec`).
Both hold of systems of any dimension, and of lists that earlier steps have written to
(`fourth_order`).
-/

namespace SurfaceGeometry

namespace RungeKutta

open scoped Polynomial Matrix

variable {K : Type} [Field K]

/-! ## The rule of Simpson -/

section
open Polynomial

/-- The four stages of a step: behind which part of it, and with which weight. -/
def stages : List (ℚ × ℕ) := [(0, 1), (1 / 2, 2), (1 / 2, 2), (1, 1)]

/-- The rates at the stages of a step, weighted as the step does. -/
def weighted (p : K[X]) (t h : K) : K :=
  (stages.map fun (part, weight) => weight * p.eval (t + part * h)).sum

variable [CharZero K] {P : K[X]}

/-- The weighted sum of the rates, written out. -/
theorem weighted_eq (p : K[X]) (t h : K) : weighted p t h =
    p.eval t + 2 * p.eval (t + 1 / 2 * h) + 2 * p.eval (t + 1 / 2 * h) + p.eval (t + h) := by
  simp [weighted, stages, add_assoc]

/-- Every polynomial is a derivative. -/
theorem exists_derivative_eq (p : K[X]) : ∃ P, derivative P = p := by
  induction p using Polynomial.induction_on' with
  | add p q hp hq =>
    obtain ⟨P, rfl⟩ := hp
    obtain ⟨Q, rfl⟩ := hq
    exact ⟨P + Q, derivative_add⟩
  | monomial k a =>
    refine ⟨monomial (k + 1) (a / ((k + 1 : ℕ) : K)), ?_⟩
    rw [derivative_monomial, div_mul_cancel₀ a (Nat.cast_ne_zero.2 k.succ_ne_zero),
      Nat.add_sub_cancel]

/-- Up to degree three the weighted rates are the mean rate. -/
theorem simpson (hP : (derivative P).natDegree ≤ 3) (t h : K) :
    h / 6 * weighted (derivative P) t h = P.eval (t + h) - P.eval t := by
  have hrate : (derivative P).natDegree < 4 := Nat.lt_succ_of_le hP
  have hcurve : P.natDegree < 5 := by
    rw [natDegree_derivative] at hP
    omega
  simp only [weighted_eq, eval_eq_sum_range' hcurve, eval_eq_sum_range' hrate,
    Finset.sum_range_succ, Finset.sum_range_zero, coeff_derivative]
  push_cast
  ring

/-- From the fourth power on, the weights of the stages are not those of the integral. -/
theorem weights_ne {k : ℕ} (hk : 4 ≤ k) : (k + 1) * (4 + 2 ^ k) ≠ 6 * 2 ^ k := by
  rcases hk.eq_or_lt with rfl | hk
  · decide
  · have hpos : 0 < 2 ^ k := Nat.two_pow_pos k
    have hsix : 6 * (4 + 2 ^ k) ≤ (k + 1) * (4 + 2 ^ k) := Nat.mul_le_mul_right _ (by omega)
    omega

/-- Steps from zero that lose nothing, as an identity of polynomials in the size of the step. -/
theorem identity_of_exact
    (hexact : ∀ h, h / 6 * weighted (derivative P) 0 h = P.eval (0 + h) - P.eval 0) :
    C 6 * (P - C (P.eval 0)) =
      X * (C ((derivative P).eval 0) + C 4 * (derivative P).comp (C (1 / 2) * X) +
        derivative P) := by
  refine Polynomial.funext fun h => ?_
  have hvalue := hexact h
  simp only [weighted_eq, zero_add] at hvalue
  simp only [eval_mul, eval_sub, eval_C, eval_X, eval_add, eval_comp, ← hvalue]
  ring

/-- Steps that lose nothing leave no room for a power above the third. -/
theorem coeff_eq_zero_of_exact
    (hexact : ∀ h, h / 6 * weighted (derivative P) 0 h = P.eval (0 + h) - P.eval 0) {k : ℕ}
    (hk : 4 ≤ k) : (derivative P).coeff k = 0 := by
  have hcoeff := congrArg (coeff · (k + 1)) (identity_of_exact hexact)
  simp only [coeff_C_mul, coeff_sub, coeff_X_mul, coeff_add, comp_C_mul_X_coeff,
    coeff_C_of_ne_zero k.succ_ne_zero, coeff_C_of_ne_zero (show k ≠ 0 by omega), coeff_derivative,
    sub_zero, zero_add] at hcoeff
  have hhalf : (1 / 2 : K) ^ k * 2 ^ k = 1 := by
    rw [← mul_pow, one_div_mul_cancel two_ne_zero, one_pow]
  have hweights : ((k + 1) * (4 + 2 ^ k) : K) - 6 * 2 ^ k ≠ 0 := by
    rw [sub_ne_zero]
    exact_mod_cast weights_ne hk
  have hproduct : P.coeff (k + 1) * ((k + 1) * (4 + 2 ^ k) - 6 * 2 ^ k) = 0 := by
    linear_combination (-2 ^ k) * hcoeff - 4 * P.coeff (k + 1) * (k + 1) * hhalf
  rw [coeff_derivative, (mul_eq_zero.1 hproduct).resolve_right hweights, zero_mul]

/-- The weighted rates are the mean rate at every time and for steps of every size just up to degree
three. -/
theorem simpson_iff : (∀ t h, h / 6 * weighted (derivative P) t h = P.eval (t + h) - P.eval t) ↔
    (derivative P).natDegree ≤ 3 :=
  ⟨fun hexact => natDegree_le_iff_coeff_eq_zero.2 fun _ hk => coeff_eq_zero_of_exact (hexact 0) hk,
    simpson⟩

end

/-! ## Steps of vectors -/

/-- The exponential series of a matrix up to the fourth power. -/
def exponential {n : Nat} (A : Matrix (Fin n) (Fin n) K) : Matrix (Fin n) (Fin n) K :=
  ∑ k ∈ Finset.range 5, (k.factorial : K)⁻¹ • A ^ k

/-- The exponential series up to the fourth power, written out. -/
theorem exponential_eq {n : Nat} (A : Matrix (Fin n) (Fin n) K) : exponential A =
    1 + A + (1 / 2 : K) • A ^ 2 + (1 / 6 : K) • A ^ 3 + (1 / 24 : K) • A ^ 4 := by
  simp [exponential, Finset.sum_range_succ, Nat.factorial]

variable [LinearOrder K] [IsStrictOrderedRing K] [ElementaryFunctions K] {n : Nat}

/-- A step of a vector, with one half for the literal of the program. -/
theorem vectorStep_eq (rates : K → (Fin n → K) → Fin n → K) (h t : K) (x : Fin n → K) :
    vectorStep rates h t x =
      have k₁ := rates t x
      have k₂ := rates (t + 1 / 2 * h) (x + (1 / 2 * h) • k₁)
      have k₃ := rates (t + 1 / 2 * h) (x + (1 / 2 * h) • k₂)
      have k₄ := rates (t + h) (x + h • k₃)
      x + (h / 6) • (k₁ + (2 : K) • k₂ + (2 : K) • k₃ + k₄) := by
  have hmoved (h : K) (x k : Fin n → K) : moved h x k = x + h • k := rfl
  unfold vectorStep
  simp only [Exact.half_eq, hmoved, Exact.ofNat_eq]
  rfl

/-- Rates that depend on the time alone. -/
theorem vectorStep_polynomial (p : Fin n → K[X]) (h t : K) (x : Fin n → K) :
    vectorStep (fun t _ i => (p i).eval t) h t x = fun i => x i + h / 6 * weighted (p i) t h := by
  simp only [vectorStep_eq, weighted_eq]
  rfl

open Matrix in
/-- Rates that are linear in the state. -/
theorem vectorStep_mulVec (A : Matrix (Fin n) (Fin n) K) (h t : K) (x : Fin n → K) :
    vectorStep (fun _ x => A *ᵥ x) h t x = exponential (h • A) *ᵥ x := by
  rw [vectorStep_eq, exponential_eq]
  dsimp only
  simp only [add_mulVec, smul_mulVec, mulVec_add, mulVec_smul, one_mulVec, pow_succ, pow_zero,
    one_mul, ← mulVec_mulVec]
  module

/-! ## Steps of systems -/

/-- The steps of a system go along the curves that `P` gives the components: from every state, at
every time and with every size. -/
def Follows (system : System K) (w : Workspace K) (P : Fin n → K[X]) : Prop :=
  ∀ t h (x : Fin n → K), (step system w t (List.ofFn x) h).2 =
    (t + h, List.ofFn fun i => x i + ((P i).eval (t + h) - (P i).eval t))

open Polynomial in
/-- A system whose rates are the derivatives of polynomials is followed exactly just if these
derivatives have degree three or less: component by component, a step is the rule of Simpson. -/
theorem follows_iff {system : System K} {w : Workspace K} (hw : w.Fits n) {P : Fin n → K[X]}
    (hs : Computes system fun t _ i => (derivative (P i)).eval t) :
    Follows system w P ↔ ∀ i, (derivative (P i)).natDegree ≤ 3 := by
  have hstep (t h : K) (x : Fin n → K) : (step system w t (List.ofFn x) h).2 =
      (t + h, List.ofFn fun i => x i + h / 6 * weighted (derivative (P i)) t h) := by
    obtain ⟨w', -, hstep⟩ := step_of_computes hs hw t h x
    rw [hstep, vectorStep_polynomial]
  unfold Follows
  simp only [hstep, Prod.mk.injEq, true_and, List.ofFn_inj, funext_iff, add_right_inj,
    ← simpson_iff]
  exact ⟨fun hfollows i t h => hfollows t h 0 i, fun hexact t h _ i => hexact i t h⟩

/-- A step of a linear system multiplies the state by the exponential series of the matrix times the
size of the step. -/
theorem step_mulVec {system : System K} {w : Workspace K} (hw : w.Fits n)
    {A : Matrix (Fin n) (Fin n) K} (hs : Computes system fun _ x => A *ᵥ x) (t h : K)
    (x : Fin n → K) :
    (step system w t (List.ofFn x) h).2 = (t + h, List.ofFn (exponential (h • A) *ᵥ x)) := by
  obtain ⟨w', -, hstep⟩ := step_of_computes hs hw t h x
  rw [hstep, vectorStep_mulVec]

/-! ## Used workspaces -/

section
open Polynomial

/-- What steps do in a workspace, whatever earlier steps have left in it, for systems of any
dimension that write all their rates. Rates that are polynomials of the time are integrated just if
no degree is above three, a linear system is multiplied by the exponential series up to the fourth
power, and in any arithmetic a step and a run of steps do in a used workspace what they do in a new
one. -/
theorem fourth_order {α : Type} [Scalar α] (n : Nat) :
    (∀ p : Fin n → K[X], (∃ P : Fin n → K[X], ∀ i, derivative (P i) = p i) ∧
      ∀ P : Fin n → K[X], (∀ i, derivative (P i) = p i) →
        ∀ (w : Workspace K) (system : System K), w.Used n →
          Computes system (fun t _ i => (p i).eval t) →
          (Follows system w P ↔ ∀ i, (p i).natDegree ≤ 3)) ∧
    (∀ (A : Matrix (Fin n) (Fin n) K) (w : Workspace K) (system : System K), w.Used n →
      Computes system (fun _ x => A *ᵥ x) → ∀ t h x,
        (step system w t (List.ofFn x) h).2 = (t + h, List.ofFn (exponential (h • A) *ᵥ x))) ∧
    ∀ (w : Workspace α) (system : System α), w.Used n → WritesAll system n →
      ∀ (t : α) (state : List α), state.length = n →
        (∀ h, (step system w t state h).2 = (step system (.ofDimension n) t state h).2) ∧
        ∀ sizes, trajectory system w t state sizes =
          trajectory system (.ofDimension n) t state sizes := by
  refine ⟨?_, ?_, ?_⟩
  · intro p
    constructor
    · choose P hP using fun i => exists_derivative_eq (p i)
      exact ⟨P, hP⟩
    · intro P hP w system hw hs
      obtain rfl : (fun i => derivative (P i)) = p := funext hP
      exact follows_iff hw.fits hs
  · intro A w system hw hs t h x
    exact step_mulVec hw.fits hs t h x
  · intro w system hw hs t state hstate
    have hnew : (Workspace.ofDimension n : Workspace α).Fits n := Workspace.ofDimension_fits n
    exact ⟨fun h => hs.step_eq hw.fits hnew t h hstate, hs.trajectory_eq hw.fits hnew t hstate⟩

/-- In a workspace that a step of another system has used: a step along a curve of the fourth
degree, and one of a number that decays. -/
theorem fourth_order_decay :
    let cubic : System ℝ := ofRates fun t _ => [4 * t ^ 3]
    let decay : System ℝ := ofRates fun _ state => state.map Neg.neg
    let w := (step decay (.ofDimension 1) 0 [5] 2).1
    w.Used 1 ∧ (step cubic w 1 [7] 2).2 = (3, [87]) ∧ (step decay w 0 [1] 1).2 = (1, [3 / 8]) ∧
      (step decay w 0 [1] 1).2 = (step decay (.ofDimension 1) 0 [1] 1).2 := by
  intro cubic decay w
  have hcubic : Computes cubic fun t _ (_ : Fin 1) => (C 4 * X ^ 3 : ℝ[X]).eval t := by
    intro t x buffer hbuffer
    have hrate : (C 4 * X ^ 3 : ℝ[X]).eval t = 4 * t ^ 3 := by simp
    simp only [hrate]
    exact overwrite_ofFn (fun _ : Fin 1 => 4 * t ^ 3) hbuffer
  have hdecay : Computes decay fun _ (x : Fin 1 → ℝ) => (-1 : Matrix (Fin 1) (Fin 1) ℝ) *ᵥ x := by
    intro t x buffer hbuffer
    show overwrite ((List.ofFn x).map Neg.neg) buffer = _
    simp only [List.map_ofFn, Matrix.neg_mulVec, Matrix.one_mulVec]
    exact overwrite_ofFn _ hbuffer
  have hkeeps : KeepsLength decay 1 := by
    intro t state buffer hstate hbuffer
    show (overwrite (state.map Neg.neg) buffer).length = 1
    rw [length_overwrite (by rw [List.length_map, hbuffer]; exact hstate), hbuffer]
  have hused : w.Used 1 := .step 0 2 .new hkeeps le_rfl
  obtain ⟨hpolynomial, hlinear, hmemory⟩ := fourth_order (K := ℝ) (α := ℝ) 1
  have hcurve : derivative (X ^ 4 : ℝ[X]) = C 4 * X ^ 3 := by
    rw [derivative_X_pow, Nat.cast_ofNat]
  have hfollows := ((hpolynomial _).2 (fun _ => X ^ 4) (fun _ => hcurve) w cubic hused hcubic).2
    (fun _ => natDegree_C_mul_X_pow_le 4 3)
  refine ⟨hused, ?_, ?_, (hmemory w decay hused hdecay.writesAll 0 [1] rfl).1 1⟩
  · refine (hfollows 1 2 fun _ => 7).trans ?_
    norm_num
  · refine (hlinear (-1) w decay hused hdecay 0 1 fun _ => 1).trans ?_
    have hseries : exponential ((1 : ℝ) • (-1 : Matrix (Fin 1) (Fin 1) ℝ)) = (3 / 8 : ℝ) • 1 := by
      simp only [exponential_eq, one_smul, pow_succ, pow_zero, mul_neg, mul_one, neg_neg]
      module
    rw [hseries, Matrix.smul_mulVec, Matrix.one_mulVec]
    norm_num

end

end RungeKutta

end SurfaceGeometry
