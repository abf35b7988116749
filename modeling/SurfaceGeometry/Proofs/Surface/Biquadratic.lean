import SurfaceGeometry.Proofs.Symbolic.Polynomial
import SurfaceGeometry.Proofs.Symbolic.Closure
import SurfaceGeometry.Proofs.Surface.Graph

/-!
# Finite differences of polynomials

Where a sheet is a polynomial of degree at most two in each of its variables, in exact arithmetic,
the finite differences are the partial derivatives, for every width but zero
(`Partial.difference_eq_ofBiquadratic`). And the trees of the partial derivatives have the same
values: the tree of the sheet evaluates to the polynomial, each derivative of the tree to a
derivation of it (`GraphSheet.evaluates_tree`). So it does not matter which of the two a sheet has
(`GraphSheet.difference_eq_tree`).
-/

namespace SurfaceGeometry

open MvPolynomial

variable {K : Type} [Field K]

/-- A polynomial of degree at most two in each of two variables. -/
def biquadratic (c : Fin 3 → Fin 3 → K) (x y : K) : K :=
  ∑ i, ∑ j, c i j * x ^ (i : Nat) * y ^ (j : Nat)

/-- The double sum written out, sorted by the powers of the first variable. -/
theorem biquadratic_eq (c : Fin 3 → Fin 3 → K) (x y : K) :
    biquadratic c x y = (c 0 0 + c 0 1 * y + c 0 2 * y ^ 2) +
      (c 1 0 + c 1 1 * y + c 1 2 * y ^ 2) * x + (c 2 0 + c 2 1 * y + c 2 2 * y ^ 2) * x ^ 2 := by
  simp only [biquadratic, Fin.sum_univ_three, Fin.val_zero, Fin.val_one, Fin.val_two]
  ring

/-- The polynomial in indeterminates. -/
noncomputable def biquadraticPolynomial (c : Fin 3 → Fin 3 → K) : MvPolynomial (Fin 2) K :=
  ∑ i, ∑ j, C (c i j) * X 0 ^ (i : Nat) * X 1 ^ (j : Nat)

/-- At a point the polynomial in indeterminates has the value of the double sum. -/
theorem aeval_biquadraticPolynomial (c : Fin 3 → Fin 3 → K) (x y : K) :
    aeval ![x, y] (biquadraticPolynomial c) = biquadratic c x y := by
  simp [biquadraticPolynomial, biquadratic]

/-- A polynomial that has the values of one with such a degree is that one. -/
theorem eq_biquadraticPolynomial [CharZero K] {P : MvPolynomial (Fin 2) K} {c : Fin 3 → Fin 3 → K}
    (h : ∀ x y, aeval ![x, y] P = biquadratic c x y) : P = biquadraticPolynomial c := by
  refine MvPolynomial.funext fun point => ?_
  have hpoint : point = ![point 0, point 1] := by
    funext i
    fin_cases i <;> rfl
  rw [hpoint, ← coe_aeval_eq_eval]
  exact (h _ _).trans (aeval_biquadraticPolynomial c _ _).symm

namespace Partial

/-- The partial derivatives of such a polynomial. -/
def ofBiquadratic (c : Fin 3 → Fin 3 → K) (x y : K) : Partial → K
  | f => biquadratic c x y
  | fx => (c 1 0 + c 1 1 * y + c 1 2 * y ^ 2) + 2 • (c 2 0 + c 2 1 * y + c 2 2 * y ^ 2) * x
  | fy => (c 0 1 + c 1 1 * x + c 2 1 * x ^ 2) + 2 • (c 0 2 + c 1 2 * x + c 2 2 * x ^ 2) * y
  | fxx => 2 • (c 2 0 + c 2 1 * y + c 2 2 * y ^ 2)
  | fxy => c 1 1 + 2 • c 1 2 * y + 2 • c 2 1 * x + 4 • c 2 2 * x * y
  | fyy => 2 • (c 0 2 + c 1 2 * x + c 2 2 * x ^ 2)

/-- A partial derivative in indeterminates. -/
noncomputable def derivation : Partial → MvPolynomial (Fin 2) K → MvPolynomial (Fin 2) K
  | f, P => P
  | fx, P => pderiv 0 P
  | fy, P => pderiv 1 P
  | fxx, P => pderiv 0 (pderiv 0 P)
  | fxy, P => pderiv 1 (pderiv 0 P)
  | fyy, P => pderiv 1 (pderiv 1 P)

/-- At a point the derivations in indeterminates have the values of the partial derivatives. -/
theorem aeval_derivation (c : Fin 3 → Fin 3 → K) (x y : K) (which : Partial) :
    aeval ![x, y] (which.derivation (biquadraticPolynomial c)) = which.ofBiquadratic c x y := by
  have htwo (i : Fin 2) : pderiv i (2 : MvPolynomial (Fin 2) K) = 0 := (pderiv i).map_natCast 2
  cases which with
  | f => exact aeval_biquadraticPolynomial c x y
  | fx | fy | fxx | fxy | fyy =>
    simp [derivation, ofBiquadratic, biquadraticPolynomial, Fin.sum_univ_three, pderiv_X,
      Derivation.leibniz_pow, htwo]
    ring

variable [LinearOrder K] [ElementaryFunctions K]

/-- Its finite differences are its partial derivatives, whatever the width is. -/
theorem difference_eq_ofBiquadratic [CharZero K] {c : Fin 3 → Fin 3 → K} {F : List K → K}
    (hF : ∀ x y, F [x, y] = biquadratic c x y) {h : K} (hh : h ≠ 0) {which : Partial}
    {stencil : Stencil} (hstencil : which.stencil? = some stencil) (x y : K) :
    stencil.difference F h [x, y] = which.ofBiquadratic c x y := by
  cases which with
  | f => cases hstencil
  | fx =>
    cases hstencil
    show (F [x + h, y] - F [x + -h, y]) / (2 * h) = _
    simp only [hF, biquadratic_eq, ofBiquadratic]
    field_simp
    ring
  | fy =>
    cases hstencil
    show (F [x, y + h] - F [x, y + -h]) / (2 * h) = _
    simp only [hF, biquadratic_eq, ofBiquadratic]
    field_simp
    ring
  | fxx =>
    cases hstencil
    show (F [x + h, y] - 2 * F [x, y] + F [x + -h, y]) / (h * h) = _
    simp only [hF, biquadratic_eq, ofBiquadratic]
    field_simp
    ring
  | fxy =>
    cases hstencil
    show (F [x + h, y + h] - F [x + h, y + -h] - F [x + -h, y + h] + F [x + -h, y + -h]) /
      (4 * h * h) = _
    simp only [hF, biquadratic_eq, ofBiquadratic]
    field_simp
    ring
  | fyy =>
    cases hstencil
    show (F [x, y + h] - 2 * F [x, y] + F [x, y + -h]) / (h * h) = _
    simp only [hF, biquadratic_eq, ofBiquadratic]
    field_simp
    ring

end Partial

/-! ## Trees -/

namespace GraphSheet

variable [LinearOrder K] [ElementaryFunctions K] {names : List String} {params : List K}

/-- The symbols of the tree of a sheet as polynomials: the variables are indeterminates, the
parameters and the named constants have their values. -/
noncomputable def polynomialOf (names : List String) (params : List K) (name : String) :
    Option (MvPolynomial (Fin 2) K) :=
  if name = "x" then some (X 0)
  else if name = "y" then some (X 1)
  else (Scope.lookup ⟨[], names⟩ [] params name).map C

/-- What is looked up at a point are the values of these polynomials there. -/
theorem lookup_eq (x y : K) (name : String) :
    Scope.lookup ⟨vars, names⟩ [x, y] params name =
      (polynomialOf names params name).map (aeval ![x, y]) := by
  unfold polynomialOf
  split
  · next hx =>
    subst hx
    show some x = some (aeval ![x, y] (X 0 : MvPolynomial (Fin 2) K))
    rw [aeval_X, Matrix.cons_val_zero]
  split
  · next hy =>
    subst hy
    show some y = some (aeval ![x, y] (X 1 : MvPolynomial (Fin 2) K))
    rw [aeval_X, Matrix.cons_val_one, Matrix.cons_val_fin_one]
  · next hx hy =>
    have hlast : lastIndexOf? name vars = none := lastIndexOf?_eq_none.2 (by simp [vars, hx, hy])
    have hconstant : (aeval ![x, y] : MvPolynomial (Fin 2) K →ₐ[K] K) ∘ C = id :=
      funext fun a => aeval_C _ a
    rw [Option.map_map, hconstant, Option.map_id_fun, id, Scope.lookup, hlast]
    rfl

/-- The derivation with respect to a variable takes the variable to one and the other symbols to
zero. -/
theorem pderiv_polynomialOf (i : Fin 2) {name : String} {P : MvPolynomial (Fin 2) K}
    (h : polynomialOf names params name = some P) :
    pderiv i P = if name = vars[i] then 1 else 0 := by
  unfold polynomialOf at h
  split at h
  · next hx =>
    cases h
    subst hx
    fin_cases i <;> simp [vars, pderiv_X]
  split at h
  · next hy =>
    cases h
    subst hy
    fin_cases i <;> simp [vars, pderiv_X]
  · next hx hy =>
    obtain ⟨a, -, rfl⟩ := Option.map_eq_some_iff.1 h
    rw [pderiv_C]
    fin_cases i
    · exact (if_neg hx).symm
    · exact (if_neg hy).symm

/-- A tree has at a point the value of the polynomial that it evaluates to. -/
theorem value?_of_evaluates {e : Expr K} {P : MvPolynomial (Fin 2) K}
    (he : e.Evaluates (polynomialOf names params) P) (x y : K) :
    e.value? (Scope.lookup ⟨vars, names⟩ [x, y] params) = some (aeval ![x, y] P) := by
  have hlookup : ∀ name Q, polynomialOf names params name = some Q →
      Scope.lookup ⟨vars, names⟩ [x, y] params name = some (aeval ![x, y] Q) := by
    intro name Q hQ
    rw [lookup_eq, hQ]
    rfl
  exact (he.map (aeval ![x, y]) hlookup).value?_eq

/-- The trees of the partial derivatives compile where the tree of the sheet does. -/
theorem compiles_tree {scope : Scope} {e d : Expr K} {which : Partial} (he : e.Compiles scope)
    (hd : which.tree e = .ok d) : d.Compiles scope := by
  cases which with
  | f =>
    cases hd
    exact he
  | fx | fy => exact he.differentiate hd
  | fxx | fxy | fyy =>
    obtain ⟨first, hfirst, hd⟩ := Outcome.bind_eq_ok.1 hd
    exact (he.differentiate hfirst).differentiate hd

variable [CharZero K] {e : Expr K} {P : MvPolynomial (Fin 2) K}

/-- A derivative of the tree with respect to a variable evaluates to that of the polynomial. -/
theorem evaluates_differentiate (i : Fin 2) (he : e.Evaluates (polynomialOf names params) P) :
    ∃ d, e.differentiate vars[i] = .ok d ∧ d.Evaluates (polynomialOf names params) (pderiv i P) :=
  Expr.Evaluates.differentiate (fun _ h => (pderiv_polynomialOf i h).trans (if_pos rfl))
    (fun _ _ hne h => (pderiv_polynomialOf i h).trans (if_neg hne)) he

/-- Each partial derivative has a tree, and it evaluates to the derivation of the polynomial that
the tree of the sheet evaluates to. -/
theorem evaluates_tree (which : Partial) (he : e.Evaluates (polynomialOf names params) P) :
    ∃ d, which.tree e = .ok d ∧ d.Evaluates (polynomialOf names params) (which.derivation P) := by
  have hsecond (i j : Fin 2) :
      ∃ d, (e.differentiate vars[i]).bind (·.differentiate vars[j]) = .ok d ∧
        d.Evaluates (polynomialOf names params) (pderiv j (pderiv i P)) := by
    obtain ⟨first, hfirst, hP⟩ := evaluates_differentiate i he
    obtain ⟨d, hd, hP⟩ := evaluates_differentiate j hP
    exact ⟨d, Outcome.bind_eq_ok.2 ⟨first, hfirst, hd⟩, hP⟩
  cases which with
  | f => exact ⟨e, rfl, he⟩
  | fx => exact evaluates_differentiate 0 he
  | fy => exact evaluates_differentiate 1 he
  | fxx => exact hsecond 0 0
  | fxy => exact hsecond 0 1
  | fyy => exact hsecond 1 1

/-- A tree with the values of a polynomial of degree at most two in each variable evaluates to it.
-/
theorem evaluates_biquadraticPolynomial {c : Fin 3 → Fin 3 → K} (he : e.IsPolynomial)
    (hvalue : ∀ x y, e.value? (Scope.lookup ⟨vars, names⟩ [x, y] params) =
      some (biquadratic c x y)) :
    e.Evaluates (polynomialOf names params) (biquadraticPolynomial c) := by
  have hσ (name : String) (b : K) (hb : Scope.lookup ⟨vars, names⟩ [0, 0] params name = some b) :
      ∃ P, polynomialOf names params name = some P := by
    rw [lookup_eq] at hb
    obtain ⟨P, hP, -⟩ := Option.map_eq_some_iff.1 hb
    exact ⟨P, hP⟩
  obtain ⟨P, hP⟩ := he.exists_evaluates (hvalue 0 0) hσ
  have hat (x y : K) : aeval ![x, y] P = biquadratic c x y :=
    Option.some_inj.1 ((value?_of_evaluates hP x y).symm.trans (hvalue x y))
  exact eq_biquadraticPolynomial hat ▸ hP

open CompiledFunction (ofExpr) in
/-- Where a polynomial tree has the values of a polynomial of degree at most two in each variable,
each partial derivative has a tree, which can be compiled, and it has the values of the finite
difference that stands in for it, for every width but zero. -/
theorem difference_eq_tree {p : Parameters K} {f : CompiledFunction K} (he : e.IsPolynomial)
    (hf : ofExpr e vars p = .ok f) (hparams : p.names.length ≤ params.length)
    {c : Fin 3 → Fin 3 → K} (hvalue : ∀ x y, f.call params [x, y] = biquadratic c x y)
    {h : K} (hh : h ≠ 0) {which : Partial} {stencil : Stencil}
    (hstencil : which.stencil? = some stencil) :
    ∃ d g, which.tree e = .ok d ∧ ofExpr d vars p = .ok g ∧ ∀ x y,
      (SurfaceField.difference f stencil h).call params [x, y] =
          (SurfaceField.compiled g).call params [x, y] ∧
        d.value? (Scope.lookup ⟨vars, p.names⟩ [x, y] params) =
          some ((SurfaceField.difference f stencil h).call params [x, y]) := by
  have hcall (x y : K) :=
    CompiledFunction.value?_eq_call hf hparams (show [x, y].length = 2 from rfl)
  have hpolynomial := evaluates_biquadraticPolynomial he fun x y =>
    (hcall x y).trans (congrArg some (hvalue x y))
  obtain ⟨d, hd, hderivation⟩ := evaluates_tree which hpolynomial
  obtain ⟨g, hg⟩ := CompiledFunction.exists_ofExpr hf
    (compiles_tree ⟨_, (CompiledFunction.ofExpr_eq_ok hf).1⟩ hd)
  refine ⟨d, g, hd, hg, fun x y => ?_⟩
  have hdifference : (SurfaceField.difference f stencil h).call params [x, y] =
      which.ofBiquadratic c x y :=
    Partial.difference_eq_ofBiquadratic hvalue hh hstencil x y
  have htree : d.value? (Scope.lookup ⟨vars, p.names⟩ [x, y] params) =
      some (which.ofBiquadratic c x y) := by
    rw [← Partial.aeval_derivation]
    exact value?_of_evaluates hderivation x y
  have hsymbolic := CompiledFunction.value?_eq_call hg hparams (show [x, y].length = 2 from rfl)
  rw [hdifference]
  exact ⟨Option.some_inj.1 (htree.symm.trans hsymbolic), htree⟩

open CompiledFunction (ofExpr) in
/-- The mixed derivative of `x ^ 2 * y` over the real numbers, with a width of one half. -/
theorem difference_eq_tree_mixed :
    let e : Expr ℝ := .binary .mul (.binary .pow (.symbol "x") (.const 2)) (.symbol "y")
    let p : Parameters ℝ := .ofList []
    ∃ f d g, ofExpr e vars p = .ok f ∧ Partial.fxy.tree e = .ok d ∧ ofExpr d vars p = .ok g ∧
      ∀ x y, (SurfaceField.difference f (.mixed 0 1) (1 / 2)).call [] [x, y] =
        (SurfaceField.compiled g).call [] [x, y] := by
  intro e p
  have he : e.IsPolynomial := .mul (.pow (.symbol "x") 2) (.symbol "y")
  have hcompiles : e.Compiles ⟨vars, p.names⟩ := by
    have hx : (Expr.symbol "x" : Expr ℝ).Compiles ⟨vars, p.names⟩ := ⟨_, rfl⟩
    have hy : (Expr.symbol "y" : Expr ℝ).Compiles ⟨vars, p.names⟩ := ⟨_, rfl⟩
    exact .binary (.binary hx ⟨_, rfl⟩) hy
  obtain ⟨code, hcode⟩ := hcompiles
  have hunreserved : p.Unreserved := fun name hname => by cases hname
  have hf : ofExpr e vars p = .ok ⟨code, 2⟩ := by
    rw [CompiledFunction.ofExpr_of_unreserved hunreserved, hcode]
    rfl
  have hparams : p.names.length ≤ ([] : List ℝ).length := le_rfl
  let c : Fin 3 → Fin 3 → ℝ := fun i j => if i = 2 ∧ j = 1 then 1 else 0
  have hvalue (x y : ℝ) : CompiledFunction.call ⟨code, 2⟩ [] [x, y] = biquadratic c x y := by
    have hcall := CompiledFunction.value?_eq_call hf hparams (show [x, y].length = 2 from rfl)
    let lookup := Scope.lookup ⟨vars, p.names⟩ [x, y] []
    have hx : (Expr.symbol "x" : Expr ℝ).Evaluates lookup x := .symbol rfl
    have hy : (Expr.symbol "y" : Expr ℝ).Evaluates lookup y := .symbol rfl
    have hproduct : e.Evaluates lookup (x ^ 2 * y) := (hx.pow 2).mul hy
    have hsquare : biquadratic c x y = x ^ 2 * y := by
      rw [biquadratic_eq]
      simp [c, mul_comm]
    rw [hsquare]
    exact Option.some_inj.1 (hcall.symm.trans hproduct.value?_eq)
  have hhalf : (1 / 2 : ℝ) ≠ 0 := by norm_num
  have hmixed : Partial.fxy.stencil? = some (.mixed 0 1) := rfl
  obtain ⟨d, g, hd, hg, hequal⟩ := difference_eq_tree he hf hparams hvalue hhalf hmixed
  exact ⟨_, d, g, hf, hd, hg, fun x y => (hequal x y).1⟩

end GraphSheet

end SurfaceGeometry
