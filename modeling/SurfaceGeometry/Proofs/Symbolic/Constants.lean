import SurfaceGeometry.Proofs.Symbolic.Closure

/-!
# Constants of simplified trees

Every rule of simplification that computes a constant either looks whether it is finite or cannot
give another one, except for one: the constants of two nested products are merged into their
product. So a simplified tree has finite constants as long as none of the products overflows that
its passes merge constants into (`Expr.finiteConstants_simplify`), and there is a tree where one
does (`Expr.not_finiteConstants_simplify`).
-/

namespace SurfaceGeometry

namespace Expr

/-- The product of any two constants that a pass over the tree merges is finite. -/
def MergesFinitely {α : Type} [Scalar α] (e : Expr α) : Prop :=
  ∀ part ∈ e.preorder, ∀ ab ∈ part.merged?, Scalar.isFinite (ab.1 * ab.2) = true

instance {α : Type} [Scalar α] (e : Expr α) : Decidable e.MergesFinitely :=
  inferInstanceAs (Decidable (∀ part ∈ e.preorder, ∀ ab ∈ part.merged?, _ = true))

/-- As long as no two constants are merged whose product is not finite, simplification creates no
such constant, and a tree that has a text has one when it is simplified. -/
theorem finiteConstants_simplify {e : Expr Float} (he : e.FiniteConstants)
    (hmerged : ∀ k < 8, (Expr.simplifyOnce^[k] e).MergesFinitely) :
    e.simplify.FiniteConstants ∧
      ((∃ text, e.shader = .ok text) → ∃ text, e.simplify.shader = .ok text) := by
  have hfinite : e.simplify.FiniteConstants :=
    hereditary_finiteConstants.simplifyWithin he fun k hk part hpart ab hab =>
      finiteConstants_const.2 (hmerged k hk part hpart ab hab)
  refine ⟨hfinite, ?_⟩
  rintro ⟨text, htext⟩
  exact (exists_shader_iff_finiteConstants (compiles_of_shader htext).simplify).2 hfinite

/-- The constants of `2 * (3 * (x + 0))` are merged in the first pass. -/
theorem finiteConstants_simplify_merged :
    let e : Expr Float := .binary .mul (.const 2)
      (.binary .mul (.const 3) (.binary .add (.symbol "x") (.const 0)))
    e.FiniteConstants ∧ e.merged? = some (2, 3) ∧
      (∀ k < 8, (Expr.simplifyOnce^[k] e).MergesFinitely) ∧ e.simplify.FiniteConstants := by
  intro e
  have he : e.FiniteConstants := List.all_eq_true.1 (rfl : e.literals.all Scalar.isFinite = true)
  have hmerged : ∀ k < 8, (Expr.simplifyOnce^[k] e).MergesFinitely := by decide
  exact ⟨he, rfl, hmerged, (finiteConstants_simplify he hmerged).1⟩

/-- The constants of `1e200 * (1e200 * x)` are merged into an infinite one, which has no text. -/
theorem not_finiteConstants_simplify :
    let e : Expr Float := .binary .mul (.const 1e200) (.binary .mul (.const 1e200) (.symbol "x"))
    e.FiniteConstants ∧ (∃ text, e.shader = .ok text) ∧
      ¬e.simplify.FiniteConstants ∧ ¬∃ text, e.simplify.shader = .ok text := by
  intro e
  have hall : e.literals.all Scalar.isFinite = true ∧
      e.simplify.literals.all Scalar.isFinite = false := by decide +kernel
  have he : e.FiniteConstants := List.all_eq_true.1 hall.1
  have hinfinite : ¬e.simplify.FiniteConstants := fun hfinite =>
    Bool.eq_false_iff.1 hall.2 (List.all_eq_true.2 hfinite)
  have hcompiles : e.Compiles ⟨["x"], []⟩ := ⟨_, rfl⟩
  refine ⟨he, (exists_shader_iff_finiteConstants hcompiles).2 he, hinfinite, ?_⟩
  rintro ⟨text, htext⟩
  exact hinfinite (finiteConstants_of_shader htext)

end Expr

end SurfaceGeometry
