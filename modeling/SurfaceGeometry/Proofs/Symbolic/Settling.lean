import SurfaceGeometry.Proofs.Number.Order
import SurfaceGeometry.Proofs.Symbolic.Closure
import SurfaceGeometry.Proofs.Symbolic.Passes

/-!
# Simplification settles

No rule of simplification gives a tree more nodes (`Expr.Rewrite.size_le`), and so no pass does
(`Expr.size_simplifyOnce_le`). A constant that moves to the left of a product and a negation that
moves out of it leave as many nodes as there were, but take weight away
(`Expr.lightens_simplifyOnce`), so that the passes come to an end. The tree that they end with is
found equal to itself if all of its constants have a value. A pass that starts from such constants
leaves only such ones, except where it merges two of them: the product of zero and an infinite
number has no value. Without such a product the passes end with a tree that a further one is seen to
leave unchanged (`Expr.settles`).
-/

namespace SurfaceGeometry

open Function (IsFixedPt)

namespace Expr

variable {α : Type}

/-! ## Nodes -/

/-- If no argument of a call gets larger, the arguments together do not. -/
theorem sizeAll_map_le {f : Expr α → Expr α} {args : List (Expr α)}
    (h : ∀ arg ∈ args, (f arg).size ≤ arg.size) : sizeAll (args.map f) ≤ sizeAll args := by
  induction args with
  | nil => exact Nat.le_refl _
  | cons arg args ih =>
    rw [List.map_cons, sizeAll, sizeAll]
    exact Nat.add_le_add (h arg (by simp)) (ih fun arg harg => h arg (by simp [harg]))

/-- To have no more nodes is concluded part by part. -/
theorem congruence_size : Congruence fun e e' : Expr α => e'.size ≤ e.size where
  refl e := Nat.le_refl e.size
  trans h h' := Nat.le_trans h' h
  unary _ _ _ h := Nat.add_le_add_right h 1
  binary _ _ _ _ _ hl hr := Nat.add_le_add_right (Nat.add_le_add hl hr) 1
  call _ _ _ h := Nat.add_le_add_right (sizeAll_map_le h) 1

variable [Scalar α]

/-- No rule gives a tree more nodes. -/
theorem Rewrite.size_le {e e' : Expr α} (h : Rewrite e e') : e'.size ≤ e.size := by
  induction h with
  | same => exact Nat.le_refl _
  | mulConst _ ih =>
    simp only [size] at ih ⊢
    omega
  -- What is left is a part of the tree or a constant, or the nodes of the tree but one.
  | _ =>
    simp only [size, sizeAll]
    omega

/-- A pass gives no tree more nodes. -/
theorem size_simplifyOnce_le (e : Expr α) : e.simplifyOnce.size ≤ e.size :=
  congruence_size.simplifyOnce Rewrite.size_le e

/-! ## Constants with a value -/

/-- All constants of the tree have a value. -/
def ValuedConstants (e : Expr α) : Prop :=
  ∀ c ∈ e.literals, Scalar.isNaN c = false

/-- The product of any two constants that a pass over the tree merges has a value. -/
def MergesToValues (e : Expr α) : Prop :=
  ∀ part ∈ e.preorder, ∀ ab ∈ part.merged?, Scalar.isNaN (ab.1 * ab.2) = false

instance (e : Expr α) : Decidable e.MergesToValues :=
  inferInstanceAs (Decidable (∀ part ∈ e.preorder, ∀ ab ∈ part.merged?, _ = false))

/-- To have constants with values only is hereditary: neither the opposite nor the predecessor of a
double with a value is without one. -/
theorem hereditary_valuedConstants : Hereditary (ValuedConstants : Expr Float → Prop) :=
  hereditary_literals Double.isNaN_of_isFinite Double.isNaN_neg Double.isNaN_sub_one

variable {e : Expr Float}

/-- The constants of a tree keep their values in passes that merge no two of them into one without.
-/
theorem ValuedConstants.iterate {n : Nat} (he : e.ValuedConstants)
    (hmerged : ∀ k < n, (simplifyOnce^[k] e).MergesToValues) :
    (simplifyOnce^[n] e).ValuedConstants := by
  rw [← simplifyWithin_eq_iterate]
  exact hereditary_valuedConstants.simplifyWithin he fun k hk part hpart ab hab =>
    List.forall_mem_singleton.2 (hmerged k hk part hpart ab hab)

/-- A tree whose constants have values is equal to itself, which a constant without a value would
not be. -/
theorem ValuedConstants.beq_self (he : e.ValuedConstants) : (e == e) = true :=
  (beq_self_iff e).2 fun c hc => Double.beq_self (he c hc)

/-! ## Where the passes end -/

/-- A pass gives a tree no more nodes, and after some passes a further one leaves the tree as it is.
It is seen to do so, because the trees are found equal, if all constants that are there, or that are
merged on the way, have a value. -/
theorem settles (e : Expr Float) :
    e.simplifyOnce.size ≤ e.size ∧
      ∃ n ≤ e.weight, (∀ m ≥ n, simplifyOnce^[m] e = simplifyOnce^[n] e) ∧
        (e.ValuedConstants → (∀ k < n, (simplifyOnce^[k] e).MergesToValues) →
          ((simplifyOnce^[n] e).simplifyOnce == simplifyOnce^[n] e) = true) := by
  obtain ⟨n, hn, hfixed⟩ := exists_isFixedPt_iterate e
  refine ⟨size_simplifyOnce_le e, n, hn, fun m hm => ?_, fun he hmerged => ?_⟩
  · obtain ⟨k, rfl⟩ := Nat.exists_eq_add_of_le' hm
    rw [Function.iterate_add_apply]
    exact hfixed.iterate k
  · rw [hfixed]
    exact (he.iterate hmerged).beq_self

/-- In the first pass over `(-x * 2) * 3` both constants move to the left and the negation moves
out, and in the second one the constants are merged. -/
theorem settles_merged :
    let e : Expr Float :=
      .binary .mul (.binary .mul (.unary .neg (.symbol "x")) (.const 2)) (.const 3)
    let moved : Expr Float :=
      .unary .neg (.binary .mul (.const 3) (.binary .mul (.const 2) (.symbol "x")))
    let merged : Expr Float := .unary .neg (.binary .mul (.const (3 * 2)) (.symbol "x"))
    e.simplifyOnce = moved ∧ moved.simplifyOnce = merged ∧ e.size = 6 ∧ moved.size = 6 ∧
      e.ValuedConstants ∧ (∀ k, (simplifyOnce^[k] e).MergesToValues) ∧
      ∃ n, ((simplifyOnce^[n] e).simplifyOnce == simplifyOnce^[n] e) = true := by
  intro e moved merged
  have hmoved : e.simplifyOnce = moved := rfl
  have hmerged : moved.simplifyOnce = merged := rfl
  have hfixed : IsFixedPt simplifyOnce merged := rfl
  have he : e.ValuedConstants := by
    show ∀ c ∈ [(2 : Float), 3], Scalar.isNaN c = false
    decide +kernel
  have hvalues : ∀ k, (simplifyOnce^[k] e).MergesToValues
    | 0 => by decide +kernel
    | 1 => by decide +kernel
    | k + 2 => by
      have hiterate : simplifyOnce^[k + 2] e = merged := by
        rw [Function.iterate_add_apply, Function.iterate_succ_apply, Function.iterate_one, hmoved,
          hmerged, hfixed.iterate k]
      rw [hiterate]
      decide +kernel
  obtain ⟨-, n, -, -, hequal⟩ := settles e
  exact ⟨hmoved, hmerged, rfl, rfl, he, hvalues, n, hequal he fun k _ => hvalues k⟩

end Expr

end SurfaceGeometry
