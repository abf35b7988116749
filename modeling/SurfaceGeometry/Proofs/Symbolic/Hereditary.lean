import Mathlib.Logic.Function.Iterate
import SurfaceGeometry.Proofs.Symbolic.DerivativeRules
import SurfaceGeometry.Proofs.Symbolic.Rules
import SurfaceGeometry.Proofs.Traversal

/-!
# Properties that a tree has when its parts have them

A property of trees is hereditary (`Expr.Hereditary`) when a node has it just when its parts have,
as long as the calls are those of functions that there are, and when the constants that the rules
bring in have it. Such a property is kept by differentiation (`Expr.Hereditary.differentiates`), by
substitution (`Expr.Hereditary.substitute`) and by simplification
(`Expr.Hereditary.simplifyWithin`), but for one rule of the last: that the factors of two nested
products have it, says nothing about their product. So what is asked is that the constants have it
which a pass merges (`Expr.merged?`).
-/

namespace SurfaceGeometry

namespace Expr

variable {α : Type}

/-! ## Merged constants -/

/-- The constant factor of a product and that of the product which is its other factor. -/
def nested? : Expr α → Option (α × α)
  | binary .mul (const a) (binary .mul (const b) _) => some (a, b)
  | binary .mul (binary .mul (const b) _) (const a) => some (a, b)
  | _ => none

/-- It does not matter on which side of the other product the constant is. -/
theorem nested?_swap {c : α} {factor : Expr α} {ab : α × α}
    (h : ab ∈ nested? (binary .mul (const c) factor)) :
    ab ∈ nested? (binary .mul factor (const c)) := by
  unfold nested? at h
  split at h
  · next heq =>
    cases heq
    exact h
  · next heq => cases heq
  · cases h

variable [Scalar α]

/-- The constants that a pass merges at the root of a tree, after it has simplified the parts. -/
def merged? : Expr α → Option (α × α)
  | binary op left right => nested? (binary op left.simplifyOnce right.simplifyOnce)
  | _ => none

/-! ## Hereditary properties -/

/-- A tree has the property just when its parts have it, and the constants of the rules have it. -/
structure Hereditary (P : Expr α → Prop) : Prop where
  zero : P (const 0)
  one : P (const 1)
  two : P (const 2)
  lnTen : P (const Scalar.lnTen)
  finite {c} : Scalar.isFinite c = true → P (const c)
  opposite {c} : P (const c) → P (const (-c))
  predecessor {c} : P (const c) → P (const (c - 1))
  unary {op u} : P (.unary op u) ↔ P u
  binary {op u v} : P (.binary op u v) ↔ P u ∧ P v
  call {name f u} : UnaryFunction.ofName? name = some f → (P (.call name [u]) ↔ P u)
  call₂ {name f u v} : BinaryFunction.ofName? name = some f →
    (P (.call name [u, v]) ↔ P u ∧ P v)
  map {name args} {f : Expr α → Expr α} : P (.call name args) →
    (∀ arg ∈ args, P arg → P (f arg)) → P (.call name (args.map f))

namespace Hereditary

variable {P : Expr α → Prop} {var : String} {e e' d u v du dv : Expr α} {f : UnaryFunction}

/-! ### Rules of simplification -/

/-- A rule keeps the property, if the product of the constants that it merges has it. -/
theorem rewrite (hP : Hereditary P) (h : Rewrite e e') (he : P e)
    (hmerged : ∀ ab ∈ e.nested?, P (const (ab.1 * ab.2))) : P e' := by
  induction h with
  | same => exact he
  | negConst => exact hP.opposite (hP.unary.1 he)
  | notConst =>
    split
    · exact hP.one
    · exact hP.zero
  | foldBinary finite | foldCall _ finite | foldCall₂ _ finite => exact hP.finite finite
  | @mergeConst a b factor =>
    exact hP.binary.2 ⟨hmerged (a, b) rfl, (hP.binary.1 (hP.binary.1 he).2).2⟩
  | mulConst _ ih =>
    exact ih (hP.binary.2 (hP.binary.1 he).symm) fun ab hab => hmerged ab (nested?_swap hab)
  -- The other rules leave zero, one or parts of the tree.
  | subSelf | zeroMul | mulZero | zeroDiv => exact hP.zero
  | powZero | onePow => exact hP.one
  | _ => simp_all only [hP.unary, hP.binary, and_self]

/-! ### Passes -/

/-- A pass keeps the property, if the products of all constants that it merges have it. -/
theorem simplifyOnce (hP : Hereditary P) (he : P e)
    (hmerged : ∀ part ∈ e.preorder, ∀ ab ∈ part.merged?, P (const (ab.1 * ab.2))) :
    P e.simplifyOnce := by
  induction e with
  | const | symbol => exact he
  | unary op operand ih =>
    refine hP.rewrite (rewrite_simplifyUnary op _) ?_ (fun ab hab => by cases hab)
    exact hP.unary.2 (ih (hP.unary.1 he) fun part hpart => hmerged part (by simp [preorder, hpart]))
  | binary op left right ihl ihr =>
    obtain ⟨hl, hr⟩ := hP.binary.1 he
    have hleft := ihl hl fun part hpart => hmerged part (by simp [preorder, hpart])
    have hright := ihr hr fun part hpart => hmerged part (by simp [preorder, hpart])
    have hroot : ∀ ab ∈ (Expr.binary op left right).merged?, P (const (ab.1 * ab.2)) :=
      hmerged _ (by simp [preorder])
    exact hP.rewrite (rewrite_simplifyBinary op _ _) (hP.binary.2 ⟨hleft, hright⟩) hroot
  | call name args ih =>
    rw [Expr.simplifyOnce, simplifyAll_eq]
    refine hP.rewrite (rewrite_fold name _) ?_ (fun ab hab => by cases hab)
    refine hP.map he fun arg harg h => ih arg harg h fun part hpart => hmerged part ?_
    rw [preorder, preorderAll_eq]
    exact List.mem_cons_of_mem _ (List.mem_flatMap.2 ⟨arg, harg, hpart⟩)

/-- What each pass keeps, several passes keep. The constants that any of them merges are asked for.
-/
theorem simplifyWithin (hP : Hereditary P) {passes : Nat} (he : P e)
    (hmerged : ∀ k < passes, ∀ part ∈ (Expr.simplifyOnce^[k] e).preorder, ∀ ab ∈ part.merged?,
      P (const (ab.1 * ab.2))) : P (e.simplifyWithin passes) := by
  induction passes generalizing e with
  | zero => exact he
  | succ passes ih =>
    rw [Expr.simplifyWithin]
    split
    · exact he
    · refine ih (hP.simplifyOnce he (hmerged 0 (Nat.succ_pos passes))) fun k hk => ?_
      exact hmerged (k + 1) (Nat.succ_lt_succ hk)

/-- Where every constant has the property, simplification keeps it. -/
theorem simplify (hP : Hereditary P) (hconst : ∀ c, P (const c)) (he : P e) : P e.simplify :=
  hP.simplifyWithin he fun _ _ _ _ ab _ => hconst (ab.1 * ab.2)

/-! ### Substitution -/

/-- The property is kept when a tree that has it is substituted. -/
theorem substitute (hP : Hereditary P) {name : String} {replacement : Expr α} (he : P e)
    (hreplacement : P replacement) : P (e.substitute name replacement) := by
  induction e with
  | const value =>
    rw [Expr.substitute]
    exact he
  | symbol other =>
    rw [Expr.substitute]
    split
    · exact hreplacement
    · exact he
  | unary op operand ih =>
    rw [Expr.substitute]
    exact hP.unary.2 (ih (hP.unary.1 he))
  | binary op left right ihl ihr =>
    obtain ⟨hl, hr⟩ := hP.binary.1 he
    rw [Expr.substitute]
    exact hP.binary.2 ⟨ihl hl, ihr hr⟩
  | call function args ih =>
    rw [Expr.substitute, substituteAll_eq]
    exact hP.map he ih

/-! ### Rules of differentiation -/

/-- A sum has the property when both terms have. -/
theorem add (hP : Hereditary P) (hu : P u) (hv : P v) : P (u + v) := hP.binary.2 ⟨hu, hv⟩

/-- A difference has the property when both terms have. -/
theorem sub (hP : Hereditary P) (hu : P u) (hv : P v) : P (u - v) := hP.binary.2 ⟨hu, hv⟩

/-- A product has the property when both factors have. -/
theorem mul (hP : Hereditary P) (hu : P u) (hv : P v) : P (u * v) := hP.binary.2 ⟨hu, hv⟩

/-- A quotient has the property when both parts have. -/
theorem div (hP : Hereditary P) (hu : P u) (hv : P v) : P (u / v) := hP.binary.2 ⟨hu, hv⟩

/-- A power has the property when the base and the exponent have. -/
theorem pow (hP : Hereditary P) (hu : P u) (hv : P v) : P (u ^ v) := hP.binary.2 ⟨hu, hv⟩

/-- The opposite of a tree has the property when the tree has. -/
theorem neg (hP : Hereditary P) (hu : P u) : P (-u) := hP.unary.2 hu

/-- The square of a tree has the property when the tree has. -/
theorem squared (hP : Hereditary P) (hu : P u) : P (squared u) := hP.pow hu hP.two

/-- The call of a function that is in the table. -/
theorem function (hP : Hereditary P) {name : String} (hf : UnaryFunction.ofName? name = some f)
    (hu : P u) : P (.call name [u]) := (hP.call hf).2 hu

/-- The logarithm of a tree has the property when the tree has. -/
theorem lnOf (hP : Hereditary P) (hu : P u) : P (lnOf u) := hP.function (f := .ln) rfl hu

/-- What the quotient rule writes has the property when the two trees and their derivatives have. -/
theorem quotientRule (hP : Hereditary P) (hu : P u) (hdu : P du) (hv : P v) (hdv : P dv) :
    P (quotientRule u du v dv) :=
  hP.div (hP.sub (hP.mul hdu hv) (hP.mul hu hdv)) (hP.squared hv)

/-- What the rule for logarithms writes has the property when the tree and its derivative have. -/
theorem lnRule (hP : Hereditary P) (hu : P u) (hdu : P du) : P (lnRule var u du) := by
  unfold Expr.lnRule
  split
  · exact hP.mul (hP.div hP.one hu) hdu
  · exact hP.zero

/-- A literal exponent is lowered to its predecessor. -/
theorem lowered (hP : Hereditary P) (hv : P v) : P (lowered v) := by
  cases v with
  | const c => exact hP.predecessor hv
  | symbol | unary | binary | call => exact hP.sub hv hP.one

/-- The derivative of every function is written with functions that are in the table. -/
theorem outerDerivative (hP : Hereditary P) (hu : P u) : P (outerDerivative f u) := by
  have hroot : P (.call "sqrt" [(const 1 : Expr α) - Expr.squared u]) :=
    hP.function (f := .sqrt) rfl (hP.sub hP.one (hP.squared hu))
  cases f with
  | sin => exact hP.function (f := .cos) rfl hu
  | cos => exact hP.neg (hP.function (f := .sin) rfl hu)
  | tan => exact hP.div hP.one (hP.squared (hP.function (f := .cos) rfl hu))
  | asin => exact hP.div hP.one hroot
  | acos => exact hP.neg (hP.div hP.one hroot)
  | atan => exact hP.div hP.one (hP.add hP.one (hP.squared hu))
  | sinh => exact hP.function (f := .cosh) rfl hu
  | cosh => exact hP.function (f := .sinh) rfl hu
  | tanh => exact hP.sub hP.one (hP.squared (hP.function (f := .tanh) rfl hu))
  | exp => exact hP.function (f := .exp) rfl hu
  | ln => exact hP.div hP.one hu
  | log10 => exact hP.div hP.one (hP.mul hu hP.lnTen)
  | sqrt => exact hP.div hP.one (hP.mul hP.two (hP.function (f := .sqrt) rfl hu))
  | abs => exact hP.function (f := .sign) rfl hu
  | sign | ceil | floor | round => exact hP.zero

/-- By every rule the derivative of a tree has the property when the tree has. -/
theorem differentiates (hP : Hereditary P) (h : Differentiates var e d) (he : P e) : P d := by
  induction h with
  | free => exact hP.zero
  | self => exact hP.one
  | neg _ ih => exact hP.neg (ih (hP.unary.1 he))
  | add _ _ ihu ihv =>
    obtain ⟨hu, hv⟩ := hP.binary.1 he
    exact hP.add (ihu hu) (ihv hv)
  | sub _ _ ihu ihv =>
    obtain ⟨hu, hv⟩ := hP.binary.1 he
    exact hP.sub (ihu hu) (ihv hv)
  | mul _ _ ihu ihv =>
    obtain ⟨hu, hv⟩ := hP.binary.1 he
    exact hP.add (hP.mul (ihu hu) hv) (hP.mul hu (ihv hv))
  | div _ _ ihu ihv =>
    obtain ⟨hu, hv⟩ := hP.binary.1 he
    exact hP.quotientRule hu (ihu hu) hv (ihv hv)
  | powConst _ _ ihu =>
    obtain ⟨hu, hv⟩ := hP.binary.1 he
    exact hP.mul (hP.mul hv (hP.pow hu (hP.lowered hv))) (ihu hu)
  | constPow _ _ ihv =>
    obtain ⟨hu, hv⟩ := hP.binary.1 he
    exact hP.mul (hP.mul he (hP.lnOf hu)) (ihv hv)
  | pow _ _ ihu ihv =>
    obtain ⟨hu, hv⟩ := hP.binary.1 he
    exact hP.mul he (hP.add (hP.mul (ihv hv) (hP.lnOf hu)) (hP.div (hP.mul hv (ihu hu)) hu))
  | call hf _ ih =>
    have hu := (hP.call hf).1 he
    exact hP.mul (hP.outerDerivative hu) (ih hu)
  | atan2 hf _ _ iha ihb =>
    obtain ⟨ha, hb⟩ := (hP.call₂ hf).1 he
    exact hP.div (hP.sub (hP.mul hb (iha ha)) (hP.mul ha (ihb hb)))
      (hP.add (hP.squared ha) (hP.squared hb))
  | log hf _ _ iha ihb =>
    obtain ⟨ha, hb⟩ := (hP.call₂ hf).1 he
    exact hP.quotientRule (hP.lnOf ha) (hP.lnRule ha (iha ha)) (hP.lnOf hb) (hP.lnRule hb (ihb hb))

end Hereditary

end Expr

end SurfaceGeometry
