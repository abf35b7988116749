import SurfaceGeometry.Proofs.Exact.Evaluation

/-!
# Calculus

The rules of calculus, as far as expressions need them. A quantity is a number for every point of
some type; `Rates` says which quantities have which rate of change at one of the points, and which
do not change. `Rates.Arithmetic` has the rules for the operations of a field, and `Rates.Functions`
those for powers and functions where these are defined: the chain rule with the derivatives that
textbooks list (`UnaryFunction.slope`), the three rules for powers, and that for the arctangent of a
quotient.

A field with a derivation is the case of a single point (`Rates.ofDerivation`), for which the rules
of arithmetic are the laws of derivations. The order of the field is any order whatever; it is only
asked for by the functions that compare numbers.
-/

namespace SurfaceGeometry

variable {P K : Type} [Field K] [LinearOrder K] [ElementaryFunctions K]

/-! ## Textbook derivatives -/

namespace UnaryFunction

/-- The derivative of a function. The functions with steps have the derivative zero. -/
noncomputable def slope : UnaryFunction → K → K
  | sin, a => Scalar.cos a
  | cos, a => -Scalar.sin a
  | tan, a => 1 / Scalar.cos a ^ 2
  | asin, a => 1 / Scalar.sqrt (1 - a ^ 2)
  | acos, a => -(1 / Scalar.sqrt (1 - a ^ 2))
  | atan, a => 1 / (1 + a ^ 2)
  | sinh, a => Scalar.cosh a
  | cosh, a => Scalar.sinh a
  | tanh, a => 1 - Scalar.tanh a ^ 2
  | exp, a => Scalar.exp a
  | ln, a => 1 / a
  | log10, a => 1 / (a * Scalar.lnTen)
  | sqrt, a => 1 / (2 * Scalar.sqrt a)
  | abs, a => Scalar.sign a
  | sign, _ | ceil, _ | floor, _ | round, _ => 0

/-- Where the formula for the derivative is defined. -/
def SlopeDefined (D : Definedness K) : UnaryFunction → K → Prop
  | sin, a => D.unary .cos a
  | cos, a => D.unary .sin a
  | tan, a => D.unary .cos a ∧ Scalar.cos a ^ 2 ≠ 0
  | asin, a | acos, a => D.unary .sqrt (1 - a ^ 2) ∧ Scalar.sqrt (1 - a ^ 2) ≠ 0
  | atan, a => 1 + a ^ 2 ≠ 0
  | sinh, a => D.unary .cosh a
  | cosh, a => D.unary .sinh a
  | ln, a => a ≠ 0
  | log10, a => a * Scalar.lnTen ≠ 0
  | sqrt, a => 2 * Scalar.sqrt a ≠ 0
  | abs, a => D.unary .sign a
  | tanh, _ | exp, _ | sign, _ | ceil, _ | floor, _ | round, _ => True

end UnaryFunction

/-! ## Rates of change -/

/-- Rates of change at a point. -/
structure Rates (P K : Type) where
  point : P
  /-- The quantity changes at the given rate there. -/
  HasRate : (P → K) → K → Prop
  /-- The quantity does not change around the point. -/
  Constant : (P → K) → Prop

namespace Rates

/-- The rules for the operations of a field. -/
structure Arithmetic (R : Rates P K) : Prop where
  constant {q} : R.Constant q → R.HasRate q 0
  neg {q a} : R.HasRate q a → R.HasRate (fun p => -q p) (-a)
  add {q r a b} : R.HasRate q a → R.HasRate r b → R.HasRate (fun p => q p + r p) (a + b)
  sub {q r a b} : R.HasRate q a → R.HasRate r b → R.HasRate (fun p => q p - r p) (a - b)
  mul {q r a b} : R.HasRate q a → R.HasRate r b →
    R.HasRate (fun p => q p * r p) (a * r R.point + q R.point * b)
  div {q r a b} : r R.point ≠ 0 → R.HasRate q a → R.HasRate r b →
    R.HasRate (fun p => q p / r p) ((a * r R.point - q R.point * b) / r R.point ^ 2)
  /-- What is computed from constants is constant. -/
  constant_unary {q} (op : UnaryOp) : R.Constant q → R.Constant fun p => op.apply (q p)
  constant_binary {q r} {op : BinaryOp} : op ≠ .pow → (op = .div → r R.point ≠ 0) →
    R.Constant q → R.Constant r → R.Constant fun p => op.apply (q p) (r p)

/-- The rules for powers and functions, where these are defined. -/
structure Functions (R : Rates P K) (D : Definedness K) : Prop where
  /-- The chain rule. -/
  function {f : UnaryFunction} {q a} : D.unary f (q R.point) → f.SlopeDefined D (q R.point) →
    R.HasRate q a → R.HasRate (fun p => f.apply (q p)) (f.slope (q R.point) * a)
  /-- A power with a constant exponent. -/
  powConst {q r a} : D.pow (q R.point) (r R.point) → D.pow (q R.point) (r R.point - 1) →
    R.HasRate q a → R.Constant r →
    R.HasRate (fun p => Scalar.pow (q p) (r p))
      (r R.point * Scalar.pow (q R.point) (r R.point - 1) * a)
  /-- A power of a constant base. -/
  constPow {q r b} : D.pow (q R.point) (r R.point) → D.unary .ln (q R.point) →
    R.Constant q → R.HasRate r b →
    R.HasRate (fun p => Scalar.pow (q p) (r p))
      (Scalar.pow (q R.point) (r R.point) * Scalar.ln (q R.point) * b)
  pow {q r a b} : D.pow (q R.point) (r R.point) → D.unary .ln (q R.point) → q R.point ≠ 0 →
    R.HasRate q a → R.HasRate r b →
    R.HasRate (fun p => Scalar.pow (q p) (r p))
      (Scalar.pow (q R.point) (r R.point) *
        (b * Scalar.ln (q R.point) + r R.point * a / q R.point))
  atan2 {q r a b} : D.binary .atan2 (q R.point) (r R.point) →
    q R.point ^ 2 + r R.point ^ 2 ≠ 0 → R.HasRate q a → R.HasRate r b →
    R.HasRate (fun p => Scalar.atan2 (q p) (r p))
      ((r R.point * a - q R.point * b) / (q R.point ^ 2 + r R.point ^ 2))
  /-- What is computed from constants is constant. -/
  constant_function {f : UnaryFunction} {q} : D.unary f (q R.point) → R.Constant q →
    R.Constant fun p => f.apply (q p)
  constant_function₂ {f : BinaryFunction} {q r} : D.binary f (q R.point) (r R.point) →
    R.Constant q → R.Constant r → R.Constant fun p => f.apply (q p) (r p)
  constant_pow {q r} : D.pow (q R.point) (r R.point) → R.Constant q → R.Constant r →
    R.Constant fun p => Scalar.pow (q p) (r p)

/-! ## Fields with a derivation -/

/-- The rates that a derivation of a field gives. There is one point, and what has the rate zero is
constant. -/
def ofDerivation (δ : Derivation ℤ K K) : Rates Unit K where
  point := ()
  HasRate q a := δ (q ()) = a
  Constant q := δ (q ()) = 0

/-- Logical operators give zero and one. -/
theorem derivation_ofBool (δ : Derivation ℤ K K) (b : Bool) : δ (Scalar.ofBool b) = 0 := by
  unfold Scalar.ofBool
  split
  · exact δ.map_natCast 1
  · exact δ.map_natCast 0

/-- The laws of a derivation are the rules of arithmetic: it takes sums to sums, products by
Leibniz's rule, and the integers to zero. -/
theorem ofDerivation_arithmetic (δ : Derivation ℤ K K) : (ofDerivation δ).Arithmetic where
  constant h := h
  neg {q a} h := by
    show δ (-q ()) = -a
    rw [map_neg, h]
  add {q r a b} hq hr := by
    show δ (q () + r ()) = a + b
    rw [map_add, hq, hr]
  sub {q r a b} hq hr := by
    show δ (q () - r ()) = a - b
    rw [map_sub, hq, hr]
  mul {q r a b} hq hr := by
    show δ (q () * r ()) = a * r () + q () * b
    rw [δ.leibniz, hq, hr]
    simp only [smul_eq_mul]
    ring
  div {q r a b} hne hq hr := by
    show δ (q () / r ()) = (a * r () - q () * b) / r () ^ 2
    rw [δ.leibniz_div, hq, hr]
    simp only [smul_eq_mul]
    ring
  constant_unary {q} op hq := by
    have hq : δ (q ()) = 0 := hq
    cases op with
    | neg =>
      show δ (-q ()) = 0
      rw [map_neg, hq, neg_zero]
    | not => exact derivation_ofBool δ _
  constant_binary {q r op} hop _ hq hr := by
    have hq : δ (q ()) = 0 := hq
    have hr : δ (r ()) = 0 := hr
    cases op with
    | add =>
      show δ (q () + r ()) = 0
      rw [map_add, hq, hr, add_zero]
    | sub =>
      show δ (q () - r ()) = 0
      rw [map_sub, hq, hr, sub_zero]
    | mul =>
      show δ (q () * r ()) = 0
      rw [δ.leibniz, hq, hr, smul_zero, smul_zero, add_zero]
    | div =>
      show δ (q () / r ()) = 0
      rw [δ.leibniz_div_const _ _ hr, hq, smul_zero]
    | pow => exact absurd rfl hop
    | and | or => exact derivation_ofBool δ _

end Rates

end SurfaceGeometry
