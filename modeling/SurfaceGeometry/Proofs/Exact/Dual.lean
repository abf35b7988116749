import SurfaceGeometry.Proofs.Symbolic.Calculus

/-!
# Dual numbers

A dual number is a number together with the rate at which it changes. Dual numbers over exact
arithmetic are scalars (`Dual.scalar`): sums, products and quotients are those of the ring of dual
numbers, which are the rules for the rates of sums, products and quotients, and the elementary
functions go by the chain rule with the derivatives that textbooks list. A formula of the library,
computed in dual numbers, is therefore computed together with its derivative.

`Rates.Follows` says that a quantity has the value and the rate of a dual number, and is kept by the
operations of a field. So what is said of dual numbers holds of fields with a derivation and of real
functions at a point.
-/

namespace SurfaceGeometry

open TrivSqZeroExt (inl inr)

variable {P K : Type} [Field K] [LinearOrder K] [ElementaryFunctions K]

namespace Dual

/-- A number that changes at a rate. -/
noncomputable def changing (value rate : K) : DualNumber K := inl value + inr rate

@[simp] theorem fst_changing (value rate : K) : (changing value rate).fst = value :=
  add_zero value

@[simp] theorem snd_changing (value rate : K) : (changing value rate).snd = rate :=
  zero_add rate

@[simp] theorem changing_zero : changing (0 : K) 0 = 0 := add_zero 0

@[simp] theorem changing_one : changing (1 : K) 0 = 1 := add_zero 1

/-- A function of a number that changes, by the chain rule. -/
noncomputable def applied (f : UnaryFunction) (a : DualNumber K) : DualNumber K :=
  changing (f.apply a.fst) (f.slope a.fst * a.snd)

/-- A power of numbers that change. The rule for a constant exponent needs no logarithm. -/
noncomputable def power (a b : DualNumber K) : DualNumber K :=
  changing (Scalar.pow a.fst b.fst) <|
    if b.snd = 0 then b.fst * Scalar.pow a.fst (b.fst - 1) * a.snd
    else Scalar.pow a.fst b.fst * (b.snd * Scalar.ln a.fst + b.fst * a.snd / a.fst)

/-- Numbers that change are compared by their values. -/
noncomputable instance scalar : Scalar (DualNumber K) where
  div a b := a * b⁻¹
  natCast := Nat.cast
  beq a b := decide (a.fst = b.fst ∧ a.snd = b.snd)
  lt a b := a.fst < b.fst
  le a b := a.fst ≤ b.fst
  decideLt a b := inferInstanceAs (Decidable (a.fst < b.fst))
  decideLe a b := inferInstanceAs (Decidable (a.fst ≤ b.fst))
  ofDecimal d := inl (Scalar.ofDecimal d)
  toInt? a := if a.snd = 0 then Scalar.toInt? a.fst else none
  isFinite _ := true
  isNaN _ := false
  nan := inl Scalar.nan
  pi := inl Scalar.pi
  euler := inl Scalar.euler
  tau := inl Scalar.tau
  lnTen := inl Scalar.lnTen
  pow := power
  atan2 a b := changing (Scalar.atan2 a.fst b.fst)
    ((b.fst * a.snd - a.fst * b.snd) / (a.fst ^ 2 + b.fst ^ 2))
  sin := applied .sin
  cos := applied .cos
  tan := applied .tan
  asin := applied .asin
  acos := applied .acos
  atan := applied .atan
  sinh := applied .sinh
  cosh := applied .cosh
  tanh := applied .tanh
  exp := applied .exp
  ln := applied .ln
  log10 := applied .log10
  sqrt := applied .sqrt
  abs := applied .abs
  ceil := applied .ceil
  floor := applied .floor
  round := applied .round

/-! ## Values and rates -/

section
variable (a b : DualNumber K) (n : Nat)

/-- A quotient of dual numbers is a product by the inverse, so that the rate of a quotient is that
of a product. -/
theorem div_eq : a / b = a * b⁻¹ := rfl

@[simp] theorem fst_add : (a + b).fst = a.fst + b.fst := rfl

@[simp] theorem snd_add : (a + b).snd = a.snd + b.snd := rfl

@[simp] theorem fst_sub : (a - b).fst = a.fst - b.fst := rfl

@[simp] theorem snd_sub : (a - b).snd = a.snd - b.snd := rfl

@[simp] theorem fst_neg : (-a).fst = -a.fst := rfl

@[simp] theorem snd_neg : (-a).snd = -a.snd := rfl

@[simp] theorem fst_mul : (a * b).fst = a.fst * b.fst := rfl

@[simp] theorem snd_mul : (a * b).snd = a.fst * b.snd + a.snd * b.fst := rfl

@[simp] theorem fst_div : (a / b).fst = a.fst / b.fst :=
  (div_eq_mul_inv a.fst b.fst).symm

@[simp] theorem snd_div : (a / b).snd = (a.snd * b.fst - a.fst * b.snd) / b.fst ^ 2 := by
  have hrate : (a / b).snd = a.fst * -(b.fst⁻¹ * b.snd * b.fst⁻¹) + a.snd * b.fst⁻¹ := rfl
  rw [hrate]
  field_simp
  ring

/-- Literals do not change. -/
@[simp] theorem ofNat_eq :
    @OfNat.ofNat (DualNumber K) n (Scalar.instOfNat n) = changing (n : K) 0 :=
  (add_zero _).symm

end

end Dual

/-! ## Quantities and dual numbers -/

namespace Rates

/-- The quantity has the value and the rate of a dual number. -/
structure Follows (R : Rates P K) (q : P → K) (a : DualNumber K) : Prop where
  value : q R.point = a.fst
  rate : R.HasRate q a.snd

namespace Follows

variable {R : Rates P K} {q r : P → K} {a b : DualNumber K}

/-- What changes at known rates adds up to what changes at the sum of the rates. -/
theorem add (hR : R.Arithmetic) (hq : R.Follows q a) (hr : R.Follows r b) :
    R.Follows (fun p => q p + r p) (a + b) where
  value := congrArg₂ (· + ·) hq.value hr.value
  rate := hR.add hq.rate hr.rate

/-- What changes at known rates has a product that changes as the product of dual numbers says,
which is the rule of Leibniz. -/
theorem mul (hR : R.Arithmetic) (hq : R.Follows q a) (hr : R.Follows r b) :
    R.Follows (fun p => q p * r p) (a * b) where
  value := congrArg₂ (· * ·) hq.value hr.value
  rate := by
    have hmul := hR.mul hq.rate hr.rate
    rw [hq.value, hr.value] at hmul
    rw [Dual.snd_mul, add_comm]
    exact hmul

end Follows

end Rates

end SurfaceGeometry
