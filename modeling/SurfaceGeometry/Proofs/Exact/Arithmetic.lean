import Mathlib
import SurfaceGeometry.Expr.Value
import SurfaceGeometry.Proofs.Number.Exact
import SurfaceGeometry.Scalar.Double

/-!
# Exact arithmetic

An ordered field in which the elementary functions have any values is a `Scalar` type without
rounding (`ElementaryFunctions.scalar`). A double stands for the number that it is (`Double.exact`),
and the named constants are the numbers of the doubles that the library has for them. Of the
functions only two are tied to the others: a power with a whole exponent is the power of the field,
and the decimal logarithm is the quotient of the natural one and the constant for the logarithm of
ten. A quotient by zero is what it is in the field.
-/

namespace SurfaceGeometry

/-- The elementary functions of a field, as far as expressions call them. -/
class ElementaryFunctions (K : Type) [Field K] where
  pow : K → K → K
  atan2 : K → K → K
  sin : K → K
  cos : K → K
  tan : K → K
  asin : K → K
  acos : K → K
  atan : K → K
  sinh : K → K
  cosh : K → K
  tanh : K → K
  exp : K → K
  ln : K → K
  sqrt : K → K
  ceil : K → K
  floor : K → K
  round : K → K
  pow_intCast (a : K) (n : ℤ) : pow a n = a ^ n

/-- The number that a double stands for in a field. -/
def Double.exact (K : Type) [Field K] (x : Float) : K :=
  (Double.value x : ℚ)

namespace Double

variable {K : Type} [Field K] {x : Float}

/-- The natural numbers that powers are written out for. -/
theorem toInt?_ofNat : ∀ n ≤ 3, toInt? (Float.ofNat n) = some (n : Int) ∧
    (Float.ofNat n).isFinite = true := by
  decide +kernel

/-- The doubles of the numbers up to three are these numbers. They are the literal exponents of
powers that a shader writes out. -/
theorem exact_ofNat [CharZero K] {n : Nat} (hn : n ≤ 3) : exact K (Float.ofNat n) = n := by
  obtain ⟨hint, hfinite⟩ := toInt?_ofNat n hn
  rw [exact, (toInt?_eq_some_iff hfinite).1 hint]
  exact_mod_cast rfl

/-- A double that compares as equal to a natural number is that number. -/
theorem exact_of_beq [CharZero K] {n : Nat} (hn : n ≤ 3) (h : (x == Float.ofNat n) = true) :
    exact K x = n := by
  rw [← exact_ofNat hn, exact, exact, (value_eq_of_beq (toInt?_ofNat n hn).2 h).2]

end Double

open Classical in
/-- The integer that a number of a field is, if there is one. -/
noncomputable def integer? {K : Type} [Field K] (a : K) : Option Int :=
  if h : ∃ n : ℤ, (n : K) = a then some h.choose else none

/-- A number that is found to be a whole one is that one. -/
theorem eq_of_integer? {K : Type} [Field K] {a : K} {n : Int} (h : integer? a = some n) :
    a = n := by
  unfold integer? at h
  split at h
  · next hn =>
    cases h
    exact hn.choose_spec.symm
  · cases h

/-- In a field of characteristic zero whole numbers are found just for themselves. -/
theorem integer?_eq_some_iff {K : Type} [Field K] [CharZero K] {a : K} {n : Int} :
    integer? a = some n ↔ a = n := by
  refine ⟨eq_of_integer?, fun ha => ?_⟩
  unfold integer?
  rw [dif_pos ⟨n, ha.symm⟩, Option.some_inj]
  have hchoose := Exists.choose_spec (p := fun m : ℤ => (m : K) = a) ⟨n, ha.symm⟩
  exact Int.cast_injective (hchoose.trans ha)

namespace ElementaryFunctions

variable {K : Type} [Field K] [LinearOrder K] [ElementaryFunctions K]

/-- Exact arithmetic. Every number is finite, and there is no number without value. -/
noncomputable instance scalar : Scalar K where
  natCast := Nat.cast
  beq a b := decide (a = b)
  decideLt := inferInstance
  decideLe := inferInstance
  ofDecimal d := (d.value : ℚ)
  toInt? := integer?
  isFinite _ := true
  isNaN _ := false
  nan := 0
  pi := Double.exact K Scalar.pi
  euler := Double.exact K Scalar.euler
  tau := Double.exact K Scalar.tau
  lnTen := Double.exact K Scalar.lnTen
  pow := pow
  atan2 := atan2
  sin := sin
  cos := cos
  tan := tan
  asin := asin
  acos := acos
  atan := atan
  sinh := sinh
  cosh := cosh
  tanh := tanh
  exp := exp
  ln := ln
  log10 a := ln a / Double.exact K Scalar.lnTen
  sqrt := sqrt
  abs a := |a|
  ceil := ceil
  floor := floor
  round := round

end ElementaryFunctions

namespace Exact

variable {K : Type} [Field K] [LinearOrder K] [ElementaryFunctions K]

/-- A natural number in exact arithmetic is that number of the field. -/
theorem ofNat_eq (n : Nat) : @OfNat.ofNat K n (Scalar.instOfNat n) = n := rfl

@[simp] theorem zero_eq : @OfNat.ofNat K 0 (Scalar.instOfNat 0) = 0 := Nat.cast_zero

@[simp] theorem one_eq : @OfNat.ofNat K 1 (Scalar.instOfNat 1) = 1 := Nat.cast_one

/-- A literal with digits behind the point. -/
theorem ofScientific_eq (digits places : Nat) :
    @OfScientific.ofScientific K Scalar.instOfScientific digits true places =
      ((digits * 10 ^ (-(places : Int)) : ℚ) : K) := rfl

/-- The literal `0.5` of the steppers is one half. -/
theorem half_eq [CharZero K] :
    @OfScientific.ofScientific K Scalar.instOfScientific 5 true 1 = 1 / 2 := by
  rw [ofScientific_eq]
  norm_num

/-! ## Powers -/

/-- What repeated squaring computes: the result so far times the power that is left. -/
theorem squarings_eq {count n : Nat} (h : n < 2 ^ count) (result base : K) :
    Scalar.squarings count result base n = result * base ^ n := by
  induction count generalizing n result base with
  | zero =>
    obtain rfl : n = 0 := by omega
    rw [Scalar.squarings, pow_zero, mul_one]
  | succ count ih =>
    have hn : n = 2 * (n / 2) + n % 2 := by omega
    have hnext : (if n % 2 = 1 then result * base else result) = result * base ^ (n % 2) := by
      rcases Nat.mod_two_eq_zero_or_one n with hbit | hbit <;> simp [hbit]
    rw [Scalar.squarings, hnext]
    split
    · next hhalf =>
      rw [hhalf, Nat.mul_zero, Nat.zero_add] at hn
      rw [← hn]
    · next hhalf =>
      rw [ih (by omega), ← pow_two, ← pow_mul, mul_assoc, ← pow_add]
      congr 2
      omega

/-- Repeated squaring gives the power of the field, for negative exponents too. -/
theorem powInt_eq (a : K) (n : Int) : Scalar.powInt a n = a ^ n := by
  have hcount : n.natAbs < 2 ^ (n.natAbs.log2 + 1) := Nat.lt_log2_self
  have hpower := squarings_eq hcount (1 : K) a
  unfold Scalar.powInt
  dsimp only
  rw [ofNat_eq, Nat.cast_one, hpower, one_mul]
  split
  · next hneg =>
    have hn : n = -(n.natAbs : Int) := by omega
    rw [one_div]
    conv_rhs => rw [hn]
    rw [zpow_neg, zpow_natCast]
  · next hpos =>
    have hn : n = (n.natAbs : Int) := by omega
    conv_rhs => rw [hn]
    rw [zpow_natCast]

/-! ## Comparisons -/

/-- A number that is neither positive nor negative is zero. -/
theorem sign_eq (a : K) : Scalar.sign a = if 0 < a then 1 else if a < 0 then -1 else 0 := by
  have hsign : Scalar.sign a = if a > 0 then 1 else if a < 0 then -1 else a := by
    unfold Scalar.sign
    simp only [ofNat_eq, Nat.cast_zero, Nat.cast_one]
  rw [hsign]
  rcases lt_trichotomy a 0 with h | rfl | h
  · rw [if_neg h.asymm, if_pos h, if_neg h.asymm, if_pos h]
  · simp
  · rw [if_pos h, if_pos h]

/-! ## Whole exponents -/

/-- The power function at a natural number is the power of the field. -/
theorem pow_natCast (a : K) (n : Nat) : Scalar.pow a (n : K) = a ^ n := by
  have hpow := ElementaryFunctions.pow_intCast a (n : Int)
  rw [Int.cast_natCast, zpow_natCast] at hpow
  exact hpow

/-- A power with a whole exponent is the power of real numbers. -/
theorem powInt_eq_pow {a b : K} {n : Int} (h : Scalar.toInt? b = some n) :
    Scalar.powInt a n = Scalar.pow a b := by
  rw [powInt_eq, eq_of_integer? h]
  exact (ElementaryFunctions.pow_intCast a n).symm

end Exact

end SurfaceGeometry
