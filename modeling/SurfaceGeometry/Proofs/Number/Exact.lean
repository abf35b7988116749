import Mathlib
import SurfaceGeometry.Proofs.Number.Reading

/-!
# Doubles as exact numbers

`Double.value` is the rational number that a finite double is. The magnitude, the comparison with
zero, the equality and the test for a whole number are exact, so they are those of the rationals.
-/

namespace SurfaceGeometry

namespace Double

open Float.Model Float.Model.UnpackedFloat

/-- The number that a finite double is. -/
def value (x : Float) : ℚ :=
  (if (parts x).negative then -1 else 1) * ((parts x).mantissa * 2 ^ (parts x).exponent)

variable {x y : Float}

/-- The magnitude of a double has its bits without the sign. -/
theorem bits_abs (h : x.isFinite = true) : bits x.abs = bits x % 2 ^ 63 := by
  obtain ⟨u, hu, hunpack, -, hpack⟩ :=
    @unpack_finite x.toBits.toBitVec (exponent_lt h)
  have habs : bits x.abs = (UnpackedFloat.pack Format.binary64
    (UnpackedFloat.unpack Format.binary64 x.toBits.toBitVec).abs).toNat := rfl
  have hsign : ∀ s, (u s).abs = u .positive := by
    intro s
    cases hu <;> rfl
  have hbits : x.toBits.toBitVec.toNat = bits x := rfl
  have hpositive : Sign.positive.toBitVec.toNat = 0 := rfl
  have hlt := bits_lt x
  rw [habs, hunpack, hsign, hpack, toNat_packComponents, toNat_unpackExponent, toNat_unpackMantissa,
    hbits, hpositive]
  omega

/-- The magnitude of a finite double is finite. -/
theorem isFinite_abs (h : x.isFinite = true) : x.abs.isFinite = true := by
  have hexponent := exponent_lt h
  have habs := bits_abs h
  exact isFinite_of_exponent_lt (by omega)

/-- Both zeros are zero. -/
theorem value_of_zero (h : bits x % 2 ^ 63 = 0) : value x = 0 := by
  have hparts : (parts x).mantissa = 0 := by
    rw [parts_eq, if_pos (by omega)]
    dsimp only
    omega
  rw [value, hparts]
  simp

/-- The magnitude of a value is not negative. -/
theorem mantissa_mul_nonneg : (0 : ℚ) ≤ (parts x).mantissa * 2 ^ (parts x).exponent := by
  positivity

/-- The magnitude of a double has the magnitude of its value. -/
theorem value_abs (h : x.isFinite = true) : value x.abs = |value x| := by
  have habs := bits_abs h
  have hbiased : bits x.abs / 2 ^ 52 % 2 ^ 11 = bits x / 2 ^ 52 % 2 ^ 11 := by omega
  have hfraction : bits x.abs % 2 ^ 52 = bits x % 2 ^ 52 := by omega
  have hsign : (bits x.abs / 2 ^ 63 % 2 == 1) = false := by
    rw [beq_eq_false_iff_ne]
    omega
  have hparts : parts x.abs = ⟨false, (parts x).mantissa, (parts x).exponent⟩ := by
    rw [parts_eq x.abs, parts_eq x, hbiased, hfraction, hsign]
    split <;> rfl
  rw [value, value, hparts, abs_mul, abs_of_nonneg mantissa_mul_nonneg]
  cases (parts x).negative <;> simp

/-- A finite double is negative as a number. -/
theorem lt_zero_iff_value (h : x.isFinite = true) : x < 0 ↔ value x < 0 := by
  have hparts := parts_spec h
  have hlt := bits_lt x
  rw [lt_zero_iff h, value, hparts.1]
  by_cases hsign : 2 ^ 63 ≤ bits x
  · have hpow : (0 : ℚ) < 2 ^ (parts x).exponent := by positivity
    have hzero : (parts x).mantissa = 0 ↔ bits x = 2 ^ 63 := by
      have hcanonical := hparts.2.2.2.2.2
      omega
    rw [decide_eq_true hsign, if_pos rfl, neg_one_mul, neg_lt_zero, mul_pos_iff_of_pos_right hpow,
      Nat.cast_pos]
    omega
  · rw [decide_eq_false hsign, if_neg Bool.false_ne_true, one_mul]
    exact iff_of_false (by omega) (not_lt.2 mantissa_mul_nonneg)

/-! ## Equality -/

/-- What compares as equal is equal as a number, both being zeros or having the same sign, mantissa
and exponent. -/
theorem unpack_of_beq {a b : UnpackedFloat} (h : a.beq b = true) :
    (∃ s s', a = .zero s ∧ b = .zero s') ∨ a = b := by
  have hcompare : a.compare b = some .eq := by simpa [UnpackedFloat.beq] using h
  have hmagnitude : ∀ {e e' : Int} {m m' : Nat},
      (compare e e').then (compare m m') = .eq → e = e' ∧ m = m' := by
    intro e e' m m' heq
    rw [Ordering.then_eq_eq, compare_eq_iff_eq, compare_eq_iff_eq] at heq
    exact heq
  match a, b, hcompare with
  | .zero s, .zero s', _ => exact .inl ⟨s, s', rfl, rfl⟩
  | .infinity .positive, .infinity .positive, _ => exact .inr rfl
  | .infinity .negative, .infinity .negative, _ => exact .inr rfl
  | .finite .positive m e _, .finite .positive m' e' _, heq =>
    obtain ⟨rfl, rfl⟩ := hmagnitude (Option.some.inj heq)
    exact .inr rfl
  | .finite .negative m e _, .finite .negative m' e' _, heq =>
    obtain ⟨rfl, rfl⟩ := hmagnitude (Ordering.swap_eq_eq.1 (Option.some.inj heq))
    exact .inr rfl

/-- A double that compares as equal to a finite one is the same number. -/
theorem value_eq_of_beq (hy : y.isFinite = true) (h : (x == y) = true) :
    x.isFinite = true ∧ value x = value y := by
  have hbeq : (UnpackedFloat.unpack Format.binary64 x.toBits.toBitVec).beq
      (UnpackedFloat.unpack Format.binary64 y.toBits.toBitVec) = true := h
  have hunpack := unpack_of_beq hbeq
  have hx : x.isFinite = true := by
    show (UnpackedFloat.unpack Format.binary64 x.toBits.toBitVec).isFinite = true
    rcases hunpack with ⟨s, s', hzero, -⟩ | heq
    · rw [hzero]
      rfl
    · rw [heq]
      exact hy
  refine ⟨hx, ?_⟩
  obtain ⟨u, hu, hux, hzerox, hpackx⟩ := @unpack_finite x.toBits.toBitVec (exponent_lt hx)
  obtain ⟨v, hv, hvy, hzeroy, hpacky⟩ := @unpack_finite y.toBits.toBitVec (exponent_lt hy)
  rcases hunpack with ⟨s, s', hzx, hzy⟩ | heq
  · rw [hux] at hzx
    rw [hvy] at hzy
    have hu' : u = .zero := by
      cases hu with
      | zero => rfl
      | finite => cases hzx
    have hv' : v = .zero := by
      cases hv with
      | zero => rfl
      | finite => cases hzy
    rw [value_of_zero (hzerox.1 hu'), value_of_zero (hzeroy.1 hv')]
  · have hbits : x.toBits.toBitVec = y.toBits.toBitVec := by
      rw [← packComponents_fields x.toBits.toBitVec, ← packComponents_fields y.toBits.toBitVec,
        ← hpackx, ← hpacky, ← hux, ← hvy, heq]
    rw [eq_of_bits (congrArg BitVec.toNat hbits)]

/-! ## Whole numbers -/

/-- A number with a sign. -/
def withSign (negative : Bool) (n : Nat) : Int :=
  if negative then -(n : Int) else n

/-- A number with a sign as a rational one. -/
theorem cast_withSign (negative : Bool) (n : Nat) :
    ((withSign negative n : Int) : ℚ) = (if negative then -1 else 1) * n := by
  cases negative <;> simp [withSign]

/-- The whole number that a finite double is, by its parts: a shifted mantissa, if nothing is lost
when it is shifted down. -/
theorem toInt?_eq (h : x.isFinite = true) : toInt? x =
    if 0 ≤ (parts x).exponent then
      some (withSign (parts x).negative ((parts x).mantissa * 2 ^ (parts x).exponent.toNat))
    else if (parts x).mantissa % 2 ^ (-(parts x).exponent).toNat = 0 then
      some (withSign (parts x).negative ((parts x).mantissa / 2 ^ (-(parts x).exponent).toNat))
    else none := by
  rw [toInt?, if_pos h]
  rfl

/-- The integer that a double is read as is the number that it is, and there is none only if the
number is not whole. -/
theorem toInt?_eq_some_iff (h : x.isFinite = true) {n : Int} : toInt? x = some n ↔ value x = n := by
  have hsign : (if (parts x).negative then -1 else 1 : ℚ) ≠ 0 := by
    split <;> norm_num
  rw [toInt?_eq h, value]
  split
  · next hexponent =>
    rw [zpow_of_nonneg hexponent, ← Nat.cast_mul, ← cast_withSign, Option.some_inj, Int.cast_inj]
  · next hexponent =>
    rw [zpow_of_neg hexponent, ← div_eq_mul_inv]
    have hunit : 0 < 2 ^ (-(parts x).exponent).toNat := Nat.two_pow_pos _
    generalize 2 ^ (-(parts x).exponent).toNat = unit at hunit ⊢
    have hunit' : (unit : ℚ) ≠ 0 := by exact_mod_cast hunit.ne'
    split
    · next hwhole =>
      have hdvd : unit ∣ (parts x).mantissa := Nat.dvd_of_mod_eq_zero hwhole
      rw [← Nat.cast_div hdvd hunit', ← cast_withSign, Option.some_inj, Int.cast_inj]
    · next hwhole =>
      refine iff_of_false (fun h => nomatch h) fun hvalue => hwhole ?_
      have hmul : (if (parts x).negative then -1 else 1 : ℚ) * (parts x).mantissa = n * unit := by
        rw [← hvalue, mul_assoc, div_mul_cancel₀ _ hunit']
      rw [← cast_withSign] at hmul
      have hint : withSign (parts x).negative (parts x).mantissa = n * unit := by
        exact_mod_cast hmul
      have hdvd : (unit : Int) ∣ (parts x).mantissa := by
        rw [withSign] at hint
        split at hint
        · exact ⟨-n, by linarith⟩
        · exact ⟨n, by linarith⟩
      exact Nat.mod_eq_zero_of_dvd (Int.natCast_dvd_natCast.1 hdvd)

/-- A number past the greatest double, which the parts of infinity and of a number without value
are, is far from zero. -/
theorem abs_value_of_not_isFinite (h : x.isFinite = false) : 64 < |value x| := by
  have hexponent : 2047 ≤ bits x / 2 ^ 52 % 2 ^ 11 := by
    by_contra hlt
    rw [isFinite_of_exponent_lt (by omega)] at h
    cases h
  have hparts : (parts x).mantissa = 2 ^ 52 + bits x % 2 ^ 52 ∧ (parts x).exponent = 972 := by
    rw [parts_eq, if_neg (by omega)]
    exact ⟨rfl, by dsimp only; omega⟩
  have hone : (2 : ℚ) ^ 52 ≤ (parts x).mantissa := by
    rw [hparts.1]
    exact_mod_cast Nat.le_add_right _ _
  have hpow : (1 : ℚ) ≤ 2 ^ (parts x).exponent := by
    rw [hparts.2]
    exact one_le_zpow₀ (by norm_num) (by norm_num)
  have habs : |value x| = (parts x).mantissa * 2 ^ (parts x).exponent := by
    rw [value, abs_mul, abs_of_nonneg mantissa_mul_nonneg]
    cases (parts x).negative <;> simp
  rw [habs]
  nlinarith only [hone, hpow]

end Double

end SurfaceGeometry
