import SurfaceGeometry.Proofs.Number.Rounding

/-!
# Decimals near a double

The decimal that is chosen for a double lies in the neighbourhood of the double, on whatever grid it
was found, so that it is rounded back to the double.
-/

namespace SurfaceGeometry

namespace Decimal

/-- The value of a decimal. -/
def value (d : Decimal) : ℚ :=
  d.digits * 10 ^ d.exponent

/-- Trailing zeros do not count. -/
theorem value_normalize (d : Decimal) : d.normalize.value = d.value := by
  fun_induction normalize d with
  | case1 d h => simp [value, h]
  | case2 d hzero hten ih =>
    rw [ih]
    have hdigits : d.digits = 10 * (d.digits / 10) := by omega
    have hcast : (d.digits : ℚ) = 10 * (d.digits / 10 : Nat) := by exact_mod_cast hdigits
    rw [value, value, hcast, zpow_add₀ (by norm_num), zpow_one]
    ring
  | case3 => rfl

end Decimal

namespace Double

/-- The value of a quotient. -/
def Ratio.value (r : Ratio) : ℚ :=
  r.num / r.den

/-- The value of a binary number as a quotient, whose divisor is positive. -/
theorem Ratio.value_ofBinary (m : Nat) (e : Int) :
    (Ratio.ofBinary m e).value = m * 2 ^ e ∧ 0 < (Ratio.ofBinary m e).den := by
  unfold Ratio.ofBinary Ratio.value
  split
  · next he =>
    refine ⟨?_, Nat.one_pos⟩
    rw [zpow_of_nonneg he, Nat.cast_one, div_one, Nat.cast_mul]
    rfl
  · next he =>
    refine ⟨?_, Nat.two_pow_pos _⟩
    rw [zpow_of_neg he, div_eq_mul_inv]
    rfl

/-- The value of a quotient shifted by a power of ten, whose divisor is positive. -/
theorem Ratio.value_shift {r : Ratio} (hr : 0 < r.den) (e : Int) :
    (r.shift e).value = r.value / 10 ^ e ∧ 0 < (r.shift e).den := by
  unfold Ratio.shift Ratio.value
  split
  · next he =>
    obtain ⟨n, rfl⟩ := Int.eq_ofNat_of_zero_le he
    refine ⟨?_, Nat.mul_pos hr (Nat.pow_pos (by decide))⟩
    simp only [Int.toNat_natCast, Nat.pow_eq, Nat.cast_mul, Nat.cast_pow, zpow_natCast]
    rw [div_div]
    norm_num
  · next he =>
    obtain ⟨n, hn⟩ := Int.eq_ofNat_of_zero_le (show 0 ≤ -e by omega)
    obtain rfl : e = -(n : Int) := by omega
    refine ⟨?_, hr⟩
    simp only [neg_neg, Int.toNat_natCast, Nat.pow_eq, Nat.cast_mul, Nat.cast_pow, zpow_neg,
      zpow_natCast, div_inv_eq_mul]
    rw [div_mul_eq_mul_div]
    norm_num

variable {m : Nat} {e grid : Int}

/-- A multiple of the unit of a grid, held against a multiple of the unit of a mantissa. -/
theorem scaled_iff {unit : Ratio} {a k : Nat} (hden : 0 < unit.den)
    (hunit : unit.value = 2 ^ (e - 2) / 10 ^ grid) :
    (a * unit.num ≤ k * unit.den ↔ (a : ℚ) * 2 ^ (e - 2) ≤ k * 10 ^ grid) ∧
      (k * unit.den ≤ a * unit.num ↔ (k : ℚ) * 10 ^ grid ≤ a * 2 ^ (e - 2)) := by
  have hden' : (0 : ℚ) < unit.den := by exact_mod_cast hden
  have hten : (0 : ℚ) < 10 ^ grid := by positivity
  have hnum : (unit.num : ℚ) * 10 ^ grid = unit.den * 2 ^ (e - 2) := by
    rw [Ratio.value, div_eq_div_iff hden'.ne' hten.ne'] at hunit
    linarith
  have hleft : (a * unit.num : ℚ) * 10 ^ grid = (a * 2 ^ (e - 2)) * unit.den := by
    rw [mul_assoc, hnum]
    ring
  have hright : (k * unit.den : ℚ) * 10 ^ grid = (k * 10 ^ grid) * unit.den := by ring
  constructor
  · rw [← Nat.cast_le (α := ℚ), Nat.cast_mul, Nat.cast_mul, ← mul_le_mul_iff_of_pos_right hten,
      hleft, hright, mul_le_mul_iff_of_pos_right hden']
  · rw [← Nat.cast_le (α := ℚ), Nat.cast_mul, Nat.cast_mul, ← mul_le_mul_iff_of_pos_right hten,
      hleft, hright, mul_le_mul_iff_of_pos_right hden']

/-- Whether a multiple of the unit of a grid lies in the neighbourhood of a double. -/
def insideGrid (m : Nat) (e grid : Int) (k : Nat) : Bool :=
  let n := neighbourhood m e
  let unit := (Ratio.ofBinary 1 (e - 2)).shift grid
  let point := k * unit.den
  if n.closed then n.low * unit.num ≤ point && point ≤ n.high * unit.num
  else n.low * unit.num < point && point < n.high * unit.num

/-- A multiple of the unit of a grid that is found inside is in the neighbourhood. -/
theorem near_of_insideGrid {k : Nat} (h : insideGrid m e grid k = true) :
    Near m e (Decimal.value ⟨k, grid⟩) := by
  have hbinary := Ratio.value_ofBinary 1 (e - 2)
  have hshift := Ratio.value_shift hbinary.2 grid
  rw [hbinary.1, Nat.cast_one, one_mul] at hshift
  have hscaled (a : Nat) := @scaled_iff e grid _ a k hshift.2 hshift.1
  unfold insideGrid at h
  dsimp only at h
  split at h
  · next hclosed =>
    simp only [Bool.and_eq_true, decide_eq_true_eq] at h
    refine ⟨(hscaled _).1.1 h.1, (hscaled _).2.1 h.2, fun hopen => ?_⟩
    rw [hclosed] at hopen
    cases hopen
  · simp only [Bool.and_eq_true, decide_eq_true_eq] at h
    have hlow := lt_of_not_ge fun hle => absurd h.1 (Nat.not_lt.2 ((hscaled _).2.2 hle))
    have hhigh := lt_of_not_ge fun hle => absurd h.2 (Nat.not_lt.2 ((hscaled _).1.2 hle))
    exact ⟨hlow.le, hhigh.le, fun _ => ⟨hlow, hhigh⟩⟩

/-- The decimal that is chosen on a grid is in the neighbourhood. -/
theorem near_of_onGrid? {d : Decimal} (h : onGrid? m e grid = some d) : Near m e d.value := by
  have hinside : ∃ k, insideGrid m e grid k = true ∧ d = ⟨k, grid⟩ := by
    unfold onGrid? at h
    dsimp only at h
    split at h
    · next hbelow habove =>
      split at h
      · cases h
        exact ⟨_, hbelow, rfl⟩
      · cases h
        exact ⟨_, habove, rfl⟩
    · next hbelow _ =>
      cases h
      exact ⟨_, hbelow, rfl⟩
    · next _ habove =>
      cases h
      exact ⟨_, habove, rfl⟩
    · cases h
  obtain ⟨k, hk, rfl⟩ := hinside
  exact near_of_insideGrid hk

/-- The value of a double itself is near it. -/
theorem near_self (hm : 0 < m) : Near m e (m * 2 ^ e) := by
  have hpow := zpow_two_pos e
  have hlow : ((neighbourhood m e).low : ℚ) < 4 * m := by
    have hlow : (neighbourhood m e).low < 4 * m := by
      unfold neighbourhood
      dsimp only
      split <;> omega
    exact_mod_cast hlow
  have hbelow : (neighbourhood m e).low * 2 ^ (e - 2) < (m : ℚ) * 2 ^ e := by
    rw [zpow_sub_two]
    nlinarith
  have habove : (m : ℚ) * 2 ^ e < (neighbourhood m e).high * 2 ^ (e - 2) := by
    rw [half_above]
    nlinarith
  exact ⟨hbelow.le, habove.le, fun _ => ⟨hbelow, habove⟩⟩

/-- The decimal chosen for a double is near it. -/
theorem near_shortest (hm : 0 < m) : Near m e (shortest m e).value := by
  unfold shortest
  dsimp only
  rw [Decimal.value_normalize]
  cases hfound : (List.range 17).findSome? fun i : Nat => onGrid? m e (decade m e - i) with
  | some d =>
    obtain ⟨i, -, hi⟩ := List.exists_of_findSome?_eq_some hfound
    exact near_of_onGrid? hi
  | none =>
    -- No grid that is tried has a decimal near by, and all digits of the double are written.
    have hexact := near_self hm (e := e)
    rw [Option.getD_none]
    split
    · next he =>
      have hvalue : Decimal.value ⟨m * Nat.pow 2 e.toNat, 0⟩ = m * 2 ^ e := by
        rw [Decimal.value, zpow_zero, mul_one, zpow_of_nonneg he, Nat.cast_mul]
        rfl
      rw [hvalue]
      exact hexact
    · next he =>
      have hvalue : Decimal.value ⟨m * Nat.pow 5 (-e).toNat, e⟩ = m * 2 ^ e := by
        obtain ⟨n, hn⟩ := Int.eq_ofNat_of_zero_le (show 0 ≤ -e by omega)
        obtain rfl : e = -(n : Int) := by omega
        have hten : (10 : ℚ) ^ n = 5 ^ n * 2 ^ n := by
          rw [← mul_pow]
          norm_num
        simp only [Decimal.value, neg_neg, Int.toNat_natCast, Nat.pow_eq, Nat.cast_mul,
          Nat.cast_pow, zpow_neg, zpow_natCast, hten]
        field_simp
        norm_num
      rw [hvalue]
      exact hexact

end Double

end SurfaceGeometry
