import SurfaceGeometry.Number.Shortest
import Mathlib.Algebra.Order.Field.Power
import Mathlib.Data.Rat.Cast.Order
import Mathlib.Tactic.FieldSimp
import Mathlib.Tactic.Linarith
import Mathlib.Tactic.NormNum
import Mathlib.Tactic.Positivity
import Mathlib.Tactic.Ring

/-!
# Rounding to the nearest double

`Double.Near m e v` says that the rational `v` lies in the neighbourhood of the double `m * 2 ^ e`,
where the ends count for an even mantissa only. A quotient in the neighbourhood of a double is
rounded to this double (`Double.ofRatio_of_near`). The one case in which the exponent found for the
quotient is not that of the double is the quarter below a power of two: there the mantissa is
rounded up to the power, and the bits are the same.
-/

namespace SurfaceGeometry

/-! ## Nearest naturals -/

/-- A quotient within a half of a natural is rounded to it, if at a half exactly the natural is
even. -/
theorem roundRatio_eq {num den k : Nat} (hden : 0 < den) (hlow : 2 * k * den ≤ 2 * num + den)
    (hhigh : 2 * num ≤ 2 * k * den + den)
    (hodd : k % 2 = 1 → 2 * k * den < 2 * num + den ∧ 2 * num < 2 * k * den + den) :
    roundRatio num den = k := by
  have hdivision := Nat.div_add_mod num den
  have hmod := Nat.mod_lt num hden
  generalize hq : num / den = q at hdivision
  generalize hr : num % den = r at hdivision hmod
  subst hdivision
  -- The natural is one of the two next to the quotient, and the remainder says which.
  have hk : k = q ∨ k = q + 1 := by
    have hge : q ≤ k := by
      by_contra hlt
      have hmul : (k + 1) * den ≤ q * den := Nat.mul_le_mul_right den (by omega)
      nlinarith
    have hle : k ≤ q + 1 := by
      by_contra hlt
      have hmul : (q + 2) * den ≤ k * den := Nat.mul_le_mul_right den (by omega)
      nlinarith
    omega
  unfold roundRatio
  rw [hq, hr]
  rcases hk with rfl | rfl
  · have hproduct : 2 * k * den = 2 * (den * k) := by ring
    rw [hproduct] at hlow hhigh hodd
    dsimp only
    split_ifs <;> omega
  · have hproduct : 2 * (q + 1) * den = 2 * (den * q) + 2 * den := by ring
    rw [hproduct] at hlow hhigh hodd
    dsimp only
    split_ifs <;> omega

/-- The same for the quotient as a rational. -/
theorem roundRatio_of_abs_le {num den k : Nat} (hden : 0 < den)
    (hlow : (k - 1 / 2 : ℚ) ≤ num / den) (hhigh : (num / den : ℚ) ≤ k + 1 / 2)
    (hodd : k % 2 = 1 → (k - 1 / 2 : ℚ) < num / den ∧ (num / den : ℚ) < k + 1 / 2) :
    roundRatio num den = k := by
  have hden' : (0 : ℚ) < den := by exact_mod_cast hden
  rw [le_div_iff₀ hden'] at hlow
  rw [div_le_iff₀ hden'] at hhigh
  rw [lt_div_iff₀ hden', div_lt_iff₀ hden'] at hodd
  refine roundRatio_eq hden ?_ ?_ fun h => ⟨?_, ?_⟩
  · have h : (2 * k * den : ℚ) ≤ 2 * num + den := by linarith
    exact_mod_cast h
  · have h : (2 * num : ℚ) ≤ 2 * k * den + den := by linarith
    exact_mod_cast h
  · have h : (2 * k * den : ℚ) < 2 * num + den := by linarith [(hodd h).1]
    exact_mod_cast h
  · have h : (2 * num : ℚ) < 2 * k * den + den := by linarith [(hodd h).2]
    exact_mod_cast h

namespace Double

/-! ## Powers of two -/

/-- Powers of two are positive. -/
theorem zpow_two_pos (e : Int) : (0 : ℚ) < 2 ^ e := by positivity

/-- A power of two with a natural exponent is a natural number. -/
theorem zpow_of_nonneg {e : Int} (h : 0 ≤ e) : (2 : ℚ) ^ e = (2 ^ e.toNat : Nat) := by
  obtain ⟨n, rfl⟩ := Int.eq_ofNat_of_zero_le h
  simp

/-- A power of two with a negative exponent is the inverse of a natural number. -/
theorem zpow_of_neg {e : Int} (h : ¬0 ≤ e) : (2 : ℚ) ^ e = ((2 ^ (-e).toNat : Nat) : ℚ)⁻¹ := by
  rw [← zpow_of_nonneg (by omega : 0 ≤ -e), zpow_neg, inv_inv]

/-- The quotient `num / den`, in units of a power of two, is rounded to a natural within a half. -/
theorem roundScaled_eq {num den k : Nat} {e : Int} (hden : 0 < den)
    (hlow : (k - 1 / 2 : ℚ) * 2 ^ e ≤ num / den) (hhigh : (num / den : ℚ) ≤ (k + 1 / 2) * 2 ^ e)
    (hodd : k % 2 = 1 → (k - 1 / 2 : ℚ) * 2 ^ e < num / den ∧
      (num / den : ℚ) < (k + 1 / 2) * 2 ^ e) :
    (if 0 ≤ e then roundRatio num (den * Nat.pow 2 e.toNat)
      else roundRatio (num * Nat.pow 2 (-e).toNat) den) = k := by
  have hpow := zpow_two_pos e
  rw [← le_div_iff₀ hpow] at hlow
  rw [← div_le_iff₀ hpow] at hhigh
  rw [← lt_div_iff₀ hpow, ← div_lt_iff₀ hpow] at hodd
  split
  · next he =>
    have hquotient : (num / den / 2 ^ e : ℚ) = num / (den * Nat.pow 2 e.toNat : Nat) := by
      rw [zpow_of_nonneg he, div_div, Nat.cast_mul]
      rfl
    rw [hquotient] at hlow hhigh hodd
    exact roundRatio_of_abs_le (Nat.mul_pos hden (Nat.two_pow_pos _)) hlow hhigh hodd
  · next he =>
    have hquotient : (num / den / 2 ^ e : ℚ) = (num * Nat.pow 2 (-e).toNat : Nat) / den := by
      rw [zpow_of_neg he, div_inv_eq_mul, div_mul_eq_mul_div, Nat.cast_mul]
      rfl
    rw [hquotient] at hlow hhigh hodd
    exact roundRatio_of_abs_le hden hlow hhigh hodd

/-- The comparison of a quotient with a power of two, which is made in natural numbers. -/
theorem ratioBelowPower_iff {num den : Nat} {e : Int} (hden : 0 < den) :
    ratioBelowPower num den e = true ↔ (num / den : ℚ) < 2 ^ e := by
  have hden' : (0 : ℚ) < den := by exact_mod_cast hden
  unfold ratioBelowPower
  rw [div_lt_iff₀ hden']
  split
  · next he =>
    rw [decide_eq_true_eq, zpow_of_nonneg he, mul_comm, ← Nat.cast_mul, Nat.cast_lt]
    exact Iff.rfl
  · next he =>
    have hpow : (0 : ℚ) < (2 ^ (-e).toNat : Nat) := by positivity
    rw [decide_eq_true_eq, zpow_of_neg he, mul_comm _ (den : ℚ), ← div_eq_mul_inv,
      lt_div_iff₀ hpow, ← Nat.cast_mul, Nat.cast_lt]
    exact Iff.rfl

/-- The estimate from the lengths of numerator and denominator is off by less than one. -/
theorem ratio_bounds {num den : Nat} (hnum : num ≠ 0) (hden : den ≠ 0) :
    (2 : ℚ) ^ ((num.log2 : Int) - den.log2 - 1) < num / den ∧
      (num / den : ℚ) < 2 ^ ((num.log2 : Int) - den.log2 + 1) := by
  have hden' : (0 : ℚ) < den := by exact_mod_cast Nat.pos_of_ne_zero hden
  have hnumlow : (2 : ℚ) ^ (num.log2 : Int) ≤ num := by exact_mod_cast Nat.log2_self_le hnum
  have hnumhigh : (num : ℚ) < 2 ^ ((num.log2 : Int) + 1) := by
    exact_mod_cast (Nat.lt_log2_self : num < 2 ^ (num.log2 + 1))
  have hdenlow : (2 : ℚ) ^ (den.log2 : Int) ≤ den := by exact_mod_cast Nat.log2_self_le hden
  have hdenhigh : (den : ℚ) < 2 ^ ((den.log2 : Int) + 1) := by
    exact_mod_cast (Nat.lt_log2_self : den < 2 ^ (den.log2 + 1))
  constructor
  · rw [lt_div_iff₀ hden']
    calc (2 : ℚ) ^ ((num.log2 : Int) - den.log2 - 1) * den
        < 2 ^ ((num.log2 : Int) - den.log2 - 1) * 2 ^ ((den.log2 : Int) + 1) :=
          mul_lt_mul_of_pos_left hdenhigh (zpow_two_pos _)
      _ = 2 ^ (num.log2 : Int) := by
          rw [← zpow_add₀ (by norm_num)]
          congr 1
          ring
      _ ≤ num := hnumlow
  · rw [div_lt_iff₀ hden']
    calc (num : ℚ) < 2 ^ ((num.log2 : Int) + 1) := hnumhigh
      _ = 2 ^ ((num.log2 : Int) - den.log2 + 1) * 2 ^ (den.log2 : Int) := by
          rw [← zpow_add₀ (by norm_num)]
          congr 1
          ring
      _ ≤ 2 ^ ((num.log2 : Int) - den.log2 + 1) * den :=
          mul_le_mul_of_nonneg_left hdenlow (zpow_two_pos _).le

/-- The power of two below a quotient. -/
def magnitude (num den : Nat) : Int :=
  let estimate : Int := (num.log2 : Int) - (den.log2 : Int)
  if ratioBelowPower num den estimate then estimate - 1 else estimate

/-- The power of two below a quotient, and the next one above it. -/
theorem magnitude_bounds {num den : Nat} (hnum : num ≠ 0) (hden : den ≠ 0) :
    (2 : ℚ) ^ magnitude num den ≤ num / den ∧ (num / den : ℚ) < 2 ^ (magnitude num den + 1) := by
  have hbounds := ratio_bounds hnum hden
  have hbelow :=
    @ratioBelowPower_iff num den ((num.log2 : Int) - den.log2) (Nat.pos_of_ne_zero hden)
  unfold magnitude
  dsimp only
  split
  · next h =>
    refine ⟨hbounds.1.le, ?_⟩
    rw [sub_add_cancel]
    exact hbelow.1 h
  · next h =>
    refine ⟨?_, hbounds.2⟩
    rw [← not_lt, ← hbelow]
    exact h

/-! ## Neighbourhoods -/

/-- A mantissa and an exponent of a double other than zero: the mantissa has the implicit bit unless
the exponent is the least one. -/
structure Canonical (m : Nat) (e : Int) : Prop where
  pos : 0 < m
  lt : m < 2 ^ 53
  least : -1074 ≤ e
  subnormal : m < 2 ^ 52 → e = -1074

/-- A rational lies in the neighbourhood of a double. -/
structure Near (m : Nat) (e : Int) (v : ℚ) : Prop where
  low : (neighbourhood m e).low * 2 ^ (e - 2) ≤ v
  high : v ≤ (neighbourhood m e).high * 2 ^ (e - 2)
  inner : (neighbourhood m e).closed = false →
    (neighbourhood m e).low * 2 ^ (e - 2) < v ∧ v < (neighbourhood m e).high * 2 ^ (e - 2)

/-- The neighbourhoods are counted in quarters of the unit. -/
theorem zpow_sub_two (e : Int) : (2 : ℚ) ^ (e - 2) = 2 ^ e / 4 := by
  rw [zpow_sub₀ (by norm_num)]
  norm_num

variable {m num den : Nat} {e : Int} {v : ℚ}

/-- The neighbourhood of a double goes down by half a unit at most; at a power of two it is a
quarter. -/
theorem half_below (hm : 0 < m) :
    ((m : ℚ) - 1 / 2) * 2 ^ e ≤ (neighbourhood m e).low * 2 ^ (e - 2) := by
  have hlow : 4 * m - 2 ≤ (neighbourhood m e).low := by
    unfold neighbourhood
    dsimp only
    split <;> omega
  have hlow' : (4 * m : ℚ) - 2 ≤ (neighbourhood m e).low := by
    have hcast : ((4 * m - 2 : Nat) : ℚ) = 4 * m - 2 := by
      rw [Nat.cast_sub (by omega)]
      norm_num
    rw [← hcast]
    exact_mod_cast hlow
  have hpow := zpow_two_pos e
  rw [zpow_sub_two]
  nlinarith

/-- The neighbourhood of a double goes up by half a unit. -/
theorem half_above : ((neighbourhood m e).high : ℚ) * 2 ^ (e - 2) = (m + 1 / 2) * 2 ^ e := by
  have hhigh : ((neighbourhood m e).high : ℚ) = 4 * m + 2 := by
    simp [neighbourhood]
  rw [hhigh, zpow_sub_two]
  ring

/-- A rational near a double is within half a unit of it, and closer if the mantissa is odd. -/
theorem Near.half (h : Near m e v) (hm : 0 < m) :
    ((m - 1 / 2 : ℚ) * 2 ^ e ≤ v ∧ v ≤ (m + 1 / 2) * 2 ^ e) ∧
      (m % 2 = 1 → (m - 1 / 2 : ℚ) * 2 ^ e < v ∧ v < (m + 1 / 2) * 2 ^ e) := by
  have hbelow := half_below hm (e := e)
  rw [← half_above]
  refine ⟨⟨hbelow.trans h.low, h.high⟩, fun hodd => ?_⟩
  have hinner := h.inner (by simp [neighbourhood, hodd])
  exact ⟨hbelow.trans_lt hinner.1, hinner.2⟩

/-- Below a power of two other than the least, only a quarter of the unit belongs to it. -/
theorem Near.quarter (h : Near (2 ^ 52) e v) (he : -1074 < e) :
    ((2 : ℚ) ^ 52 - 1 / 4) * 2 ^ e ≤ v := by
  have hlow : ((neighbourhood (2 ^ 52) e).low : ℚ) = 4 * 2 ^ 52 - 1 := by
    have hvalue : (neighbourhood (2 ^ 52) e).low = 4 * 2 ^ 52 - 1 := if_pos ⟨rfl, he⟩
    rw [hvalue]
    norm_num
  have hbelow := h.low
  rw [hlow, zpow_sub_two] at hbelow
  linarith

/-! ## The double of a quotient -/

/-- A quotient is rounded to a mantissa at the exponent that is 52 below its power of two, but not
below the least one. -/
theorem ofRatio_eq (hnum : num ≠ 0) :
    ofRatio num den =
      ofParts
        (if 0 ≤ max (magnitude num den - 52) (-1074) then
          roundRatio num (den * Nat.pow 2 (max (magnitude num den - 52) (-1074)).toNat)
        else roundRatio (num * Nat.pow 2 (-max (magnitude num den - 52) (-1074)).toNat) den)
        (max (magnitude num den - 52) (-1074)) := by
  unfold ofRatio
  rw [if_neg hnum]
  rfl

/-- The power of two below a quotient, from bounds by powers of two. -/
theorem le_magnitude {k : Int} (hnum : num ≠ 0) (hden : den ≠ 0) (h : (2 : ℚ) ^ k ≤ num / den) :
    k ≤ magnitude num den := by
  have hbounds := (magnitude_bounds hnum hden).2
  have hlt := (zpow_lt_zpow_iff_right₀ (by norm_num : (1 : ℚ) < 2)).1 (h.trans_lt hbounds)
  omega

/-- A quotient below a power of two has a lower magnitude. -/
theorem magnitude_lt {k : Int} (hnum : num ≠ 0) (hden : den ≠ 0) (h : (num / den : ℚ) < 2 ^ k) :
    magnitude num den < k :=
  (zpow_lt_zpow_iff_right₀ (by norm_num : (1 : ℚ) < 2)).1
    ((magnitude_bounds hnum hden).1.trans_lt h)

/-- A power of two with an exponent that is larger by a natural number. -/
theorem zpow_add_fifty (e : Int) (k : Nat) : (2 : ℚ) ^ (e + k) = 2 ^ k * 2 ^ e := by
  rw [zpow_add₀ (by norm_num), zpow_natCast, mul_comm]

/-- The mantissa of the power of two below, with the exponent one less, is the same double. -/
theorem ofParts_carry (he : -1074 < e) : ofParts (2 ^ 53) (e - 1) = ofParts (2 ^ 52) e := by
  obtain ⟨k, rfl⟩ : ∃ k : Nat, e = k - 1073 := ⟨(e + 1073).toNat, by omega⟩
  have hless : ((k : Int) - 1073 - 1 + 1074).toNat = k := by omega
  have hmore : ((k : Int) - 1073 + 1074).toNat = k + 1 := by omega
  have hbits : k * Nat.pow 2 52 + 2 ^ 53 = (k + 1) * Nat.pow 2 52 + 2 ^ 52 := by
    show k * 4503599627370496 + 9007199254740992 = (k + 1) * 4503599627370496 + 4503599627370496
    omega
  unfold ofParts
  rw [hless, hmore, hbits]

/-- A quotient in the quarter below a power of two is rounded up to the power. -/
theorem ofRatio_of_below (he : -1074 < e) (hnum : num ≠ 0) (hden : den ≠ 0)
    (h : Near (2 ^ 52) e (num / den)) (hmagnitude : magnitude num den < e + 52) :
    ofRatio num den = ofParts (2 ^ 52) e := by
  have hpow := zpow_two_pos e
  have hquarter := h.quarter he
  have hhalf : (2 : ℚ) ^ (e - 1) = 2 ^ e / 2 := by
    rw [zpow_sub₀ (by norm_num)]
    norm_num
  have hleast : e + 51 ≤ magnitude num den := by
    refine le_magnitude hnum hden (le_trans ?_ hquarter)
    have hpower := zpow_add_fifty e 51
    push_cast at hpower
    rw [hpower]
    exact mul_le_mul_of_nonneg_right (by norm_num) hpow.le
  have hmost : (num / den : ℚ) < 2 ^ 52 * 2 ^ e := by
    have hbounds := (magnitude_bounds hnum hden).2
    have hexponent : magnitude num den + 1 = e + (52 : Nat) := by
      push_cast
      omega
    rw [hexponent, zpow_add_fifty] at hbounds
    exact hbounds
  -- Rounded at the exponent below, the mantissa comes out as the next power of two.
  have hmax : max (magnitude num den - 52) (-1074) = e - 1 := by omega
  rw [ofRatio_eq hnum, hmax, ← ofParts_carry he]
  congr 1
  refine roundScaled_eq (Nat.pos_of_ne_zero hden) ?_ ?_ fun h => absurd h (by decide)
  · rw [hhalf]
    push_cast
    linarith
  · rw [hhalf]
    push_cast
    linarith

/-- A quotient in the neighbourhood of a double is rounded to the double. -/
theorem ofRatio_of_near (hcanonical : Canonical m e) (hden : den ≠ 0) (h : Near m e (num / den)) :
    ofRatio num den = ofParts m e := by
  have hpow := zpow_two_pos e
  obtain ⟨⟨hlow, hhigh⟩, hodd⟩ := h.half hcanonical.pos
  have hleast := hcanonical.least
  have hone : (1 : ℚ) ≤ m := by exact_mod_cast hcanonical.pos
  have hnum : num ≠ 0 := by
    rintro rfl
    rw [Nat.cast_zero, zero_div] at hlow
    nlinarith
  have hmost : magnitude num den < e + 53 := by
    refine magnitude_lt hnum hden (hhigh.trans_lt ?_)
    have hmantissa : (m : ℚ) + 1 ≤ 2 ^ 53 := by exact_mod_cast hcanonical.lt
    have hpower := zpow_add_fifty e 53
    push_cast at hpower
    rw [hpower]
    exact mul_lt_mul_of_pos_right (by linarith) hpow
  by_cases hexponent : max (magnitude num den - 52) (-1074) = e
  · rw [ofRatio_eq hnum, hexponent, roundScaled_eq (Nat.pos_of_ne_zero hden) hlow hhigh hodd]
  · -- The exponent is less than that of the double only just below a power of two.
    have hnormal : 2 ^ 52 ≤ m := by
      by_contra hlt
      have hsubnormal := hcanonical.subnormal (by omega)
      omega
    have hpower : m = 2 ^ 52 := by
      by_contra hne
      have hmore : (2 : ℚ) ^ 52 + 1 ≤ m := by exact_mod_cast (by omega : 2 ^ 52 + 1 ≤ m)
      have hmagnitude : e + 52 ≤ magnitude num den := by
        refine le_magnitude hnum hden (le_trans ?_ hlow)
        have hpower := zpow_add_fifty e 52
        push_cast at hpower
        rw [hpower]
        exact mul_le_mul_of_nonneg_right (by linarith) hpow.le
      omega
    subst hpower
    exact ofRatio_of_below (by omega) hnum hden h (by omega)

end Double

end SurfaceGeometry
