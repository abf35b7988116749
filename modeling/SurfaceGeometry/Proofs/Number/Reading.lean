import SurfaceGeometry.Proofs.Number.Fields
import SurfaceGeometry.Proofs.Number.Spelling
import SurfaceGeometry.Proofs.Printer.Kinds

/-!
# Doubles read back

The spelling of a finite double is read as the same double, apart from the sign: the decimal chosen
for it lies in its neighbourhood, the spelling has the value of the decimal, and a decimal in the
neighbourhood of a double is rounded to it. Only the sign of zero is lost, since the text of a
negative number is a sign and the text of its negation.
-/

namespace SurfaceGeometry

namespace Double

/-! ## Decimals near a double -/

/-- A number has as many digits as the bound by a power of ten says. -/
theorem lt_ten_pow_digitCount (n : Nat) : n < 10 ^ digitCount n := by
  fun_induction digitCount n with
  | case1 n h => omega
  | case2 n h ih =>
    rw [Nat.pow_succ]
    omega

/-- The first digit of a number is not zero. -/
theorem ten_pow_digitCount_le {n : Nat} (hn : 0 < n) : 10 ^ (digitCount n - 1) ≤ n := by
  fun_induction digitCount n with
  | case1 n h => exact hn
  | case2 n h ih =>
    have hpos : 0 < digitCount (n / 10) := by
      rw [digitCount]
      split <;> omega
    have hle := ih (by omega)
    have hpow : 10 ^ digitCount (n / 10) = 10 ^ (digitCount (n / 10) - 1) * 10 := by
      rw [← Nat.pow_succ, Nat.succ_eq_add_one, Nat.sub_add_cancel hpos]
    rw [Nat.add_sub_cancel, hpow]
    omega

variable {m : Nat} {e : Int} {d : Decimal}

/-- The place of the first digit bounds the value. -/
theorem value_bounds (hd : d.digits ≠ 0) :
    (10 : ℚ) ^ ((digitCount d.digits : Int) + d.exponent - 1) ≤ d.value ∧
      d.value < 10 ^ ((digitCount d.digits : Int) + d.exponent) := by
  have hten : (0 : ℚ) < 10 ^ d.exponent := by positivity
  have hpos : 0 < digitCount d.digits := by
    rw [digitCount]
    split <;> omega
  have hlow : (10 : ℚ) ^ ((digitCount d.digits : Int) - 1) ≤ d.digits := by
    have hle := ten_pow_digitCount_le (Nat.pos_of_ne_zero hd)
    have hcast : ((digitCount d.digits : Int) - 1) = (digitCount d.digits - 1 : Nat) := by omega
    rw [hcast, zpow_natCast]
    exact_mod_cast hle
  have hhigh : (d.digits : ℚ) < 10 ^ (digitCount d.digits : Int) := by
    rw [zpow_natCast]
    exact_mod_cast lt_ten_pow_digitCount d.digits
  have hplace : (digitCount d.digits : Int) + d.exponent - 1 =
      (digitCount d.digits : Int) - 1 + d.exponent := by ring
  rw [hplace, zpow_add₀ (by norm_num), zpow_add₀ (by norm_num), Decimal.value]
  exact ⟨mul_le_mul_of_nonneg_right hlow hten.le, mul_lt_mul_of_pos_right hhigh hten⟩

/-- The least positive double is far above the decimals that are read as zero at once. -/
theorem least_double_bound : (10 : ℚ) ^ (-331 : Int) < 1 / 2 * 2 ^ (-1074 : Int) := by
  have hpow : (2 * 2 ^ 1074 : ℚ) < 10 ^ 331 := by
    exact_mod_cast (by decide +kernel : 2 * 2 ^ 1074 < 10 ^ 331)
  rw [zpow_neg, zpow_neg, one_div, ← mul_inv]
  exact inv_strictAnti₀ (by positivity) (by exact_mod_cast hpow)

/-- The greatest double is far below the decimals that are read as infinite at once. -/
theorem greatest_double_bound : (2 : ℚ) ^ 53 * 2 ^ (971 : Int) < 10 ^ (310 : Int) := by
  have hpow : (2 ^ 53 * 2 ^ 971 : ℚ) < 10 ^ 310 := by
    exact_mod_cast (by decide +kernel : 2 ^ 53 * 2 ^ 971 < 10 ^ 310)
  exact_mod_cast hpow

/-- Numbers near a double are neither so small nor so great that they are not looked at. -/
theorem Near.range {v : ℚ} (hcanonical : Canonical m e) (he : e ≤ 971) (h : Near m e v) :
    (10 : ℚ) ^ (-331 : Int) < v ∧ v < 10 ^ (310 : Int) := by
  obtain ⟨⟨hlow, hhigh⟩, -⟩ := h.half hcanonical.pos
  have hone : (1 : ℚ) ≤ m := by exact_mod_cast hcanonical.pos
  have hmost : (m : ℚ) + 1 ≤ 2 ^ 53 := by exact_mod_cast hcanonical.lt
  have hpow := zpow_two_pos e
  have hleast : (2 : ℚ) ^ (-1074 : Int) ≤ 2 ^ e :=
    (zpow_le_zpow_iff_right₀ (by norm_num)).2 hcanonical.least
  have hgreatest : (2 : ℚ) ^ e ≤ 2 ^ (971 : Int) := (zpow_le_zpow_iff_right₀ (by norm_num)).2 he
  constructor
  · refine least_double_bound.trans_le (le_trans ?_ hlow)
    exact mul_le_mul (by linarith) hleast (zpow_two_pos _).le (by linarith)
  · refine hhigh.trans_lt (lt_of_le_of_lt ?_ greatest_double_bound)
    exact mul_le_mul (by linarith) hgreatest hpow.le (by positivity)

/-- A decimal near a double is read as the double. -/
theorem ofDecimal_of_near (hcanonical : Canonical m e) (he : e ≤ 971) (h : Near m e d.value) :
    ofDecimal d = ofParts m e := by
  have hrange := h.range hcanonical he
  have hdigits : d.digits ≠ 0 := by
    intro hzero
    rw [Decimal.value, hzero, Nat.cast_zero, zero_mul] at hrange
    exact absurd hrange.1 (not_lt.2 (by positivity))
  have hbounds := value_bounds hdigits
  have hplacelow := (zpow_lt_zpow_iff_right₀ (by norm_num : (1 : ℚ) < 10)).1
    (hrange.1.trans hbounds.2)
  have hplacehigh := (zpow_lt_zpow_iff_right₀ (by norm_num : (1 : ℚ) < 10)).1
    (hbounds.1.trans_lt hrange.2)
  unfold ofDecimal
  dsimp only
  rw [if_neg (by omega), if_neg (by omega)]
  split
  · next hexponent =>
    refine ofRatio_of_near hcanonical Nat.one_ne_zero ?_
    obtain ⟨n, hn⟩ := Int.eq_ofNat_of_zero_le hexponent
    rw [Decimal.value, hn, zpow_natCast] at h
    rw [hn, Int.toNat_natCast, Nat.cast_one, div_one]
    exact_mod_cast h
  · next hexponent =>
    refine ofRatio_of_near hcanonical (Nat.pos_iff_ne_zero.1 (Nat.pow_pos (by decide))) ?_
    obtain ⟨n, hn⟩ := Int.eq_ofNat_of_zero_le (show 0 ≤ -d.exponent by omega)
    have hn' : d.exponent = -(n : Int) := by omega
    rw [Decimal.value, hn', zpow_neg, zpow_natCast, ← div_eq_mul_inv] at h
    rw [hn, Int.toNat_natCast]
    exact_mod_cast h

/-! ## The parts of a double -/

variable {x : Float}

/-- The parts of a double by the fields of its bits. -/
theorem parts_eq (x : Float) : parts x =
    if bits x / 2 ^ 52 % 2 ^ 11 = 0 then ⟨bits x / 2 ^ 63 % 2 == 1, bits x % 2 ^ 52, -1074⟩
    else ⟨bits x / 2 ^ 63 % 2 == 1, 2 ^ 52 + bits x % 2 ^ 52,
      ((bits x / 2 ^ 52 % 2 ^ 11 : Nat) : Int) - 1075⟩ :=
  rfl

/-- The parts of a finite double: its bits, a sign apart, and what is known of mantissa and
exponent. -/
theorem parts_spec (h : x.isFinite = true) :
    (parts x).negative = decide (2 ^ 63 ≤ bits x) ∧
      ((parts x).exponent + 1074).toNat * 2 ^ 52 + (parts x).mantissa = bits x % 2 ^ 63 ∧
      -1074 ≤ (parts x).exponent ∧ (parts x).exponent ≤ 971 ∧ (parts x).mantissa < 2 ^ 53 ∧
      ((parts x).mantissa < 2 ^ 52 → (parts x).exponent = -1074) := by
  have hexponent := exponent_lt h
  have hlt := bits_lt x
  have hsign : (bits x / 2 ^ 63 % 2 == 1) = decide (2 ^ 63 ≤ bits x) := by
    rw [Bool.eq_iff_iff, beq_iff_eq, decide_eq_true_eq]
    omega
  rw [parts_eq]
  split
  · next hzero =>
    exact ⟨hsign, by dsimp only; omega, by dsimp only; omega, by dsimp only; omega,
      by dsimp only; omega, fun _ => rfl⟩
  · next hzero =>
    exact ⟨hsign, by dsimp only; omega, by dsimp only; omega, by dsimp only; omega,
      by dsimp only; omega, fun h => by dsimp only at h; omega⟩

/-- Parts are put together to bits, unless these are past the greatest double. -/
theorem bits_ofParts (h : (e + 1074).toNat * 2 ^ 52 + m < 2047 * 2 ^ 52) :
    bits (ofParts m e) = (e + 1074).toNat * 2 ^ 52 + m := by
  have hmin : min ((e + 1074).toNat * Nat.pow 2 52 + m) (2047 * Nat.pow 2 52) =
      (e + 1074).toNat * 2 ^ 52 + m := Nat.min_eq_left (Nat.le_of_lt h)
  have hvalue : (UInt64.ofNat ((e + 1074).toNat * 2 ^ 52 + m)).toNat =
      (e + 1074).toNat * 2 ^ 52 + m := UInt64.toNat_ofNat_of_lt' (by
        show _ < 2 ^ 64
        omega)
  unfold ofParts
  dsimp only
  rw [hmin, bits_ofBits (by rw [hvalue]; omega), hvalue]

/-- The parts of a double without a sign are put together to the double. -/
theorem ofParts_parts (h : x.isFinite = true) (hsign : bits x < 2 ^ 63) :
    ofParts (parts x).mantissa (parts x).exponent = x := by
  have hparts := (parts_spec h).2.1
  have hexponent := exponent_lt h
  apply eq_of_bits
  rw [bits_ofParts (by omega), hparts]
  omega

/-- The parts of a double other than zero are in the form that rounding gives. -/
theorem canonical_parts (h : x.isFinite = true) (hm : (parts x).mantissa ≠ 0) :
    Canonical (parts x).mantissa (parts x).exponent :=
  have hparts := parts_spec h
  ⟨Nat.pos_of_ne_zero hm, hparts.2.2.2.2.1, hparts.2.2.1, hparts.2.2.2.2.2⟩

/-! ## Reading back -/

/-- The decimal with which a double without a sign is spelled. -/
def decimal (x : Float) : Decimal :=
  if (parts x).mantissa = 0 then ⟨0, 0⟩ else shortest (parts x).mantissa (parts x).exponent

/-- A double without a sign is spelled as its decimal. -/
theorem positional_eq (h : x.isFinite = true) (hsign : bits x < 2 ^ 63) :
    positional x = (decimal x).positional := by
  have hnegative : (parts x).negative = false := by
    rw [(parts_spec h).1, decide_eq_false_iff_not]
    omega
  unfold positional spellWith decimal
  simp only [h, hnegative, if_true, Bool.false_eq_true, if_false]
  exact String.empty_append

/-- A decimal with the value of the one that a double is spelled with is read as the double. -/
theorem ofDecimal_of_value (h : x.isFinite = true) (hsign : bits x < 2 ^ 63) {d : Decimal}
    (hvalue : d.value = (decimal x).value) : ofDecimal d = x := by
  have hparts := parts_spec h
  unfold decimal at hvalue
  split at hvalue
  · next hm =>
    have hdigits : d.digits = 0 := by
      have hten : (10 : ℚ) ^ d.exponent ≠ 0 := by positivity
      rw [Decimal.value, Decimal.value, Nat.cast_zero, zero_mul] at hvalue
      exact_mod_cast (mul_eq_zero.1 hvalue).resolve_right hten
    have hexponent := hparts.2.2.2.2.2 (by omega)
    rw [← ofParts_parts h hsign, hm, hexponent, ofDecimal]
    exact if_pos (.inl hdigits)
  · next hm =>
    have hcanonical := canonical_parts h hm
    have hnear := @near_shortest (parts x).mantissa (parts x).exponent hcanonical.pos
    rw [← hvalue] at hnear
    rw [ofDecimal_of_near hcanonical hparts.2.2.2.1 hnear, ofParts_parts h hsign]

/-- A finite double without a sign reads back. -/
theorem readsBack (h : x.isFinite = true) (hsign : bits x < 2 ^ 63) : NumberText.ReadsBack x := by
  obtain ⟨hplain, d, hd, hvalue⟩ := Decimal.spells_positional (decimal x)
  unfold NumberText.ReadsBack
  show NumberLexeme.Plain (positional x).toList ∧ _
  rw [show NumberText.positional x = positional x from rfl, positional_eq h hsign]
  exact ⟨hplain, d, hd, ofDecimal_of_value h hsign hvalue⟩

/-- The negation of a double has its parts with the other sign. -/
theorem parts_neg (h : x.isFinite = true) : (-x).isFinite = true ∧
    parts (-x) = ⟨!(parts x).negative, (parts x).mantissa, (parts x).exponent⟩ := by
  have hlt := bits_lt x
  have hexponent := exponent_lt h
  have hneg := bits_neg h
  have hfinite : (-x).isFinite = true := isFinite_of_exponent_lt (by omega)
  refine ⟨hfinite, ?_⟩
  have hbiased : bits (-x) / 2 ^ 52 % 2 ^ 11 = bits x / 2 ^ 52 % 2 ^ 11 := by omega
  have hfraction : bits (-x) % 2 ^ 52 = bits x % 2 ^ 52 := by omega
  have hsign : (bits (-x) / 2 ^ 63 % 2 == 1) = !(bits x / 2 ^ 63 % 2 == 1) := by
    rw [Bool.eq_iff_iff, Bool.not_eq_true', beq_iff_eq, beq_eq_false_iff_ne]
    omega
  rw [parts_eq (-x), parts_eq x, hbiased, hfraction, hsign]
  split <;> rfl

/-- The text of a finite double that is not the negative zero reads back, behind its sign. -/
theorem spelled (h : x.isFinite = true) (hzero : bits x ≠ 2 ^ 63) : NumberText.Spelled x := by
  have hlt := bits_lt x
  unfold NumberText.Spelled
  split
  · next hnegative =>
    have hsign : 2 ^ 63 < bits x := (lt_zero_iff h).1 hnegative
    obtain ⟨hfinite, hparts⟩ := parts_neg h
    have hpositive : bits (-x) < 2 ^ 63 := by
      have hneg := bits_neg h
      omega
    have hnegative' : (parts x).negative = true := by
      rw [(parts_spec h).1, decide_eq_true_eq]
      omega
    refine ⟨?_, readsBack hfinite hpositive⟩
    show positional x = "-" ++ positional (-x)
    unfold positional spellWith
    simp only [h, hfinite, hnegative', hparts, if_true, Bool.not_true, Bool.false_eq_true, if_false,
      String.empty_append]
  · next hnonnegative =>
    have hsign : ¬2 ^ 63 < bits x := fun hsign => hnonnegative ((lt_zero_iff h).2 hsign)
    exact readsBack h (by omega)

/-- A number that was read has no sign. -/
theorem bits_ofDecimal_lt (d : Decimal) (h : (ofDecimal d).isFinite = true) :
    bits (ofDecimal d) < 2 ^ 63 := by
  have hparts : ∃ m e, ofDecimal d = ofParts m e := by
    unfold ofDecimal ofRatio
    dsimp only
    split
    · exact ⟨_, _, rfl⟩
    · split
      · exact ⟨_, _, rfl⟩
      · split <;> split <;> exact ⟨_, _, rfl⟩
  obtain ⟨m, e, hparts⟩ := hparts
  rw [hparts] at h ⊢
  rcases Nat.lt_or_ge ((e + 1074).toNat * 2 ^ 52 + m) (2047 * 2 ^ 52) with hlt | hge
  · rw [bits_ofParts hlt]
    omega
  · exfalso
    have hmin : min ((e + 1074).toNat * Nat.pow 2 52 + m) (2047 * Nat.pow 2 52) =
        2047 * 2 ^ 52 := Nat.min_eq_right hge
    unfold ofParts at h
    dsimp only at h
    rw [hmin] at h
    cases h

end Double

end SurfaceGeometry
