import SurfaceGeometry.Proofs.Number.Exact
import SurfaceGeometry.Proofs.Number.Order

/-!
# Differences of doubles

The difference of two finite doubles is zero only if they are equal (`Double.sub_beq_zero`): it is a
multiple of the least positive double, and to round a multiple of it that is not zero does not give
zero (`Double.nonzero_round`). The difference can be infinite.
-/

namespace SurfaceGeometry

namespace Double

open Float.Model Float.Model.UnpackedFloat

/-! ## Mantissas and exponents -/

/-- A number has one mantissa and exponent: another mantissa with the implicit bit would be twice as
great. -/
theorem Canonical.unique {m m' : Nat} {e e' : Int} (h : Canonical m e) (h' : Canonical m' e')
    (heq : (m : ℚ) * 2 ^ e = m' * 2 ^ e') : m = m' ∧ e = e' := by
  have hnot {m m' : Nat} {e e' : Int} (h : Canonical m e) (h' : Canonical m' e')
      (heq : (m : ℚ) * 2 ^ e = m' * 2 ^ e') : ¬e < e' := by
    intro hlt
    have himplicit : 2 ^ 52 ≤ m' := by
      by_contra hsmall
      have hleast := h.least
      have hleast' := h'.subnormal (by omega)
      omega
    obtain ⟨k, rfl⟩ : ∃ k : Nat, e' = e + 1 + k := ⟨(e' - e - 1).toNat, by omega⟩
    have hpower : (2 : ℚ) ^ (e + 1 + k) = 2 ^ e * (2 * 2 ^ k) := by
      rw [zpow_add₀ (by norm_num), zpow_add₀ (by norm_num), zpow_one, zpow_natCast, mul_assoc]
    rw [hpower, mul_left_comm, mul_comm (m : ℚ)] at heq
    have hmantissa : (m : ℚ) = m' * (2 * 2 ^ k) := mul_left_cancel₀ (zpow_two_pos e).ne' heq
    have hmantissa' : m = m' * (2 * 2 ^ k) := by exact_mod_cast hmantissa
    have hone : 1 ≤ 2 ^ k := Nat.one_le_two_pow
    have hlt := h.lt
    nlinarith
  have hexponent : e = e' := le_antisymm (not_lt.1 (hnot h' h heq.symm)) (not_lt.1 (hnot h h' heq))
  subst hexponent
  refine ⟨?_, rfl⟩
  exact_mod_cast mul_right_cancel₀ (zpow_two_pos e).ne' heq

/-! ## Numbers that are not zero -/

/-- A number that is not zero, with a mantissa and an exponent that a double has room for; the
exponent may be that of infinity. -/
inductive Nonzero : UnpackedFloat → Prop where
  | finite {s m e} (hm : 0 < m) (lt : m < 2 ^ 53) (least : -1074 ≤ e) : Nonzero (.finite s m e hm)

/-- The bits of such a number are not those of a zero. -/
theorem Nonzero.pack {u : UnpackedFloat} (h : Nonzero u) :
    (UnpackedFloat.pack Format.binary64 u).toNat % 2 ^ 63 ≠ 0 := by
  obtain ⟨hm, hlt, hleast⟩ := h
  rename_i s m e
  have hpacked : UnpackedFloat.pack Format.binary64 (.finite s m e hm) =
      if 2 ^ 11 ≤ (e + (1023 : Nat) + (52 : Nat)).toNat + 1 then packedInfinity Format.binary64 s
      else if m.log2 + 1 = 53 then
        packComponents Format.binary64 s (BitVec.ofNat 11 (e + (1023 : Nat) + (52 : Nat)).toNat)
          (BitVec.ofNat 52 m)
      else packComponents Format.binary64 s 0#11 (BitVec.ofNat 52 m) := rfl
  have hfields (f : BitVec 11) (m : BitVec 52) (h : f.toNat ≠ 0 ∨ m.toNat ≠ 0) :
      (packComponents Format.binary64 s f m).toNat % 2 ^ 63 ≠ 0 := by
    have hf := f.isLt
    have hm := m.isLt
    rw [toNat_packComponents]
    omega
  rw [hpacked]
  split
  · exact hfields _ _ (.inl (by decide))
  split
  · exact hfields _ _ (.inl (by rw [BitVec.toNat_ofNat]; omega))
  · next hlog =>
    have hsmall : m < 2 ^ 52 := by
      have hlog53 : m.log2 < 53 := (Nat.log2_lt hm.ne').2 hlt
      exact (Nat.log2_lt hm.ne').1 (by omega)
    exact hfields _ _ (.inr (by rw [BitVec.toNat_ofNat]; omega))

/-! ## Rounding -/

/-- A shifted mantissa is divided by a power of two; the rest is in the two bits behind it. -/
theorem mantissa_shiftRight (m n : Nat) :
    (ExtendedMantissa.ofMantissaAndAccuracy m .exact >>> n).mantissa = m / 2 ^ n := by
  induction n with
  | zero => exact (Nat.div_one m).symm
  | succ n ih =>
    have hstep : ExtendedMantissa.ofMantissaAndAccuracy m .exact >>> (n + 1) =
        (ExtendedMantissa.ofMantissaAndAccuracy m .exact >>> n).shiftRightOne := rfl
    rw [hstep, pow_succ, ← Nat.div_div_eq_div_mul, ← ih]
    rfl

/-- Rounding does not make a mantissa smaller. -/
theorem le_roundedMantissa (em : ExtendedMantissa) : em.mantissa ≤ em.roundedMantissa := by
  obtain ⟨m, roundBit, stickyBit⟩ := em
  cases roundBit <;> cases stickyBit <;>
    simp only [ExtendedMantissa.roundedMantissa, ExtendedMantissa.accuracy,
      Accuracy.roundToNearestEven]
  all_goals omega

/-- A mantissa is shifted until it has the digits of a double, and not further. -/
theorem shiftToTargetExponent_spec {m : Nat} {e : Int} (hm : m ≠ 0) (he : -1074 ≤ e) :
    let shifted := shiftToTargetExponent Format.binary64 m e .exact
    0 < shifted.1.mantissa ∧ shifted.1.mantissa < 2 ^ 53 ∧ -1074 ≤ shifted.2 := by
  have hamount : (max ((m.log2 : Int) + e - 52) (-1074) - e).toNat = m.log2 - 52 := by omega
  have hshift : shiftToTargetExponent Format.binary64 m e .exact =
      (ExtendedMantissa.ofMantissaAndAccuracy m .exact >>> (m.log2 - 52),
        e + (m.log2 - 52 : Nat)) := by
    rw [shiftToTargetExponent, shiftToExponent, targetExponent_eq, hamount]
  have hlow := Nat.log2_self_le hm
  have hhigh : m < 2 ^ (m.log2 + 1) := Nat.lt_log2_self
  rw [hshift]
  dsimp only
  rw [mantissa_shiftRight]
  refine ⟨Nat.div_pos ?_ (Nat.two_pow_pos _), ?_, by omega⟩
  · exact (Nat.pow_le_pow_right two_pos (Nat.sub_le _ _)).trans hlow
  · rw [Nat.div_lt_iff_lt_mul (Nat.two_pow_pos _), ← pow_add]
    exact hhigh.trans_le (Nat.pow_le_pow_right two_pos (by omega))

/-- A number that is not zero is not rounded to zero. -/
theorem nonzero_round {s : Sign} {m : Nat} {e : Int} (hm : m ≠ 0) (he : -1074 ≤ e) :
    Nonzero (UnpackedFloat.round Format.binary64 s m e) := by
  unfold UnpackedFloat.round decreaseExponent
  rw [targetExponent_eq]
  dsimp only
  generalize hk : (e - max ((m.log2 : Int) + e - 52) (-1074)).toNat = k
  have hmantissa : m <<< k ≠ 0 := by
    rw [Nat.shiftLeft_eq]
    positivity
  have hfirst := shiftToTargetExponent_spec hmantissa (show -1074 ≤ e - (k : Int) by omega)
  unfold roundWithAccuracy
  dsimp only at hfirst ⊢
  generalize shiftToTargetExponent Format.binary64 (m <<< k) (e - k) .exact = first at hfirst ⊢
  have hrounded := le_roundedMantissa first.1
  have hsecond := shiftToTargetExponent_spec (show first.1.roundedMantissa ≠ 0 by omega) hfirst.2.2
  dsimp only at hsecond
  rw [dif_neg hsecond.1.ne']
  exact .finite _ hsecond.2.1 hsecond.2.2

/-- A number that is not zero is rounded to one that is not, if it is a multiple of the least
double. -/
theorem nonzero_normalize {m e : Int} {s : Sign} (hm : m ≠ 0) (he : -1074 ≤ e) :
    Nonzero (UnpackedFloat.normalize Format.binary64 m e s) := by
  unfold UnpackedFloat.normalize
  split
  · next hlt => exact nonzero_round (by have := Int.compare_eq_lt.1 hlt; omega) he
  · next heq => exact absurd (Int.compare_eq_eq.1 heq) hm
  · next hgt => exact nonzero_round (by have := Int.compare_eq_gt.1 hgt; omega) he

/-! ## Differences -/

variable {x y : Float}

/-- A number with a sign is known with its sign, unless it is zero. -/
theorem apply_inj {s s' : Sign} {a b : Nat} (ha : a ≠ 0) (h : s.apply a = s'.apply b) :
    s = s' ∧ a = b := by
  cases s <;> cases s' <;> simp only [Sign.apply] at h
  · exact ⟨rfl, by omega⟩
  · omega
  · omega
  · exact ⟨rfl, by omega⟩

/-- Finite doubles of different ranks have a difference that is not zero. -/
theorem nonzero_sub (hx : x.isFinite = true) (hy : y.isFinite = true) (h : rank x ≠ rank y) :
    Nonzero ((UnpackedFloat.unpack Format.binary64 x.toBits.toBitVec).sub Format.binary64
      (UnpackedFloat.unpack Format.binary64 y.toBits.toBitVec)) := by
  unfold rank at h
  rcases unpack_canonical hx with ⟨s, hzero⟩ | ⟨s, m, e, hm, hfinite, hcanonical, -⟩ <;>
    rcases unpack_canonical hy with ⟨s', hzero'⟩ | ⟨s', m', e', hm', hfinite', hcanonical', -⟩
  · rw [hzero, hzero'] at h
    exact absurd rfl h
  · rw [hzero, hfinite']
    exact .finite hm' hcanonical'.lt hcanonical'.least
  · rw [hfinite, hzero']
    exact .finite hm hcanonical.lt hcanonical.least
  · rw [hfinite, hfinite'] at h ⊢
    refine nonzero_normalize (fun hmantissa => h ?_) (le_min hcanonical.least hcanonical'.least)
    have hvalue : ((decreaseExponent m e (min e e')).1 : ℚ) * 2 ^ min e e' = m * 2 ^ e :=
      decreaseExponent_value (min_le_left _ _)
    have hvalue' : ((decreaseExponent m' e' (min e e')).1 : ℚ) * 2 ^ min e e' = m' * 2 ^ e' :=
      decreaseExponent_value (min_le_right _ _)
    have hne : (decreaseExponent m e (min e e')).1 ≠ 0 := by
      intro h0
      have hpos : (0 : ℚ) < m * 2 ^ e := mul_pos (by exact_mod_cast hm) (zpow_two_pos e)
      rw [h0, Nat.cast_zero, zero_mul] at hvalue
      exact hpos.ne hvalue
    obtain ⟨rfl, hsame⟩ : s = s' ∧
        (decreaseExponent m e (min e e')).1 = (decreaseExponent m' e' (min e e')).1 :=
      apply_inj hne (sub_eq_zero.1 hmantissa)
    rw [hsame, hvalue'] at hvalue
    obtain ⟨rfl, rfl⟩ := hcanonical.unique hcanonical' hvalue.symm
    rfl

/-- A double with other bits than those of a zero is not equal to zero. -/
theorem beq_zero (h : bits x % 2 ^ 63 ≠ 0) : (x == 0) = false := by
  rw [Bool.eq_false_iff]
  intro hbeq
  have hzero :
      (UnpackedFloat.unpack Format.binary64 x.toBits.toBitVec).beq (.zero .positive) = true :=
    hbeq
  obtain ⟨s, hunpack⟩ : ∃ s, UnpackedFloat.unpack Format.binary64 x.toBits.toBitVec = .zero s := by
    rcases unpack_of_beq hzero with ⟨s, -, hunpack, -⟩ | hunpack
    · exact ⟨s, hunpack⟩
    · exact ⟨.positive, hunpack⟩
  have hfinite : x.isFinite = true := by
    show (UnpackedFloat.unpack Format.binary64 x.toBits.toBitVec).isFinite = true
    rw [hunpack]
    rfl
  obtain ⟨u, hu, hmagnitude, hbits, -⟩ := @unpack_finite x.toBits.toBitVec (exponent_lt hfinite)
  rw [hunpack] at hmagnitude
  cases hu with
  | zero => exact h (hbits.1 rfl)
  | finite => cases hmagnitude

/-- One double is less than another one, then the difference is not zero. -/
theorem sub_beq_zero (hx : x.isFinite = true) (hy : y.isFinite = true) (h : x < y) :
    (y - x == 0) = false := by
  refine beq_zero ?_
  have hbits : bits (y - x) = (UnpackedFloat.pack Format.binary64
    ((UnpackedFloat.unpack Format.binary64 y.toBits.toBitVec).sub Format.binary64
      (UnpackedFloat.unpack Format.binary64 x.toBits.toBitVec))).toNat := rfl
  rw [hbits]
  exact (nonzero_sub hy hx (lt_iff.1 h).2.2.ne').pack

end Double

end SurfaceGeometry
