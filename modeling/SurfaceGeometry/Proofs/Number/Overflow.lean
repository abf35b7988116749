import SurfaceGeometry.Proofs.Number.Fields
import SurfaceGeometry.Proofs.Number.Rounding

/-!
# Results that are finite

A number below the midpoint between the greatest double and the next power of two is rounded to a
finite double (`Double.exponent_pack_round_lt`). So a change of the sign keeps a double finite, and
so does the subtraction of one (`Double.isFinite_sub_one`): next to the greatest double the one is
lost in the rounding.

How far up a mantissa is rounded is read off the two bits that stand for the places shifted out:
they are a lower bound of these places at every step of the shift
(`Double.two_mul_roundedMantissa_le`).
-/

namespace SurfaceGeometry

namespace Double

open Float.Model Float.Model.UnpackedFloat

/-! ## Rounding to a mantissa -/

/-- Rounding adds one at most, and only if the first of the bits behind the mantissa is set. -/
theorem roundedMantissa_le (em : ExtendedMantissa) :
    em.roundedMantissa ≤ em.mantissa + em.roundBit.toNat := by
  obtain ⟨m, roundBit, stickyBit⟩ := em
  cases roundBit <;> cases stickyBit <;>
    simp only [ExtendedMantissa.roundedMantissa, ExtendedMantissa.accuracy,
      Accuracy.roundToNearestEven, Bool.toNat_false, Bool.toNat_true]
  all_goals omega

/-- What is left of a mantissa after a shift, with the bit behind it as a half, is at most the
quotient. -/
theorem shiftRight_le (m n : Nat) :
    (2 * (ExtendedMantissa.ofMantissaAndAccuracy m .exact >>> n).mantissa +
        (ExtendedMantissa.ofMantissaAndAccuracy m .exact >>> n).roundBit.toNat) * 2 ^ n ≤
      2 * m := by
  induction n with
  | zero =>
    show (2 * m + 0) * 2 ^ 0 ≤ 2 * m
    omega
  | succ n ih =>
    have hstep : ExtendedMantissa.ofMantissaAndAccuracy m .exact >>> (n + 1) =
        (ExtendedMantissa.ofMantissaAndAccuracy m .exact >>> n).shiftRightOne := rfl
    rw [hstep]
    generalize ExtendedMantissa.ofMantissaAndAccuracy m .exact >>> n = em at ih ⊢
    have hbit : (em.mantissa % 2 != 0).toNat = em.mantissa % 2 := by
      rcases Nat.mod_two_eq_zero_or_one em.mantissa with h | h <;> rw [h] <;> rfl
    have hhalf : 2 * (em.mantissa / 2) + (em.mantissa % 2 != 0).toNat = em.mantissa := by omega
    calc (2 * (em.mantissa / 2) + (em.mantissa % 2 != 0).toNat) * 2 ^ (n + 1)
        = 2 * em.mantissa * 2 ^ n := by rw [hhalf, pow_succ]; ring
      _ ≤ (2 * em.mantissa + em.roundBit.toNat) * 2 ^ n :=
          Nat.mul_le_mul_right _ (Nat.le_add_right _ _)
      _ ≤ 2 * m := ih

/-- A mantissa that is shifted and rounded is at most a half above the quotient. -/
theorem two_mul_roundedMantissa_le (m n : Nat) :
    2 * (ExtendedMantissa.ofMantissaAndAccuracy m .exact >>> n).roundedMantissa * 2 ^ n ≤
      2 * m + 2 ^ n := by
  have hshift := shiftRight_le m n
  have hround := roundedMantissa_le (ExtendedMantissa.ofMantissaAndAccuracy m .exact >>> n)
  generalize ExtendedMantissa.ofMantissaAndAccuracy m .exact >>> n = em at hshift hround ⊢
  have hbit : em.roundBit.toNat ≤ 1 := by cases em.roundBit <;> decide
  calc 2 * em.roundedMantissa * 2 ^ n
      ≤ (2 * em.mantissa + em.roundBit.toNat + 1) * 2 ^ n := Nat.mul_le_mul_right _ (by omega)
    _ = (2 * em.mantissa + em.roundBit.toNat) * 2 ^ n + 2 ^ n := by ring
    _ ≤ 2 * m + 2 ^ n := Nat.add_le_add_right hshift _

/-! ## Rounding to a double -/

/-- The exponent to which a number is rounded: 52 places below its first bit, but not below the
least one. -/
theorem targetExponent_eq (m : Nat) (e : Int) :
    Format.binary64.targetExponent (totalExponent m e) = max (m.log2 + e - 52) (-1074) := by
  show max ((m.log2 : Int) + 1 + e - 53) (-1074) = _
  omega

/-- The bits of a number with a small exponent are not those of infinity. -/
theorem exponent_pack_lt {s : Sign} {m : Nat} {e : Int} (hm : 0 < m) (he : e ≤ 971) :
    (UnpackedFloat.pack Format.binary64 (.finite s m e hm)).toNat / 2 ^ 52 % 2 ^ 11 < 2047 := by
  have hpacked : UnpackedFloat.pack Format.binary64 (.finite s m e hm) =
      if 2 ^ 11 ≤ (e + (1023 : Nat) + (52 : Nat)).toNat + 1 then packedInfinity Format.binary64 s
      else if m.log2 + 1 = 53 then
        packComponents Format.binary64 s (BitVec.ofNat 11 (e + (1023 : Nat) + (52 : Nat)).toNat)
          (BitVec.ofNat 52 m)
      else packComponents Format.binary64 s 0#11 (BitVec.ofNat 52 m) := rfl
  have hfield (f : BitVec 11) (m : BitVec 52) :
      (packComponents Format.binary64 s f m).toNat / 2 ^ 52 % 2 ^ 11 = f.toNat := by
    have hf := f.isLt
    have hm := m.isLt
    rw [toNat_packComponents]
    omega
  rw [hpacked, if_neg (by omega)]
  split
  · rw [hfield, BitVec.toNat_ofNat]
    omega
  · rw [hfield]
    decide

/-- The place of the first digit of a number below a power of two. -/
theorem log2_add_lt {m : Nat} {e k : Int} (hm : m ≠ 0) (h : (m : ℚ) * 2 ^ e < 2 ^ k) :
    m.log2 + e < k := by
  have hlog : (2 : ℚ) ^ (m.log2 : Int) ≤ m := by exact_mod_cast Nat.log2_self_le hm
  have hpower : (2 : ℚ) ^ ((m.log2 : Int) + e) < 2 ^ k := by
    rw [zpow_add₀ (by norm_num)]
    exact (mul_le_mul_of_nonneg_right hlog (zpow_two_pos e).le).trans_lt h
  exact (zpow_lt_zpow_iff_right₀ (by norm_num)).1 hpower

/-- A mantissa that is brought to an exponent which a double has, and rounded, is still below the
power of two behind the greatest double when it was below the midpoint before. -/
theorem log2_roundedMantissa_add_lt {m n : Nat} {e : Int} (hn : e + n ≤ 971)
    (h : (m : ℚ) * 2 ^ e < 2 ^ (1024 : Int) - 2 ^ (970 : Int)) :
    ((ExtendedMantissa.ofMantissaAndAccuracy m .exact >>> n).roundedMantissa.log2 : Int) + (e + n) <
      1024 := by
  have hround := two_mul_roundedMantissa_le m n
  generalize (ExtendedMantissa.ofMantissaAndAccuracy m .exact >>> n).roundedMantissa = r at hround ⊢
  by_cases hzero : r = 0
  · subst hzero
    have hlog := Nat.log2_zero
    omega
  · refine log2_add_lt hzero ?_
    have hround' : (2 * r * 2 ^ n : ℚ) ≤ 2 * m + 2 ^ n := by exact_mod_cast hround
    have hhalf : (2 : ℚ) ^ (e + n) ≤ 2 * 2 ^ (970 : Int) := by
      rw [← zpow_one_add₀ (by norm_num)]
      exact zpow_le_zpow_right₀ (by norm_num) hn
    have hsplit : (2 : ℚ) ^ (e + n) = 2 ^ n * 2 ^ e := by
      rw [zpow_add₀ (by norm_num), zpow_natCast, mul_comm]
    have hscaled : (2 * r * 2 ^ n : ℚ) * 2 ^ e ≤ (2 * m + 2 ^ n) * 2 ^ e :=
      mul_le_mul_of_nonneg_right hround' (zpow_two_pos e).le
    calc (r : ℚ) * 2 ^ (e + n) = (2 * r * 2 ^ n) * 2 ^ e / 2 := by rw [hsplit]; ring
      _ ≤ (2 * m + 2 ^ n) * 2 ^ e / 2 := by linarith
      _ = m * 2 ^ e + 2 ^ (e + n) / 2 := by rw [hsplit]; ring
      _ < 2 ^ (1024 : Int) := by linarith

/-- A number below the midpoint behind the greatest double is not rounded to infinity. The exponent
is not above the one to round to. -/
theorem exponent_pack_roundWithAccuracy_lt {s : Sign} {m : Nat} {e : Int}
    (htarget : e ≤ max (m.log2 + e - 52) (-1074))
    (h : (m : ℚ) * 2 ^ e < 2 ^ (1024 : Int) - 2 ^ (970 : Int)) :
    (UnpackedFloat.pack Format.binary64
      (roundWithAccuracy Format.binary64 s m e .exact)).toNat / 2 ^ 52 % 2 ^ 11 < 2047 := by
  obtain ⟨n, hn⟩ : ∃ n : Nat, max ((m.log2 : Int) + e - 52) (-1074) = e + n :=
    ⟨(max ((m.log2 : Int) + e - 52) (-1074) - e).toNat, by omega⟩
  have hshift : shiftToTargetExponent Format.binary64 m e .exact =
      (ExtendedMantissa.ofMantissaAndAccuracy m .exact >>> n, e + n) := by
    have hamount : (max ((m.log2 : Int) + e - 52) (-1074) - e).toNat = n := by omega
    rw [shiftToTargetExponent, shiftToExponent, targetExponent_eq, hamount]
  have hlarge : e + n ≤ 971 := by
    by_cases hm : m = 0
    · subst hm
      have hlog := Nat.log2_zero
      omega
    · have hlog : (m.log2 : Int) + e < 1024 :=
        log2_add_lt hm (h.trans (sub_lt_self _ (zpow_two_pos _)))
      omega
  have hlog := log2_roundedMantissa_add_lt hlarge h
  unfold roundWithAccuracy
  rw [hshift]
  dsimp only
  generalize (ExtendedMantissa.ofMantissaAndAccuracy m .exact >>> n).roundedMantissa = r at hlog ⊢
  rw [shiftToTargetExponent, shiftToExponent, targetExponent_eq]
  dsimp only
  split
  · cases s <;> decide
  · exact exponent_pack_lt _ (by omega)

/-- A shift to the left moves the first bit. -/
theorem log2_shiftLeft {m : Nat} (hm : m ≠ 0) (k : Nat) : (m <<< k).log2 = m.log2 + k := by
  induction k with
  | zero => rfl
  | succ k ih =>
    have hne : m <<< k ≠ 0 := by
      rw [Nat.shiftLeft_eq]
      positivity
    rw [Nat.shiftLeft_succ, Nat.log2_two_mul hne, ih, Nat.add_assoc]

/-- The same for a number whose exponent can also be above the one to round to. -/
theorem exponent_pack_round_lt {s : Sign} {m : Nat} {e : Int} (hm : m ≠ 0)
    (h : (m : ℚ) * 2 ^ e < 2 ^ (1024 : Int) - 2 ^ (970 : Int)) :
    (UnpackedFloat.pack Format.binary64
      (UnpackedFloat.round Format.binary64 s m e)).toNat / 2 ^ 52 % 2 ^ 11 < 2047 := by
  unfold UnpackedFloat.round decreaseExponent
  rw [targetExponent_eq]
  dsimp only
  generalize hk : (e - max ((m.log2 : Int) + e - 52) (-1074)).toNat = k
  have hlog : (m <<< k).log2 = m.log2 + k := log2_shiftLeft hm k
  refine exponent_pack_roundWithAccuracy_lt ?_ ?_
  · rw [hlog]
    push_cast
    omega
  · have hvalue : ((m <<< k : Nat) : ℚ) * 2 ^ (e - k) = m * 2 ^ e := by
      rw [Nat.shiftLeft_eq, zpow_sub₀ (by norm_num), zpow_natCast]
      push_cast
      field_simp
    rwa [hvalue]

/-! ## Differences -/

/-- A finite double is a zero, or it has a mantissa and an exponent of a double, which are at most
those of the greatest one. -/
theorem unpack_canonical {x : Float} (h : x.isFinite = true) :
    (∃ s, UnpackedFloat.unpack Format.binary64 x.toBits.toBitVec = .zero s) ∨
      ∃ s m e hm, UnpackedFloat.unpack Format.binary64 x.toBits.toBitVec = .finite s m e hm ∧
        Canonical m e ∧ e ≤ 971 := by
  have hexponent := toNat_unpackExponent x.toBits.toBitVec
  have hlt : (@unpackExponent Format.binary64 x.toBits.toBitVec).toNat < 2047 :=
    hexponent.trans_lt (exponent_lt h)
  have hne : @unpackExponent Format.binary64 x.toBits.toBitVec ≠ -1#_ := by
    intro hones
    rw [hones] at hlt
    exact absurd hlt (by decide)
  have hmantissa : (@unpackMantissa Format.binary64 x.toBits.toBitVec).toNat < 2 ^ 52 :=
    BitVec.isLt _
  have hone := toNat_one_append (@unpackMantissa Format.binary64 x.toBits.toBitVec)
  have hbias : Format.binary64.exponentBias = 1023 := rfl
  unfold UnpackedFloat.unpack
  simp only [hne, if_false]
  split
  -- A subnormal mantissa stands at the least exponent. Otherwise a bit is put in front of it.
  · next hzero =>
    have hexponent' : (@unpackExponent Format.binary64 x.toBits.toBitVec).toNat = 0 :=
      congrArg BitVec.toNat hzero
    split
    · exact .inl ⟨_, rfl⟩
    · next hm =>
      have hpos : 0 < (@unpackMantissa Format.binary64 x.toBits.toBitVec).toNat :=
        Nat.pos_of_ne_zero fun h0 => hm (BitVec.eq_of_toNat_eq h0)
      have hleast : ((@unpackExponent Format.binary64 x.toBits.toBitVec).toNat : Int) -
          ((1023 : Nat) + (52 : Nat)) + 1 = -1074 := by omega
      exact .inr ⟨_, _, _, hpos, rfl,
        ⟨hpos, hmantissa.trans (by decide), hleast.ge, fun _ => hleast⟩, by omega⟩
  · next hnonzero =>
    have hexponent' : (@unpackExponent Format.binary64 x.toBits.toBitVec).toNat ≠ 0 := fun h0 =>
      hnonzero (BitVec.eq_of_toNat_eq h0)
    have hpos : 0 < (1#1 ++ @unpackMantissa Format.binary64 x.toBits.toBitVec).toNat := by omega
    exact .inr ⟨_, _, _, hpos, rfl, ⟨hpos, by omega, by omega, fun h => by omega⟩, by omega⟩

/-- The value of a mantissa brought to a smaller exponent. -/
theorem decreaseExponent_value {m : Nat} {e least : Int} (h : least ≤ e) :
    ((decreaseExponent m e least).1 : ℚ) * 2 ^ least = m * 2 ^ e := by
  have hexponent : e = least + ((e - least).toNat : Int) := by omega
  unfold decreaseExponent
  dsimp only
  generalize (e - least).toNat = k at hexponent ⊢
  rw [hexponent, Nat.shiftLeft_eq, zpow_add₀ (by norm_num), zpow_natCast]
  push_cast
  ring

/-- A number below the midpoint above the greatest double is rounded to a finite one. -/
theorem exponent_pack_normalize_lt {m e : Int} {s : Sign}
    (h : |(m : ℚ)| * 2 ^ e < 2 ^ (1024 : Int) - 2 ^ (970 : Int)) :
    (UnpackedFloat.pack Format.binary64
      (UnpackedFloat.normalize Format.binary64 m e s)).toNat / 2 ^ 52 % 2 ^ 11 < 2047 := by
  have hround {s : Sign} {n : Nat} (hn : n = |m|) (hm : m ≠ 0) :
      (UnpackedFloat.pack Format.binary64
        (UnpackedFloat.round Format.binary64 s n e)).toNat / 2 ^ 52 % 2 ^ 11 < 2047 := by
    refine exponent_pack_round_lt (fun h0 => ?_) ?_
    · rw [h0] at hn
      exact hm (abs_eq_zero.1 hn.symm)
    · have hcast : (n : ℚ) = |(m : ℚ)| := by exact_mod_cast hn
      rwa [hcast]
  unfold UnpackedFloat.normalize
  split
  · next hlt =>
    have hneg : m < 0 := Int.compare_eq_lt.1 hlt
    exact hround (by rw [abs_of_neg hneg]; omega) hneg.ne
  · cases s <;> decide
  · next hgt =>
    have hpos : 0 < m := Int.compare_eq_gt.1 hgt
    exact hround (by rw [abs_of_pos hpos]; omega) hpos.ne'

/-- The greatest double plus one is below the midpoint behind it. -/
theorem mantissa_add_one_lt {m : Nat} {e : Int} (hm : m < 2 ^ 53) (he : e ≤ 971) :
    (m : ℚ) * 2 ^ e + 1 < 2 ^ (1024 : Int) - 2 ^ (970 : Int) := by
  have hmantissa : (m : ℚ) ≤ 2 ^ 53 - 1 := by
    have hle : m + 1 ≤ 2 ^ 53 := hm
    have hle' : (m : ℚ) + 1 ≤ 2 ^ 53 := by exact_mod_cast hle
    linarith
  have hscaled : (m : ℚ) * 2 ^ e ≤ (2 ^ 53 - 1) * 2 ^ (971 : Int) :=
    mul_le_mul hmantissa (zpow_le_zpow_right₀ (by norm_num) he) (zpow_two_pos e).le (by norm_num)
  have htop : (2 : ℚ) ^ (1024 : Int) = 2 ^ 54 * 2 ^ (970 : Int) := by
    rw [← zpow_natCast, ← zpow_add₀ (by norm_num)]
    norm_num
  have hgreatest : (2 : ℚ) ^ (971 : Int) = 2 * 2 ^ (970 : Int) := by
    rw [← zpow_one_add₀ (by norm_num)]
    norm_num
  have hone : (1 : ℚ) < 2 ^ (970 : Int) := one_lt_zpow₀ (by norm_num) (by norm_num)
  rw [hgreatest] at hscaled
  rw [htop]
  generalize (2 : ℚ) ^ (970 : Int) = unit at hscaled hone ⊢
  linarith

/-- The difference of two magnitudes with signs is at most their sum. -/
theorem abs_apply_sub_le (s : Sign) (a b : Nat) :
    |((s.apply a - Sign.positive.apply b : Int) : ℚ)| ≤ a + b := by
  rw [abs_le]
  cases s <;> simp only [Sign.apply] <;> push_cast <;> constructor <;> linarith

/-- One less than a finite double is finite: the difference is below the midpoint behind the
greatest double. -/
theorem isFinite_sub_one {x : Float} (h : x.isFinite = true) : (x - 1).isFinite = true := by
  have hbits : bits (x - 1) = (UnpackedFloat.pack Format.binary64
    ((UnpackedFloat.unpack Format.binary64 x.toBits.toBitVec).sub Format.binary64
      (.finite .positive (2 ^ 52) (-52) (by decide)))).toNat := rfl
  apply isFinite_of_exponent_lt
  rw [hbits]
  rcases unpack_canonical h with ⟨s, hzero⟩ | ⟨s, m, e, hm, hfinite, hcanonical, hexponent⟩
  · rw [hzero]
    cases s <;> decide
  · rw [hfinite]
    refine exponent_pack_normalize_lt ?_
    change |((s.apply (decreaseExponent m e (min e (-52))).1
      - Sign.positive.apply (decreaseExponent (2 ^ 52) (-52) (min e (-52))).1 : Int) : ℚ)|
        * 2 ^ min e (-52) < _
    have hleft : ((decreaseExponent m e (min e (-52))).1 : ℚ) * 2 ^ min e (-52) = m * 2 ^ e :=
      decreaseExponent_value (min_le_left _ _)
    have hright :
        ((decreaseExponent (2 ^ 52) (-52) (min e (-52))).1 : ℚ) * 2 ^ min e (-52) = 1 := by
      rw [decreaseExponent_value (min_le_right _ _)]
      norm_num
    generalize (decreaseExponent m e (min e (-52))).1 = a at hleft ⊢
    generalize (decreaseExponent (2 ^ 52) (-52) (min e (-52))).1 = b at hright ⊢
    calc |((s.apply a - Sign.positive.apply b : Int) : ℚ)| * 2 ^ min e (-52)
        ≤ (a + b) * 2 ^ min e (-52) :=
          mul_le_mul_of_nonneg_right (abs_apply_sub_le s a b) (zpow_two_pos _).le
      _ = m * 2 ^ e + 1 := by rw [add_mul, hleft, hright]
      _ < 2 ^ (1024 : Int) - 2 ^ (970 : Int) := mantissa_add_one_lt hcanonical.lt hexponent

/-- The opposite of a finite double is finite. -/
theorem isFinite_neg {x : Float} (h : x.isFinite = true) : (-x).isFinite = true := by
  have hexponent := exponent_lt h
  have hbits := bits_neg h
  exact isFinite_of_exponent_lt (by omega)

end Double

end SurfaceGeometry
