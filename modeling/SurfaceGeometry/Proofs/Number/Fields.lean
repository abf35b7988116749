import Mathlib
import SurfaceGeometry.Scalar.Double

/-!
# The fields of a double

The bits of a double are a sign, an exponent and a mantissa. A finite double is read as a sign and a
magnitude, and its magnitude with either sign is written back to the bits with that sign
(`Double.unpack_finite`). The comparison with zero and the change of the sign are settled by this
alone.
-/

namespace SurfaceGeometry

namespace Double

open Float.Model Float.Model.UnpackedFloat

/-- The mantissa is in the lowest 52 bits. -/
theorem toNat_unpackMantissa (b : BitVec Format.binary64.numBits) :
    (unpackMantissa b).toNat = b.toNat % 2 ^ 52 := by
  simp [unpackMantissa]

/-- The exponent is in the eleven bits above the mantissa. -/
theorem toNat_unpackExponent (b : BitVec Format.binary64.numBits) :
    (unpackExponent b).toNat = b.toNat / 2 ^ 52 % 2 ^ 11 := by
  simp [unpackExponent, Nat.shiftRight_eq_div_pow]

/-- The sign is the highest bit. -/
theorem toNat_unpackSign (b : BitVec Format.binary64.numBits) :
    (unpackSign b).toNat = b.toNat / 2 ^ 63 % 2 := by
  simp [unpackSign, Nat.shiftRight_eq_div_pow]

/-- The bits of a double from its three fields. -/
theorem toNat_packComponents (s : Sign) (e : BitVec 11) (m : BitVec 52) :
    (packComponents Format.binary64 s e m).toNat =
      (s.toBitVec.toNat * 2 ^ 11 + e.toNat) * 2 ^ 52 + m.toNat := by
  have he := e.isLt
  have hm := m.isLt
  show (s.toBitVec ++ e ++ m).toNat = _
  rw [BitVec.toNat_append, ← Nat.shiftLeft_add_eq_or_of_lt hm, BitVec.toNat_append,
    ← Nat.shiftLeft_add_eq_or_of_lt he, Nat.shiftLeft_eq, Nat.shiftLeft_eq]

/-- A sign is written back to the bit that it was read from. -/
theorem toBitVec_ofBitVec (b : BitVec 1) : (Sign.ofBitVec b).toBitVec = b := by
  revert b
  decide

/-- The three fields, put together again, are the bits. -/
theorem packComponents_fields (b : BitVec Format.binary64.numBits) :
    packComponents Format.binary64 (.ofBitVec (unpackSign b)) (unpackExponent b)
      (unpackMantissa b) = b := by
  have hb : b.toNat < 2 ^ 64 := b.isLt
  apply BitVec.eq_of_toNat_eq
  rw [toNat_packComponents, toBitVec_ofBitVec, toNat_unpackExponent, toNat_unpackMantissa,
    toNat_unpackSign]
  omega

/-- A number without its sign: zero, or a mantissa and an exponent. -/
inductive Magnitude : (Sign → UnpackedFloat) → Prop where
  | zero : Magnitude .zero
  | finite (mantissa : Nat) (exponent : Int) (pos : 0 < mantissa) :
      Magnitude (.finite · mantissa exponent pos)

/-- A mantissa below the implicit bit is written with the least exponent. -/
theorem pack_subnormal {m : BitVec 52} (hm : 0 < m.toNat) (s : Sign) :
    UnpackedFloat.pack Format.binary64 (.finite s m.toNat (-1074) hm) =
      packComponents Format.binary64 s 0#11 m := by
  have hlog : ¬m.toNat.log2 + 1 = 53 := by
    have hlt := (Nat.log2_lt (Nat.ne_of_gt hm)).2 m.isLt
    omega
  show (if 2 ^ 11 ≤ 1 + 1 then packedInfinity Format.binary64 s
    else if m.toNat.log2 + 1 = 53 then
      packComponents Format.binary64 s (BitVec.ofNat 11 1) (BitVec.ofNat 52 m.toNat)
    else packComponents Format.binary64 s 0#11 (BitVec.ofNat 52 m.toNat)) = _
  rw [if_neg (by decide), if_neg hlog, BitVec.ofNat_toNat, BitVec.setWidth_eq]

/-- The implicit bit stands above the 52 bits of the mantissa. -/
theorem toNat_one_append (m : BitVec 52) : (1#1 ++ m).toNat = 2 ^ 52 + m.toNat := by
  rw [BitVec.toNat_append, ← Nat.shiftLeft_add_eq_or_of_lt m.isLt, Nat.shiftLeft_eq]
  rfl

/-- A mantissa with the implicit bit is written without it. -/
theorem pack_normal {e : BitVec 11} {m : BitVec 52} (hpos : 0 < (1#1 ++ m).toNat)
    (he : e.toNat < 2047) (s : Sign) :
    UnpackedFloat.pack Format.binary64 (.finite s (1#1 ++ m).toNat (e.toNat - 1075) hpos) =
      packComponents Format.binary64 s e m := by
  have hone := toNat_one_append m
  have hm := m.isLt
  have hlog : (1#1 ++ m).toNat.log2 + 1 = 53 := by
    rw [hone]
    have hle : 52 ≤ (2 ^ 52 + m.toNat).log2 := (Nat.le_log2 (by omega)).2 (by omega)
    have hlt : (2 ^ 52 + m.toNat).log2 < 53 := (Nat.log2_lt (by omega)).2 (by omega)
    omega
  have hbiased : ((e.toNat : Int) - 1075 + (1023 : Nat) + (52 : Nat)).toNat = e.toNat := by omega
  show (if 2 ^ 11 ≤ ((e.toNat : Int) - 1075 + (1023 : Nat) + (52 : Nat)).toNat + 1 then
      packedInfinity Format.binary64 s
    else if (1#1 ++ m).toNat.log2 + 1 = 53 then
      packComponents Format.binary64 s
        (BitVec.ofNat 11 ((e.toNat : Int) - 1075 + (1023 : Nat) + (52 : Nat)).toNat)
        (BitVec.ofNat 52 (1#1 ++ m).toNat)
    else packComponents Format.binary64 s 0#11 (BitVec.ofNat 52 (1#1 ++ m).toNat)) = _
  rw [hbiased, if_neg (by omega), if_pos hlog, BitVec.ofNat_toNat, BitVec.setWidth_eq]
  congr 1
  apply BitVec.eq_of_toNat_eq
  rw [BitVec.toNat_ofNat, hone]
  omega

/-- Finite bits are a sign and a magnitude, which is zero if all other bits are; another sign with
the magnitude is written as the bits with that sign. -/
theorem unpack_finite {b : BitVec Format.binary64.numBits}
    (h : b.toNat / 2 ^ 52 % 2 ^ 11 < 2047) :
    ∃ u, Magnitude u ∧
      UnpackedFloat.unpack Format.binary64 b = u (.ofBitVec (unpackSign b)) ∧
      (u = .zero ↔ b.toNat % 2 ^ 63 = 0) ∧
      ∀ s, UnpackedFloat.pack Format.binary64 (u s) =
        packComponents Format.binary64 s (unpackExponent b) (unpackMantissa b) := by
  have hexponent := toNat_unpackExponent b
  have hmantissa := toNat_unpackMantissa b
  have hne : unpackExponent b ≠ -1#_ := by
    intro hones
    have hvalue := congrArg BitVec.toNat hones
    rw [hexponent] at hvalue
    exact Nat.ne_of_lt h hvalue
  unfold UnpackedFloat.unpack
  simp only [hne, if_false]
  split
  -- The exponent zero is that of zero itself and of the subnormal numbers.
  · next hzero =>
    have hzero' : b.toNat / 2 ^ 52 % 2 ^ 11 = 0 :=
      hexponent.symm.trans (congrArg BitVec.toNat hzero)
    split
    · next hm =>
      have hm' : b.toNat % 2 ^ 52 = 0 := hmantissa.symm.trans (congrArg BitVec.toNat hm)
      refine ⟨_, .zero, rfl, ⟨fun _ => by omega, fun _ => rfl⟩, fun s => ?_⟩
      rw [hzero, hm]
      rfl
    · next hm =>
      have hpos : 0 < (unpackMantissa b).toNat :=
        Nat.pos_of_ne_zero fun h0 => hm (BitVec.eq_of_toNat_eq h0)
      refine ⟨_, .finite _ (-1074) hpos, ?_, ⟨fun h => ?_, fun h => by omega⟩, fun s => ?_⟩
      · rw [hzero]
        rfl
      · cases congrFun h .positive
      · rw [hzero]
        exact pack_subnormal hpos s
  · next hzero =>
    have hzero' : b.toNat / 2 ^ 52 % 2 ^ 11 ≠ 0 := fun h0 =>
      hzero (BitVec.eq_of_toNat_eq (hexponent.trans h0))
    have hpos : 0 < (1#1 ++ unpackMantissa b).toNat := by
      have hone := toNat_one_append (unpackMantissa b)
      omega
    refine ⟨_, .finite _ _ hpos, rfl, ⟨fun h => ?_, fun h => by omega⟩, fun s => ?_⟩
    · cases congrFun h .positive
    · exact pack_normal hpos (by omega) s

/-! ## Doubles -/

/-- The bits of a double as a number. -/
def bits (x : Float) : Nat := x.toBits.toNat

/-- A double has 64 bits. -/
theorem bits_lt (x : Float) : bits x < 2 ^ 64 := x.toBits.toBitVec.isLt

/-- A double is known by its bits. -/
theorem eq_of_bits {x y : Float} (h : bits x = bits y) : x = y := by
  obtain ⟨⟨a, _⟩⟩ := x
  obtain ⟨⟨b, _⟩⟩ := y
  obtain rfl : a = b := UInt64.toNat_inj.1 h
  rfl

variable {x : Float}

/-- Bits with all ones in the exponent are those of no finite number. -/
theorem exponent_lt (h : x.isFinite = true) : bits x / 2 ^ 52 % 2 ^ 11 < 2047 := by
  have hexponent := toNat_unpackExponent x.toBits.toBitVec
  rcases Nat.lt_or_ge (bits x / 2 ^ 52 % 2 ^ 11) 2047 with hlt | hge
  · exact hlt
  · exfalso
    have hones : @unpackExponent Format.binary64 x.toBits.toBitVec = -1#_ := by
      apply BitVec.eq_of_toNat_eq
      rw [hexponent]
      show bits x / 2 ^ 52 % 2 ^ 11 = 2047
      omega
    have hunpack : (UnpackedFloat.unpack Format.binary64 x.toBits.toBitVec).isFinite = true := h
    unfold UnpackedFloat.unpack at hunpack
    simp only [hones, if_true] at hunpack
    split at hunpack <;> cases hunpack

/-- An exponent that is not all ones is that of a finite double. -/
theorem isFinite_of_exponent_lt (h : bits x / 2 ^ 52 % 2 ^ 11 < 2047) : x.isFinite = true := by
  obtain ⟨u, hu, hunpack, -, -⟩ := @unpack_finite x.toBits.toBitVec h
  show (UnpackedFloat.unpack Format.binary64 x.toBits.toBitVec).isFinite = true
  rw [hunpack]
  cases hu <;> rfl

/-- A finite double is what its bits are read as. -/
theorem bits_ofBits {b : UInt64} (h : b.toNat / 2 ^ 52 % 2 ^ 11 < 2047) :
    bits (Float.ofBits b) = b.toNat := by
  obtain ⟨u, -, hunpack, -, hpack⟩ := @unpack_finite b.toBitVec h
  show (UnpackedFloat.pack Format.binary64
    (UnpackedFloat.unpack Format.binary64 b.toBitVec)).toNat = b.toNat
  rw [hunpack, hpack, packComponents_fields]
  rfl

/-- The change of a sign changes its bit. -/
theorem toNat_toBitVec_neg (b : BitVec 1) : (-Sign.ofBitVec b).toBitVec.toNat = 1 - b.toNat := by
  revert b
  decide

/-- The change of the sign changes the first bit. -/
theorem bits_neg (h : x.isFinite = true) :
    bits (-x) = (1 - bits x / 2 ^ 63) * 2 ^ 63 + bits x % 2 ^ 63 := by
  obtain ⟨u, hu, hunpack, -, hpack⟩ := @unpack_finite x.toBits.toBitVec (exponent_lt h)
  have hneg : bits (-x) = (UnpackedFloat.pack Format.binary64
    (UnpackedFloat.unpack Format.binary64 x.toBits.toBitVec).neg).toNat := rfl
  have hsign : ∀ s, (u s).neg = u (-s) := by
    intro s
    cases hu <;> rfl
  have hbits : x.toBits.toBitVec.toNat = bits x := rfl
  have hlt := bits_lt x
  rw [hneg, hunpack, hsign, hpack, toNat_packComponents, toNat_toBitVec_neg, toNat_unpackSign,
    toNat_unpackExponent, toNat_unpackMantissa, hbits]
  omega

/-- A finite double is negative if its first bit is set and another one is. -/
theorem lt_zero_iff (h : x.isFinite = true) : x < 0 ↔ 2 ^ 63 < bits x := by
  obtain ⟨u, hu, hunpack, hzero, -⟩ := @unpack_finite x.toBits.toBitVec (exponent_lt h)
  have hlt := bits_lt x
  have hsign : (Sign.ofBitVec (@unpackSign Format.binary64 x.toBits.toBitVec)).toBitVec.toNat =
      bits x / 2 ^ 63 % 2 := by
    rw [toBitVec_ofBitVec]
    exact toNat_unpackSign x.toBits.toBitVec
  have hcompare : x < 0 ↔ (u (.ofBitVec (@unpackSign Format.binary64 x.toBits.toBitVec))).lt
      (.zero .positive) = true := by
    rw [← hunpack]
    show decide ((UnpackedFloat.unpack Format.binary64 x.toBits.toBitVec).lt _ = true) = true ↔ _
    rw [decide_eq_true_eq]
    exact Iff.rfl
  have hbits : x.toBits.toBitVec.toNat = bits x := rfl
  rw [hbits] at hzero
  rw [hcompare]
  generalize Sign.ofBitVec (@unpackSign Format.binary64 x.toBits.toBitVec) = s at hsign
  cases s with
  | positive =>
    have hbit : 0 = bits x / 2 ^ 63 % 2 := hsign
    have hfalse : (u .positive).lt (.zero .positive) = false := by cases hu <;> rfl
    rw [hfalse]
    constructor
    · intro h
      cases h
    · intro h
      omega
  | negative =>
    have hbit : 1 = bits x / 2 ^ 63 % 2 := hsign
    -- The negative zero has its first bit set, but no other one, and is not less than zero.
    cases hu with
    | zero =>
      have hrest := hzero.1 rfl
      constructor
      · intro h
        cases h
      · intro h
        omega
    | finite mantissa exponent pos =>
      have hrest : bits x % 2 ^ 63 ≠ 0 := fun h => by cases congrFun (hzero.2 h) .positive
      exact ⟨fun _ => by omega, fun _ => rfl⟩

end Double

end SurfaceGeometry
