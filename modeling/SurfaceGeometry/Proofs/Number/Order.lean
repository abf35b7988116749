import SurfaceGeometry.Proofs.Number.Overflow

/-!
# The order of doubles

Doubles are compared by sign and size, then by exponent, then by mantissa. So they are ranked by a
linear order (`Double.rank`), and of two of them one is at most the other just when both have a
value and it does not come later in the ranking (`Double.le_iff`, `Double.lt_iff`). Both zeros have
the same rank.
-/

namespace SurfaceGeometry

namespace Double

open Float.Model Float.Model.UnpackedFloat

/-- The rank of a number: first infinities, signs and zeros, then exponents, then mantissas. -/
def rankOf : UnpackedFloat → Int ×ₗ Int ×ₗ Int
  | .infinity .positive => toLex (2, toLex (0, 0))
  | .finite .positive m e _ => toLex (1, toLex (e, (m : Int)))
  | .zero _ | .notANumber => toLex (0, toLex (0, 0))
  | .finite .negative m e _ => toLex (-1, toLex (-e, -(m : Int)))
  | .infinity .negative => toLex (-2, toLex (0, 0))

/-- Pairs are compared by their first components, and by the second ones where these are equal. -/
theorem compare_toLex {α β : Type} [LinearOrder α] [LinearOrder β] (a a' : α) (b b' : β) :
    compare (toLex (a, b)) (toLex (a', b')) = (compare a a').then (compare b b') := rfl

/-- Natural numbers are compared as whole ones. -/
theorem compare_cast (m n : Nat) : compare (m : Int) n = compare m n := by
  rw [← cmp_eq_compare, ← cmp_eq_compare, Nat.strictMono_cast.cmp_map_eq]

/-- Opposite numbers are compared the other way round. -/
theorem compare_neg (a b : Int) : compare (-a) (-b) = (compare a b).swap := by
  rw [← cmp_eq_compare, ← cmp_eq_compare, cmp_swap, StrictAnti.cmp_map_eq fun _ _ => Int.neg_lt_neg]

/-- Numbers are compared by their ranks, unless one of them has no value. -/
theorem compare_eq (a b : UnpackedFloat) : a.compare b =
    if a.isNaN = false ∧ b.isNaN = false then some (compare (rankOf a) (rankOf b)) else none := by
  cases a with
  | notANumber => rfl
  | infinity s | zero s =>
    cases b with
    | notANumber => cases s <;> rfl
    | infinity s' | zero s' | finite s' => cases s <;> cases s' <;> rfl
  | finite s m e =>
    cases b with
    | notANumber => cases s <;> rfl
    | infinity s' | zero s' => cases s <;> cases s' <;> rfl
    | finite s' m' e' =>
      rw [if_pos ⟨rfl, rfl⟩]
      cases s <;> cases s'
      case positive.positive =>
        rw [rankOf, rankOf, compare_toLex, compare_toLex, compare_cast]
        rfl
      case negative.negative =>
        rw [rankOf, rankOf, compare_toLex, compare_toLex, compare_neg e, compare_neg m,
          compare_cast, ← Ordering.swap_then]
        rfl
      all_goals rfl

/-- Of two unpacked numbers one is at most the other if both have a value and it does not come later
in the ranking. -/
theorem le_iff_rankOf {a b : UnpackedFloat} :
    a.le b = true ↔ a.isNaN = false ∧ b.isNaN = false ∧ rankOf a ≤ rankOf b := by
  rw [UnpackedFloat.le, compare_eq, ← and_assoc]
  split
  · next h => simp [h, Ordering.isLE_iff_ne_gt, compare_gt_iff_gt]
  · next h => simp [h]

/-- Of two unpacked numbers one is less than the other if both have a value and it comes earlier in
the ranking. -/
theorem lt_iff_rankOf {a b : UnpackedFloat} :
    a.lt b = true ↔ a.isNaN = false ∧ b.isNaN = false ∧ rankOf a < rankOf b := by
  rw [UnpackedFloat.lt, compare_eq, ← and_assoc]
  split
  · next h => simp [h, compare_lt_iff_lt]
  · next h => simp [h]

/-! ## Doubles -/

/-- The rank of a double. -/
def rank (x : Float) : Int ×ₗ Int ×ₗ Int :=
  rankOf (UnpackedFloat.unpack Format.binary64 x.toBits.toBitVec)

variable {x y : Float}

/-- Of two doubles one is at most the other if both have a value and it does not come later in the
ranking. -/
theorem le_iff : x ≤ y ↔ x.isNaN = false ∧ y.isNaN = false ∧ rank x ≤ rank y := by
  show decide (UnpackedFloat.le _ _ = true) = true ↔ _
  rw [decide_eq_true_eq]
  exact le_iff_rankOf

/-- Of two doubles one is less than the other if both have a value and it comes earlier in the
ranking. -/
theorem lt_iff : x < y ↔ x.isNaN = false ∧ y.isNaN = false ∧ rank x < rank y := by
  show decide (UnpackedFloat.lt _ _ = true) = true ↔ _
  rw [decide_eq_true_eq]
  exact lt_iff_rankOf

/-! ## Values -/

/-- A finite double has a value. -/
theorem isNaN_of_isFinite (h : x.isFinite = true) : x.isNaN = false := by
  change (UnpackedFloat.unpack Format.binary64 x.toBits.toBitVec).isFinite = true at h
  show (UnpackedFloat.unpack Format.binary64 x.toBits.toBitVec).isNaN = false
  generalize UnpackedFloat.unpack Format.binary64 x.toBits.toBitVec = u at h ⊢
  cases u with
  | notANumber => cases h
  | infinity | zero | finite => rfl

/-- A double with a value that is not finite is one of the infinities. -/
theorem exists_unpack_infinity (h : x.isNaN = false) (hinfinite : x.isFinite = false) :
    ∃ s, UnpackedFloat.unpack Format.binary64 x.toBits.toBitVec = .infinity s := by
  change (UnpackedFloat.unpack Format.binary64 x.toBits.toBitVec).isNaN = false at h
  change (UnpackedFloat.unpack Format.binary64 x.toBits.toBitVec).isFinite = false at hinfinite
  generalize UnpackedFloat.unpack Format.binary64 x.toBits.toBitVec = u at h hinfinite ⊢
  cases u with
  | notANumber => cases h
  | infinity s => exact ⟨s, rfl⟩
  | zero | finite => cases hinfinite

/-- The opposite of a double with a value has one. -/
theorem isNaN_neg (h : x.isNaN = false) : (-x).isNaN = false := by
  cases hfinite : x.isFinite with
  | true => exact isNaN_of_isFinite (isFinite_neg hfinite)
  | false =>
    obtain ⟨s, hs⟩ := exists_unpack_infinity h hfinite
    show (UnpackedFloat.unpack Format.binary64 (UnpackedFloat.pack Format.binary64
      (UnpackedFloat.unpack Format.binary64 x.toBits.toBitVec).neg)).isNaN = false
    rw [hs]
    cases s <;> decide

/-- The subtraction of one from a double with a value gives one: no two infinities meet. -/
theorem isNaN_sub_one (h : x.isNaN = false) : (x - 1).isNaN = false := by
  cases hfinite : x.isFinite with
  | true => exact isNaN_of_isFinite (isFinite_sub_one hfinite)
  | false =>
    obtain ⟨s, hs⟩ := exists_unpack_infinity h hfinite
    have hbits : (x - 1).toBits.toBitVec = UnpackedFloat.pack Format.binary64
        ((UnpackedFloat.unpack Format.binary64 x.toBits.toBitVec).sub Format.binary64
          (.finite .positive (2 ^ 52) (-52) (by decide))) := rfl
    show (UnpackedFloat.unpack Format.binary64 (x - 1).toBits.toBitVec).isNaN = false
    rw [hbits, hs]
    cases s <;> decide

/-- A double with a value is equal to itself. -/
theorem beq_self (h : x.isNaN = false) : (x == x) = true := by
  change (UnpackedFloat.unpack Format.binary64 x.toBits.toBitVec).isNaN = false at h
  show (UnpackedFloat.unpack Format.binary64 x.toBits.toBitVec).beq
    (UnpackedFloat.unpack Format.binary64 x.toBits.toBitVec) = true
  rw [UnpackedFloat.beq, compare_eq, if_pos ⟨h, h⟩, compare_eq_iff_eq.2 rfl]
  rfl
end Double

end SurfaceGeometry
