import SurfaceGeometry.Proofs.Exact.Arithmetic
import SurfaceGeometry.Proofs.Number.Difference

/-!
# Ordered scalars

What the order of doubles and that of exact arithmetic have in common: two numbers can be compared
if they have a value, and a finite number that is less than another one does not differ from it by
zero.
-/

namespace SurfaceGeometry

/-- The numbers with a value are ordered, and the difference of two finite ones that are not equal
is not zero. -/
class Scalar.Ordered (α : Type) [Scalar α] : Prop where
  isNaN_of_le {a b : α} : a ≤ b → Scalar.isNaN a = false ∧ Scalar.isNaN b = false
  le_trans {a b c : α} : a ≤ b → b ≤ c → a ≤ c
  le_total {a b : α} : Scalar.isNaN a = false → Scalar.isNaN b = false → a ≤ b ∨ b ≤ a
  lt_iff {a b : α} : a < b ↔ a ≤ b ∧ ¬b ≤ a
  isNaN_of_isFinite {a : α} : Scalar.isFinite a = true → Scalar.isNaN a = false
  sub_beq_zero {a b : α} : Scalar.isFinite a = true → Scalar.isFinite b = true → a < b →
    (b - a == 0) = false

instance : Scalar.Ordered Float where
  isNaN_of_le h := ⟨(Double.le_iff.1 h).1, (Double.le_iff.1 h).2.1⟩
  le_trans hab hbc :=
    have ⟨ha, _, hab⟩ := Double.le_iff.1 hab
    have ⟨_, hc, hbc⟩ := Double.le_iff.1 hbc
    Double.le_iff.2 ⟨ha, hc, hab.trans hbc⟩
  le_total ha hb := (le_total _ _).imp
    (fun h => Double.le_iff.2 ⟨ha, hb, h⟩) (fun h => Double.le_iff.2 ⟨hb, ha, h⟩)
  lt_iff {a b} := by
    rw [Double.lt_iff, Double.le_iff, Double.le_iff, lt_iff_le_not_ge]
    tauto
  isNaN_of_isFinite := Double.isNaN_of_isFinite
  sub_beq_zero := Double.sub_beq_zero

instance (K : Type) [Field K] [LinearOrder K] [ElementaryFunctions K] : Scalar.Ordered K where
  isNaN_of_le _ := ⟨rfl, rfl⟩
  le_trans := le_trans
  le_total _ _ := le_total _ _
  lt_iff := lt_iff_le_not_ge
  isNaN_of_isFinite _ := rfl
  sub_beq_zero _ _ h := decide_eq_false fun heq =>
    h.ne' (sub_eq_zero.1 (heq.trans Exact.zero_eq))

namespace Scalar

variable {α : Type} [Scalar α] [Ordered α] {a b c : α}

/-- A number with a value is at most itself. -/
theorem le_self (ha : isNaN a = false) : a ≤ a :=
  (Ordered.le_total ha ha).elim id id

/-- What is less is at most as large. -/
theorem le_of_lt (h : a < b) : a ≤ b :=
  (Ordered.lt_iff.1 h).1

/-- What is less is not at least as large. -/
theorem not_le_of_gt (h : a < b) : ¬b ≤ a :=
  (Ordered.lt_iff.1 h).2

/-- Numbers with values can be compared. -/
theorem lt_of_not_ge (ha : isNaN a = false) (hb : isNaN b = false) (h : ¬b ≤ a) : a < b :=
  Ordered.lt_iff.2 ⟨(Ordered.le_total ha hb).resolve_right h, h⟩

/-- What is less than something that is at most a third is less than the third. -/
theorem lt_of_lt_of_le (hab : a < b) (hbc : b ≤ c) : a < c :=
  Ordered.lt_iff.2 ⟨Ordered.le_trans (le_of_lt hab) hbc,
    fun hca => not_le_of_gt hab (Ordered.le_trans hbc hca)⟩

end Scalar

end SurfaceGeometry
