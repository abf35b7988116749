import SurfaceGeometry.Proofs.Exact.Evaluation
import SurfaceGeometry.Proofs.Exact.Real
import SurfaceGeometry.Proofs.Symbolic.Rules

/-!
# Simplification keeps the value

In exact arithmetic every rule of simplification leads from a tree with a value to one with the same
value (`Expr.Rewrite.hasValue`): it takes parts away or puts others together, and makes no quotient,
no power and no call that was not there. That is a congruence (`Expr.congruence_hasValue`), so it
holds of the passes over a whole tree (`Expr.simplify_hasValue`).
-/

namespace SurfaceGeometry

variable {K : Type} [Field K] [LinearOrder K] [ElementaryFunctions K]

/-! ## Equal numbers and trees -/

namespace Exact

/-- In exact arithmetic numbers that compare equal are equal. -/
theorem eq_of_beq {a b : K} (h : (a == b) = true) : a = b :=
  of_decide_eq_true h

/-- What compares equal to the zero of a rule is zero. -/
theorem eq_zero_of_beq {a : K} (h : (a == @OfNat.ofNat K 0 (Scalar.instOfNat 0)) = true) :
    a = 0 :=
  (eq_of_beq h).trans Nat.cast_zero

/-- What compares equal to the one of a rule is one. -/
theorem eq_one_of_beq {a : K} (h : (a == @OfNat.ofNat K 1 (Scalar.instOfNat 1)) = true) :
    a = 1 :=
  (eq_of_beq h).trans Nat.cast_one

/-- What compares equal to the minus one of a rule is minus one. -/
theorem eq_minus_one_of_beq {a : K}
    (h : (a == -@OfNat.ofNat K 1 (Scalar.instOfNat 1)) = true) : a = -1 :=
  (eq_of_beq h).trans (congrArg Neg.neg Nat.cast_one)

end Exact

namespace Expr

/-- Lists of trees that compare equal are equal, if their members are when they compare equal. -/
theorem eq_of_allSameAs {args args' : List (Expr K)}
    (hargs : ∀ arg ∈ args, ∀ arg', (arg == arg') = true → arg = arg')
    (h : allSameAs args args' = true) : args = args' := by
  induction args generalizing args' with
  | nil =>
    cases args' with
    | nil => rfl
    | cons => cases h
  | cons arg args ih =>
    cases args' with
    | nil => cases h
    | cons arg' args' =>
      obtain ⟨harg, hrest⟩ := Bool.and_eq_true_iff.1 h
      rw [hargs arg (List.mem_cons_self ..) arg' harg,
        ih (fun arg hmem => hargs arg (List.mem_cons_of_mem _ hmem)) hrest]

/-- In exact arithmetic trees that compare as equal are the same tree. -/
theorem eq_of_beq {e e' : Expr K} (h : (e == e') = true) : e = e' := by
  induction e generalizing e' with
  | const a =>
    cases e' with
    | const b => rw [Exact.eq_of_beq h]
    | symbol | unary | binary | call => cases h
  | symbol name =>
    cases e' with
    | symbol other => rw [LawfulBEq.eq_of_beq (show (name == other) = true from h)]
    | const | unary | binary | call => cases h
  | unary op operand ih =>
    cases e' with
    | unary op' operand' =>
      obtain ⟨hop, hoperand⟩ := Bool.and_eq_true_iff.1 h
      rw [LawfulBEq.eq_of_beq hop, ih hoperand]
    | const | symbol | binary | call => cases h
  | binary op left right ihl ihr =>
    cases e' with
    | binary op' left' right' =>
      obtain ⟨h, hright⟩ := Bool.and_eq_true_iff.1 h
      obtain ⟨hop, hleft⟩ := Bool.and_eq_true_iff.1 h
      rw [LawfulBEq.eq_of_beq hop, ihl hleft, ihr hright]
    | const | symbol | unary | call => cases h
  | call name args ih =>
    cases e' with
    | call name' args' =>
      obtain ⟨hname, hargs⟩ := Bool.and_eq_true_iff.1 h
      rw [LawfulBEq.eq_of_beq hname, eq_of_allSameAs (fun arg hmem _ => ih arg hmem) hargs]
    | const | symbol | unary | binary => cases h

/-! ## Rules -/

variable {D : Definedness K} {lookup : String → Option K}

/-- A rule leads from a tree with a value to one with the same value. Of powers that are not whole
it has to be known that those of one are one. -/
theorem Rewrite.hasValue (hone : ∀ b : K, D.pow 1 b → Scalar.pow 1 b = 1) {e e' : Expr K}
    (h : Rewrite e e') {v : K} (hv : e.HasValue D lookup v) : e'.HasValue D lookup v := by
  -- The induction is for the rule that moves a constant to the left, where another rule follows.
  induction h generalizing v with
  | same => exact hv
  | negConst =>
    obtain ⟨a, ha, rfl⟩ := hv.of_neg
    rw [ha.of_const]
    exact .const
  | negNeg =>
    obtain ⟨a, ha, rfl⟩ := hv.of_neg
    obtain ⟨b, hb, rfl⟩ := ha.of_neg
    exact hb.of_eq (neg_neg b)
  | @notConst c =>
    obtain ⟨a, ha, rfl⟩ := hv.of_unary
    rw [ha.of_const]
    refine HasValue.const.of_eq ?_
    simp only [UnaryOp.apply, Scalar.ofBool, Scalar.truthy, bne, Bool.not_not]
  | foldBinary =>
    obtain ⟨a, b, ha, hb, -, rfl⟩ := hv.of_binary
    rw [ha.of_const, hb.of_const]
    exact .const
  | foldCall function =>
    obtain ⟨f, a, hf, ha, -, rfl⟩ := hv.of_call
    rw [function] at hf
    cases hf
    rw [ha.of_const]
    exact .const
  | foldCall₂ function =>
    obtain ⟨f, a, b, hf, ha, hb, -, rfl⟩ := hv.of_call₂
    rw [function] at hf
    cases hf
    rw [ha.of_const, hb.of_const]
    exact .const
  | zeroAdd zero =>
    obtain ⟨a, b, ha, hb, rfl⟩ := hv.of_add
    rw [ha.of_const, Exact.eq_zero_of_beq zero, zero_add]
    exact hb
  | addZero zero =>
    obtain ⟨a, b, ha, hb, rfl⟩ := hv.of_add
    rw [hb.of_const, Exact.eq_zero_of_beq zero, add_zero]
    exact ha
  | addNeg =>
    obtain ⟨a, b, ha, hb, rfl⟩ := hv.of_add
    obtain ⟨c, hc, rfl⟩ := hb.of_neg
    exact (ha.sub hc).of_eq (sub_eq_add_neg a c).symm
  | negAdd =>
    obtain ⟨a, b, ha, hb, rfl⟩ := hv.of_add
    obtain ⟨c, hc, rfl⟩ := ha.of_neg
    exact (hb.sub hc).of_eq (neg_add_eq_sub c b)
  | subZero zero =>
    obtain ⟨a, b, ha, hb, rfl⟩ := hv.of_sub
    rw [hb.of_const, Exact.eq_zero_of_beq zero, sub_zero]
    exact ha
  | zeroSub zero =>
    obtain ⟨a, b, ha, hb, rfl⟩ := hv.of_sub
    rw [ha.of_const, Exact.eq_zero_of_beq zero, zero_sub]
    exact hb.neg
  | subNeg =>
    obtain ⟨a, b, ha, hb, rfl⟩ := hv.of_sub
    obtain ⟨c, hc, rfl⟩ := hb.of_neg
    exact (ha.add hc).of_eq (sub_neg_eq_add a c)
  | subSelf equal =>
    obtain ⟨a, b, ha, hb, rfl⟩ := hv.of_sub
    rw [eq_of_beq equal] at ha
    rw [ha.unique hb, sub_self, ← Nat.cast_zero]
    exact .ofNat 0
  | zeroMul zero =>
    obtain ⟨a, b, ha, hb, rfl⟩ := hv.of_mul
    rw [ha.of_const, Exact.eq_zero_of_beq zero, zero_mul, ← Nat.cast_zero]
    exact .ofNat 0
  | mulZero zero =>
    obtain ⟨a, b, ha, hb, rfl⟩ := hv.of_mul
    rw [hb.of_const, Exact.eq_zero_of_beq zero, mul_zero, ← Nat.cast_zero]
    exact .ofNat 0
  | oneMul one =>
    obtain ⟨a, b, ha, hb, rfl⟩ := hv.of_mul
    rw [ha.of_const, Exact.eq_one_of_beq one, one_mul]
    exact hb
  | mulOne one =>
    obtain ⟨a, b, ha, hb, rfl⟩ := hv.of_mul
    rw [hb.of_const, Exact.eq_one_of_beq one, mul_one]
    exact ha
  | minusOneMul minusOne =>
    obtain ⟨a, b, ha, hb, rfl⟩ := hv.of_mul
    rw [ha.of_const, Exact.eq_minus_one_of_beq minusOne, neg_one_mul]
    exact hb.neg
  | mulMinusOne minusOne =>
    obtain ⟨a, b, ha, hb, rfl⟩ := hv.of_mul
    rw [hb.of_const, Exact.eq_minus_one_of_beq minusOne, mul_neg_one]
    exact ha.neg
  | mulConst _ ih =>
    obtain ⟨a, b, ha, hb, rfl⟩ := hv.of_mul
    exact ih ((hb.mul ha).of_eq (mul_comm a b))
  | mergeConst =>
    obtain ⟨a, b, ha, hb, rfl⟩ := hv.of_mul
    obtain ⟨c, d, hc, hd, rfl⟩ := hb.of_mul
    rw [ha.of_const, hc.of_const, ← mul_assoc]
    exact HasValue.const.mul hd
  | negMulNeg =>
    obtain ⟨a, b, ha, hb, rfl⟩ := hv.of_mul
    obtain ⟨c, hc, rfl⟩ := ha.of_neg
    obtain ⟨d, hd, rfl⟩ := hb.of_neg
    exact (hc.mul hd).of_eq (neg_mul_neg c d)
  | negMul =>
    obtain ⟨a, b, ha, hb, rfl⟩ := hv.of_mul
    obtain ⟨c, hc, rfl⟩ := ha.of_neg
    exact (hc.mul hb).neg.of_eq (neg_mul c b)
  | mulNeg =>
    obtain ⟨a, b, ha, hb, rfl⟩ := hv.of_mul
    obtain ⟨c, hc, rfl⟩ := hb.of_neg
    exact (ha.mul hc).neg.of_eq (mul_neg a c)
  | zeroDiv zero =>
    obtain ⟨a, b, ha, hb, -, rfl⟩ := hv.of_div
    rw [ha.of_const, Exact.eq_zero_of_beq zero, zero_div, ← Nat.cast_zero]
    exact .ofNat 0
  | divOne one =>
    obtain ⟨a, b, ha, hb, -, rfl⟩ := hv.of_div
    rw [hb.of_const, Exact.eq_one_of_beq one, div_one]
    exact ha
  | negDiv =>
    obtain ⟨a, b, ha, hb, hne, rfl⟩ := hv.of_div
    obtain ⟨c, hc, rfl⟩ := ha.of_neg
    exact (hc.div hb hne).neg.of_eq (neg_div b c)
  | powZero zero =>
    obtain ⟨a, b, ha, hb, -, rfl⟩ := hv.of_pow
    rw [hb.of_const, Exact.eq_zero_of_beq zero, ← Nat.cast_zero, Exact.pow_natCast, pow_zero,
      ← Nat.cast_one]
    exact .ofNat 1
  | powOne one =>
    obtain ⟨a, b, ha, hb, -, rfl⟩ := hv.of_pow
    rw [hb.of_const, Exact.eq_one_of_beq one, ← Nat.cast_one, Exact.pow_natCast, pow_one]
    exact ha
  | onePow one =>
    obtain ⟨a, b, ha, hb, hdefined, rfl⟩ := hv.of_pow
    rw [ha.of_const, Exact.eq_one_of_beq one] at hdefined ⊢
    rw [hone b hdefined, ← Nat.cast_one]
    exact .ofNat 1

/-! ## Whole trees -/

/-- To have all values of another tree is concluded part by part. -/
theorem congruence_hasValue (D : Definedness K) (lookup : String → Option K) :
    Congruence fun e e' : Expr K => ∀ v, e.HasValue D lookup v → e'.HasValue D lookup v where
  refl e v hv := hv
  trans h h' v hv := h' v (h v hv)
  unary op e e' h v hv := by
    obtain ⟨a, ha, rfl⟩ := hv.of_unary
    exact .unary (h a ha)
  binary op l l' r r' hl hr v hv := by
    obtain ⟨a, b, ha, hb, hdefined, rfl⟩ := hv.of_binary
    exact .binary (hl a ha) (hr b hb) hdefined
  call name args f h v hv := by
    cases hv with
    | call hf harg hdefined => exact .call hf (h _ (by simp) _ harg) hdefined
    | call₂ hf hfirst hsecond hdefined =>
      exact .call₂ hf (h _ (by simp) _ hfirst) (h _ (by simp) _ hsecond) hdefined

/-- Simplification keeps the value. Where a tree has a value in exact arithmetic, the simplified
tree has the same one: no quotient, power or call of it is undefined there. -/
theorem simplify_hasValue (hone : ∀ b : K, D.pow 1 b → Scalar.pow 1 b = 1) {e : Expr K} {v : K}
    (h : e.HasValue D lookup v) : e.simplify.HasValue D lookup v :=
  (congruence_hasValue D lookup).simplify (fun hrule _ => hrule.hasValue hone) e v h

/-- The formula `not (x - x) and sqrt(y * 1) ^ (3 * (2 * x)) / (0 + x)` at real numbers. -/
theorem simplify_hasValue_real :
    let x : Expr ℝ := .symbol "x"
    let power : Expr ℝ := .binary .pow (.call "sqrt" [.binary .mul (.symbol "y") (.const 1)])
      (.binary .mul (.const 3) (.binary .mul (.const 2) x))
    let e : Expr ℝ := .binary .and (.unary .not (.binary .sub x x))
      (.binary .div power (.binary .add (.const 0) x))
    let lookup : String → Option ℝ := fun name => if name = "x" then some 2 else some 4
    let v := BinaryOp.and.apply (UnaryOp.not.apply ((2 : ℝ) - 2))
      (Scalar.pow (Scalar.sqrt ((4 : ℝ) * 1)) (3 * (2 * 2)) / (0 + 2))
    (∀ b : ℝ, Definedness.real.pow 1 b → Scalar.pow 1 b = 1) ∧
      e.HasValue .real lookup v ∧ e.simplify.HasValue .real lookup v := by
  intro x power e lookup v
  have hone : ∀ b : ℝ, Definedness.real.pow 1 b → Scalar.pow 1 b = 1 :=
    fun b _ => Real.one_rpow b
  have hx : x.HasValue .real lookup 2 := .symbol rfl
  have hroot : (call "sqrt" [.binary .mul (.symbol "y") (.const 1)]).HasValue .real lookup
      (Scalar.sqrt ((4 : ℝ) * 1)) :=
    .call (f := .sqrt) rfl (HasValue.mul (.symbol rfl) .const) (by norm_num [Definedness.real])
  have hpositive : 0 < Scalar.sqrt ((4 : ℝ) * 1) := Real.sqrt_pos.2 (by norm_num)
  have hpower : power.HasValue .real lookup
      (Scalar.pow (Scalar.sqrt ((4 : ℝ) * 1)) (3 * (2 * 2))) :=
    hroot.pow (HasValue.mul .const (HasValue.mul .const hx)) (.inl hpositive)
  have h : e.HasValue .real lookup v :=
    .binary (.unary (hx.sub hx)) (hpower.div (HasValue.add .const hx) (by norm_num)) trivial
  exact ⟨hone, h, simplify_hasValue hone h⟩

end Expr

end SurfaceGeometry
