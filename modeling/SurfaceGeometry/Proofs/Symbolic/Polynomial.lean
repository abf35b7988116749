import SurfaceGeometry.Proofs.Symbolic.Simplification
import SurfaceGeometry.Proofs.Symbolic.DerivativeRules

/-!
# Trees that are polynomials

A tree of constants, symbols, sums, differences, products, opposites and powers with whole exponents
(`Expr.IsPolynomial`) can be evaluated in any algebra over the numbers that has members for its
symbols (`Expr.Evaluates`): to a number when the symbols are numbers, to a polynomial when they are
indeterminates. A simplified tree evaluates to the same member (`Expr.Replaces`). Where the algebra
has a derivation that takes the variable to one and the other symbols to zero, the derivative of a
tree evaluates to the derivation of what the tree evaluates to (`Expr.Evaluates.differentiate`).

The rule for powers writes an exponent of minus one into the derivative of a power with the exponent
zero, and that is no polynomial. But it stands next to the factor zero, and the first pass takes it
away.
-/

namespace SurfaceGeometry

namespace Expr

variable {K : Type} [Field K]

/-- A tree is built with the operations of a polynomial. -/
inductive IsPolynomial : Expr K → Prop where
  | const (c : K) : IsPolynomial (.const c)
  | symbol (name : String) : IsPolynomial (.symbol name)
  | neg {u} (hu : IsPolynomial u) : IsPolynomial (.unary .neg u)
  | add {u v} (hu : IsPolynomial u) (hv : IsPolynomial v) : IsPolynomial (.binary .add u v)
  | sub {u v} (hu : IsPolynomial u) (hv : IsPolynomial v) : IsPolynomial (.binary .sub u v)
  | mul {u v} (hu : IsPolynomial u) (hv : IsPolynomial v) : IsPolynomial (.binary .mul u v)
  | pow {u} (hu : IsPolynomial u) (n : Nat) : IsPolynomial (.binary .pow u (.const n))

variable {R S : Type} [CommRing R] [Algebra K R] [CommRing S] [Algebra K S]

/-- A tree is a member of an algebra when its symbols are those that `σ` gives. -/
inductive Evaluates (σ : String → Option R) : Expr K → R → Prop where
  | const (c : K) : Evaluates σ (.const c) (algebraMap K R c)
  | symbol {name p} (h : σ name = some p) : Evaluates σ (.symbol name) p
  | neg {u p} (hu : Evaluates σ u p) : Evaluates σ (.unary .neg u) (-p)
  | add {u v p q} (hu : Evaluates σ u p) (hv : Evaluates σ v q) :
      Evaluates σ (.binary .add u v) (p + q)
  | sub {u v p q} (hu : Evaluates σ u p) (hv : Evaluates σ v q) :
      Evaluates σ (.binary .sub u v) (p - q)
  | mul {u v p q} (hu : Evaluates σ u p) (hv : Evaluates σ v q) :
      Evaluates σ (.binary .mul u v) (p * q)
  | pow {u p} (hu : Evaluates σ u p) (n : Nat) : Evaluates σ (.binary .pow u (.const n)) (p ^ n)

namespace Evaluates

variable {σ : String → Option R} {e u v : Expr K} {p q : R} {c : K}

/-- A tree evaluates to whatever is equal to what it evaluates to. -/
theorem of_eq (h : Evaluates σ e p) (heq : q = p) : Evaluates σ e q :=
  heq ▸ h

/-- A constant is the scalar of the algebra. -/
theorem of_const (h : Evaluates σ (.const c) p) : p = algebraMap K R c := by
  cases h
  rfl

/-- The exponent of a power that evaluates is a natural number that is written out. -/
theorem of_pow (h : Evaluates σ (.binary .pow u v) p) :
    ∃ q n, v = .const ((n : Nat) : K) ∧ Evaluates σ u q ∧ p = q ^ n := by
  cases h with
  | pow hu n => exact ⟨_, n, rfl, hu, rfl⟩

/-- A homomorphism takes the member of one algebra that a tree is to that of the other. -/
theorem map (φ : R →ₐ[K] S) {τ : String → Option S} (h : Evaluates σ e p)
    (hτ : ∀ name p, σ name = some p → τ name = some (φ p)) : Evaluates τ e (φ p) := by
  induction h with
  | const c => exact (Evaluates.const c).of_eq (φ.commutes c)
  | symbol h => exact .symbol (hτ _ _ h)
  | neg _ ih => exact ih.neg.of_eq (map_neg φ _)
  | add _ _ ihu ihv => exact (ihu.add ihv).of_eq (map_add φ _ _)
  | sub _ _ ihu ihv => exact (ihu.sub ihv).of_eq (map_sub φ _ _)
  | mul _ _ ihu ihv => exact (ihu.mul ihv).of_eq (map_mul φ _ _)
  | pow _ n ih => exact (ih.pow n).of_eq (map_pow φ _ n)

/-- What does not mention the variable does not change. -/
theorem derivation_eq_zero {δ : Derivation K R R} {var : String}
    (hother : ∀ name p, name ≠ var → σ name = some p → δ p = 0) (he : Evaluates σ e p)
    (hfree : e.dependsOn var = false) : δ p = 0 := by
  induction he with
  | const c => exact δ.map_algebraMap c
  | symbol h => exact hother _ _ (by simpa [dependsOn] using hfree) h
  | neg _ ih => rw [map_neg, ih hfree, neg_zero]
  | add _ _ ihu ihv =>
    obtain ⟨hu, hv⟩ := Bool.or_eq_false_iff.1 hfree
    rw [map_add, ihu hu, ihv hv, add_zero]
  | sub _ _ ihu ihv =>
    obtain ⟨hu, hv⟩ := Bool.or_eq_false_iff.1 hfree
    rw [map_sub, ihu hu, ihv hv, sub_zero]
  | mul _ _ ihu ihv =>
    obtain ⟨hu, hv⟩ := Bool.or_eq_false_iff.1 hfree
    rw [δ.leibniz, ihu hu, ihv hv, smul_zero, smul_zero, add_zero]
  | pow _ n ih =>
    rw [δ.leibniz_pow, ih (Bool.or_eq_false_iff.1 hfree).1, smul_zero, smul_zero]

/-- A tree evaluates to one member of the algebra only. Without characteristic zero two exponents
could be the same constant. -/
theorem unique [CharZero K] (hp : Evaluates σ e p) (hq : Evaluates σ e q) : p = q := by
  induction hp generalizing q with
  | const c => exact hq.of_const.symm
  | symbol h =>
    cases hq with
    | symbol h' => exact Option.some_inj.1 (h.symm.trans h')
  | neg _ ih =>
    cases hq with
    | neg hu => rw [ih hu]
  | add _ _ ihu ihv =>
    cases hq with
    | add hu hv => rw [ihu hu, ihv hv]
  | sub _ _ ihu ihv =>
    cases hq with
    | sub hu hv => rw [ihu hu, ihv hv]
  | mul _ _ ihu ihv =>
    cases hq with
    | mul hu hv => rw [ihu hu, ihv hv]
  | pow _ n ih =>
    obtain ⟨r, m, hexponent, hr, rfl⟩ := hq.of_pow
    obtain rfl : n = m := Nat.cast_injective (Expr.const.inj hexponent)
    rw [ih hr]

end Evaluates

/-! ## Replacement -/

/-- A tree can be put in the place of another one: it evaluates to the same, and a constant, which
can be an exponent, stays what it is. -/
structure Replaces (σ : String → Option R) (e e' : Expr K) : Prop where
  evaluates {p} : Evaluates σ e p → Evaluates σ e' p
  const {c} : e = .const c → e' = .const c

/-- To be replaced is concluded part by part. -/
theorem congruence_replaces (σ : String → Option R) :
    Congruence fun e e' : Expr K => Replaces σ e e' where
  refl _ := ⟨id, id⟩
  trans h h' := ⟨fun he => h'.evaluates (h.evaluates he), fun hc => h'.const (h.const hc)⟩
  unary _ _ _ h := by
    refine ⟨fun he => ?_, fun hc => by cases hc⟩
    cases he with
    | neg hu => exact (h.evaluates hu).neg
  binary _ _ _ _ _ hl hr := by
    refine ⟨fun he => ?_, fun hc => by cases hc⟩
    cases he with
    | add hu hv => exact (hl.evaluates hu).add (hr.evaluates hv)
    | sub hu hv => exact (hl.evaluates hu).sub (hr.evaluates hv)
    | mul hu hv => exact (hl.evaluates hu).mul (hr.evaluates hv)
    | pow hu n =>
      rw [hr.const rfl]
      exact (hl.evaluates hu).pow n
  call _ _ _ _ := ⟨fun he => (by cases he), fun hc => by cases hc⟩

/-! ## Values -/

variable [LinearOrder K] [ElementaryFunctions K]

/-- A tree that has a value has one in every algebra that has members for its symbols. -/
theorem IsPolynomial.exists_evaluates {σ : String → Option R} {lookup : String → Option K}
    {e : Expr K} (he : e.IsPolynomial) {a : K} (ha : e.value? lookup = some a)
    (hσ : ∀ name b, lookup name = some b → ∃ p, σ name = some p) : ∃ p, Evaluates σ e p := by
  have hparts {op : BinaryOp} {u v : Expr K} {c : K}
      (hu : ∀ {a}, u.value? lookup = some a → ∃ p, Evaluates σ u p)
      (hv : ∀ {a}, v.value? lookup = some a → ∃ q, Evaluates σ v q)
      (h : (binary op u v).value? lookup = some c) :
      ∃ p q, Evaluates σ u p ∧ Evaluates σ v q := by
    rw [value?_binary] at h
    obtain ⟨a, ha, h⟩ := Option.bind_eq_some_iff.1 h
    obtain ⟨b, hb, -⟩ := Option.bind_eq_some_iff.1 h
    obtain ⟨p, hp⟩ := hu ha
    obtain ⟨q, hq⟩ := hv hb
    exact ⟨p, q, hp, hq⟩
  induction he generalizing a with
  | const c => exact ⟨_, .const c⟩
  | symbol name =>
    obtain ⟨p, hp⟩ := hσ name a ha
    exact ⟨p, .symbol hp⟩
  | neg _ ih =>
    rw [value?] at ha
    obtain ⟨b, hb, -⟩ := Option.map_eq_some_iff.1 ha
    obtain ⟨p, hp⟩ := ih hb
    exact ⟨_, hp.neg⟩
  | add _ _ ihu ihv =>
    obtain ⟨p, q, hp, hq⟩ := hparts ihu ihv ha
    exact ⟨_, hp.add hq⟩
  | sub _ _ ihu ihv =>
    obtain ⟨p, q, hp, hq⟩ := hparts ihu ihv ha
    exact ⟨_, hp.sub hq⟩
  | mul _ _ ihu ihv =>
    obtain ⟨p, q, hp, hq⟩ := hparts ihu ihv ha
    exact ⟨_, hp.mul hq⟩
  | pow _ n ih =>
    obtain ⟨p, -, hp, -⟩ := hparts ih (fun _ => ⟨_, .const (n : K)⟩) ha
    exact ⟨_, hp.pow n⟩

/-- Among numbers it is the value of the tree. -/
theorem Evaluates.value?_eq {lookup : String → Option K} {e : Expr K} {a : K}
    (h : Evaluates lookup e a) : e.value? lookup = some a := by
  induction h with
  | const c => rfl
  | symbol h => exact h
  | neg _ ih => rw [value?, ih]; rfl
  | add _ _ ihu ihv | sub _ _ ihu ihv | mul _ _ ihu ihv =>
    rw [value?_binary, ihu, ihv]
    rfl
  | @pow u a _ n ih =>
    rw [value?_pow, ih, ← Exact.pow_natCast a n]
    rfl

/-- The zero that rules write is the zero of the algebra. -/
theorem Evaluates.zero {σ : String → Option R} :
    Evaluates σ (.const (@OfNat.ofNat K 0 (Scalar.instOfNat 0))) 0 :=
  (Evaluates.const _).of_eq (by rw [Exact.zero_eq, map_zero])

/-- The one that rules write is the one of the algebra. -/
theorem Evaluates.one {σ : String → Option R} :
    Evaluates σ (.const (@OfNat.ofNat K 1 (Scalar.instOfNat 1))) 1 :=
  (Evaluates.const _).of_eq (by rw [Exact.one_eq, map_one])

/-- An operation on two constants evaluates to what it is folded into. -/
theorem Evaluates.fold {σ : String → Option R} {op : BinaryOp} {a b : K} {p : R}
    (h : Evaluates σ (.binary op (.const a) (.const b)) p) :
    Evaluates σ (.const (op.apply a b)) p := by
  refine (Evaluates.const _).of_eq ?_
  cases h with
  | add hu hv => rw [hu.of_const, hv.of_const, ← map_add]; rfl
  | sub hu hv => rw [hu.of_const, hv.of_const, ← map_sub]; rfl
  | mul hu hv => rw [hu.of_const, hv.of_const, ← map_mul]; rfl
  | pow hu n => rw [hu.of_const, ← map_pow, ← Exact.pow_natCast]; rfl

/-- Behind a pass a product with the first factor zero is gone, whatever the other factor is. -/
theorem simplifyBinary_zero_mul (v : Expr K) :
    simplifyBinary .mul (.const ((0 : Nat) : K)) v = .const ((0 : Nat) : K) := by
  have hzero : isConst (@OfNat.ofNat K 0 (Scalar.instOfNat 0)) (.const ((0 : Nat) : K)) = true :=
    decide_eq_true rfl
  cases v with
  | const c =>
    show Expr.const (((0 : Nat) : K) * c) = .const ((0 : Nat) : K)
    rw [Nat.cast_zero, zero_mul]
  | symbol | unary | binary | call =>
    unfold simplifyBinary simplifyProduct
    rw [hzero]
    rfl

/-- A derivative has to be looked for only in what mentions the variable. -/
theorem Evaluates.derivative_of_rule {σ : String → Option R} {δ : Derivation K R R} {var : String}
    (hother : ∀ name p, name ≠ var → σ name = some p → δ p = 0)
    {e : Expr K} {p : R} (he : Evaluates σ e p)
    (hrule : e.dependsOn var = true →
      ∃ d, e.derivative var = .ok d ∧ Evaluates σ d.simplifyOnce (δ p)) :
    ∃ d, e.derivative var = .ok d ∧ Evaluates σ d.simplifyOnce (δ p) := by
  cases hdep : e.dependsOn var with
  | false =>
    exact ⟨_, derivative_of_not_dependsOn hdep,
      Evaluates.zero.of_eq (he.derivation_eq_zero hother hdep)⟩
  | true => exact hrule hdep

/-! ## Simplification -/

variable [CharZero K] {σ : String → Option R} {e e' : Expr K}

/-- A rule keeps what a tree evaluates to. -/
theorem Rewrite.evaluates (h : Rewrite e e') {p : R} (he : Evaluates σ e p) : Evaluates σ e' p := by
  -- The induction is for the rule that moves a constant to the left, where another rule follows.
  induction h generalizing p with
  | same => exact he
  | negConst =>
    cases he with
    | neg hu =>
      rw [hu.of_const, ← map_neg]
      exact .const _
  | negNeg =>
    cases he with
    | neg hu =>
      cases hu with
      | neg hu => exact hu.of_eq (neg_neg _)
  -- What these rules rewrite is no polynomial.
  | notConst | foldCall | foldCall₂ | zeroDiv | divOne | negDiv => cases he
  | foldBinary => exact he.fold
  | zeroAdd zero =>
    cases he with
    | add hu hv =>
      rw [hu.of_const, Exact.eq_zero_of_beq zero, map_zero, zero_add]
      exact hv
  | addZero zero =>
    cases he with
    | add hu hv =>
      rw [hv.of_const, Exact.eq_zero_of_beq zero, map_zero, add_zero]
      exact hu
  | addNeg =>
    cases he with
    | add hu hv =>
      cases hv with
      | neg hv => exact (hu.sub hv).of_eq (sub_eq_add_neg _ _).symm
  | negAdd =>
    cases he with
    | add hu hv =>
      cases hu with
      | neg hu => exact (hv.sub hu).of_eq (neg_add_eq_sub _ _)
  | subZero zero =>
    cases he with
    | sub hu hv =>
      rw [hv.of_const, Exact.eq_zero_of_beq zero, map_zero, sub_zero]
      exact hu
  | zeroSub zero =>
    cases he with
    | sub hu hv =>
      rw [hu.of_const, Exact.eq_zero_of_beq zero, map_zero, zero_sub]
      exact hv.neg
  | subNeg =>
    cases he with
    | sub hu hv =>
      cases hv with
      | neg hv => exact (hu.add hv).of_eq (sub_neg_eq_add _ _)
  | subSelf equal =>
    cases he with
    | sub hu hv =>
      rw [eq_of_beq equal] at hu
      rw [hu.unique hv, sub_self]
      exact .zero
  | zeroMul zero =>
    cases he with
    | mul hu hv =>
      rw [hu.of_const, Exact.eq_zero_of_beq zero, map_zero, zero_mul]
      exact .zero
  | mulZero zero =>
    cases he with
    | mul hu hv =>
      rw [hv.of_const, Exact.eq_zero_of_beq zero, map_zero, mul_zero]
      exact .zero
  | oneMul one =>
    cases he with
    | mul hu hv =>
      rw [hu.of_const, Exact.eq_one_of_beq one, map_one, one_mul]
      exact hv
  | mulOne one =>
    cases he with
    | mul hu hv =>
      rw [hv.of_const, Exact.eq_one_of_beq one, map_one, mul_one]
      exact hu
  | minusOneMul minusOne =>
    cases he with
    | mul hu hv =>
      rw [hu.of_const, Exact.eq_minus_one_of_beq minusOne, map_neg, map_one, neg_one_mul]
      exact hv.neg
  | mulMinusOne minusOne =>
    cases he with
    | mul hu hv =>
      rw [hv.of_const, Exact.eq_minus_one_of_beq minusOne, map_neg, map_one, mul_neg_one]
      exact hu.neg
  | mulConst _ ih =>
    cases he with
    | mul hu hv => exact ih ((hv.mul hu).of_eq (mul_comm _ _))
  | mergeConst =>
    cases he with
    | mul hu hv =>
      cases hv with
      | mul hv hw =>
        rw [hu.of_const, hv.of_const, ← mul_assoc, ← map_mul]
        exact (Evaluates.const _).mul hw
  | negMulNeg =>
    cases he with
    | mul hu hv =>
      cases hu with
      | neg hu =>
        cases hv with
        | neg hv => exact (hu.mul hv).of_eq (neg_mul_neg _ _)
  | negMul =>
    cases he with
    | mul hu hv =>
      cases hu with
      | neg hu => exact (hu.mul hv).neg.of_eq (neg_mul _ _)
  | mulNeg =>
    cases he with
    | mul hu hv =>
      cases hv with
      | neg hv => exact (hu.mul hv).neg.of_eq (mul_neg _ _)
  | powZero zero =>
    obtain ⟨q, n, hexponent, hu, rfl⟩ := he.of_pow
    have hn : (n : K) = 0 := (Expr.const.inj hexponent).symm.trans (Exact.eq_zero_of_beq zero)
    rw [Nat.cast_eq_zero.1 hn, pow_zero]
    exact .one
  | powOne one =>
    obtain ⟨q, n, hexponent, hu, rfl⟩ := he.of_pow
    have hn : (n : K) = 1 := (Expr.const.inj hexponent).symm.trans (Exact.eq_one_of_beq one)
    rw [Nat.cast_eq_one.1 hn, pow_one]
    exact hu
  | onePow one =>
    obtain ⟨q, n, -, hu, rfl⟩ := he.of_pow
    rw [hu.of_const, Exact.eq_one_of_beq one, map_one, one_pow]
    exact .one

/-- Every rule of simplification puts a tree in the place of another that it can stand for. -/
theorem Rewrite.replaces (h : Rewrite e e') : Replaces σ e e' where
  evaluates := h.evaluates
  const hc := by
    subst hc
    cases h
    rfl

/-- A pass keeps what a tree evaluates to. -/
theorem Evaluates.simplifyOnce {p : R} (he : Evaluates σ e p) : Evaluates σ e.simplifyOnce p :=
  ((congruence_replaces σ).simplifyOnce Rewrite.replaces e).evaluates he

/-- The first pass is enough: what is evaluated behind it is so behind all. -/
theorem Evaluates.simplify {p : R} (he : Evaluates σ e.simplifyOnce p) :
    Evaluates σ e.simplify p := by
  rw [Expr.simplify, simplifyWithin]
  split
  · next hsame => rwa [eq_of_beq hsame] at he
  · exact ((congruence_replaces σ).simplifyWithin Rewrite.replaces 7 _).evaluates he

/-! ## Derivatives -/

variable {δ : Derivation K R R} {var : String}

/-- A pass over an operation is a pass over both operands and the rules at the root, which keep what
it evaluates to. -/
theorem Evaluates.pass_binary {op : BinaryOp} {l r : Expr K} {p : R}
    (h : Evaluates σ (.binary op l.simplifyOnce r.simplifyOnce) p) :
    Evaluates σ (Expr.binary op l r).simplifyOnce p :=
  (rewrite_simplifyBinary op _ _).evaluates h

/-- The derivative of a power, behind a pass. With the exponent zero it is gone. -/
theorem Evaluates.pass_power {u du : Expr K} {p r : R} (hu : Evaluates σ u p)
    (hdu : Evaluates σ du.simplifyOnce r) (n : Nat) :
    Evaluates σ (Expr.const (n : K) * u ^ lowered (.const (n : K)) * du).simplifyOnce
      (n • p ^ (n - 1) * r) := by
  cases n with
  | zero =>
    have hgone :
        (Expr.const ((0 : Nat) : K) * u ^ lowered (.const ((0 : Nat) : K)) * du).simplifyOnce =
          .const ((0 : Nat) : K) := by
      show simplifyBinary .mul (simplifyBinary .mul (.const ((0 : Nat) : K)) _) _ = _
      rw [simplifyBinary_zero_mul, simplifyBinary_zero_mul]
    rw [hgone, zero_smul, zero_mul]
    exact .zero
  | succ n =>
    have hlowered : lowered (.const ((n + 1 : Nat) : K)) = Expr.const (n : K) := by
      show Expr.const (((n + 1 : Nat) : K) - @OfNat.ofNat K 1 (Scalar.instOfNat 1)) = _
      rw [Exact.one_eq, Nat.cast_succ, add_sub_cancel_right]
    rw [hlowered]
    have hfactor : Evaluates σ (.const ((n + 1 : Nat) : K)) (algebraMap K R ((n + 1 : Nat) : K)) :=
      .const _
    have hpower : Evaluates σ (u ^ Expr.const (n : K)).simplifyOnce (p ^ n) :=
      (hu.simplifyOnce.pow n).pass_binary
    refine ((hfactor.mul hpower).pass_binary.mul hdu).pass_binary.of_eq ?_
    rw [map_natCast, nsmul_eq_mul]
    rfl

/-- Behind one pass the derivative of a tree evaluates to the derivation of what the tree evaluates
to. -/
theorem Evaluates.derivative (hvar : ∀ p, σ var = some p → δ p = 1)
    (hother : ∀ name p, name ≠ var → σ name = some p → δ p = 0) {p : R} (he : Evaluates σ e p) :
    ∃ d, e.derivative var = .ok d ∧ Evaluates σ d.simplifyOnce (δ p) := by
  induction he with
  | const c => exact ⟨_, rfl, Evaluates.zero.of_eq (δ.map_algebraMap c)⟩
  | @symbol name p h =>
    refine ⟨_, rfl, ?_⟩
    split
    · next heq => exact Evaluates.one.of_eq (hvar p (heq ▸ h))
    · next hne => exact Evaluates.zero.of_eq (hother name p hne h)
  | @neg u p hu ih =>
    refine hu.neg.derivative_of_rule hother fun hdep => ?_
    obtain ⟨du, hdu, hp⟩ := ih
    refine ⟨-du, by rw [Expr.derivative, if_pos hdep, hdu]; rfl, ?_⟩
    exact (rewrite_simplifyUnary .neg _).evaluates (hp.neg.of_eq (map_neg δ p))
  | @add u v p q hu hv ihu ihv =>
    refine (hu.add hv).derivative_of_rule hother fun hdep => ?_
    obtain ⟨du, hdu, hp⟩ := ihu
    obtain ⟨dv, hdv, hq⟩ := ihv
    refine ⟨du + dv, by rw [Expr.derivative, if_pos hdep, hdu, hdv]; rfl, ?_⟩
    exact (hp.add hq).pass_binary.of_eq (map_add δ p q)
  | @sub u v p q hu hv ihu ihv =>
    refine (hu.sub hv).derivative_of_rule hother fun hdep => ?_
    obtain ⟨du, hdu, hp⟩ := ihu
    obtain ⟨dv, hdv, hq⟩ := ihv
    refine ⟨du - dv, by rw [Expr.derivative, if_pos hdep, hdu, hdv]; rfl, ?_⟩
    exact (hp.sub hq).pass_binary.of_eq (map_sub δ p q)
  | @mul u v p q hu hv ihu ihv =>
    refine (hu.mul hv).derivative_of_rule hother fun hdep => ?_
    obtain ⟨du, hdu, hp⟩ := ihu
    obtain ⟨dv, hdv, hq⟩ := ihv
    refine ⟨du * v + u * dv, by rw [Expr.derivative, if_pos hdep, hdu, hdv]; rfl, ?_⟩
    refine ((hp.mul hv.simplifyOnce).pass_binary.add
      (hu.simplifyOnce.mul hq).pass_binary).pass_binary.of_eq ?_
    rw [δ.leibniz, smul_eq_mul, smul_eq_mul, mul_comm q, add_comm]
  | @pow u p hu n ih =>
    refine (hu.pow n).derivative_of_rule hother fun hdep => ?_
    obtain ⟨du, hdu, hp⟩ := ih
    refine ⟨.const (n : K) * u ^ lowered (.const (n : K)) * du, ?_, ?_⟩
    · rw [Expr.derivative, if_pos hdep, hdu]
      rfl
    · refine (hu.pass_power hp n).of_eq ?_
      rw [δ.leibniz_pow, smul_eq_mul, smul_mul_assoc]

/-- The simplified derivative evaluates to the same. -/
theorem Evaluates.differentiate (hvar : ∀ p, σ var = some p → δ p = 1)
    (hother : ∀ name p, name ≠ var → σ name = some p → δ p = 0) {p : R} (he : Evaluates σ e p) :
    ∃ d, e.differentiate var = .ok d ∧ Evaluates σ d (δ p) := by
  obtain ⟨raw, hraw, hd⟩ := he.derivative hvar hother
  exact ⟨raw.simplify, by rw [Expr.differentiate, hraw]; rfl, hd.simplify⟩

end Expr

end SurfaceGeometry
