import Mathlib
import SurfaceGeometry.Proofs.Symbolic.DerivativeRules
import SurfaceGeometry.Proofs.Symbolic.Quantity
import SurfaceGeometry.Proofs.Symbolic.RealCalculus

/-!
# The derivative of a tree

The tree that differentiation finds has the rate of change of the tree that it is found for as its
value (`Expr.derivative_hasRate`), wherever both have a value, when the variable changes at the rate
one and the other symbols and the literals are constant. The proof is an induction on the rules of
differentiation (`Expr.Differentiates`): the value of the derivative is taken apart into the values
of its parts, and the rule of calculus for trees puts these together again.
-/

namespace SurfaceGeometry

namespace Expr

variable {P K : Type} [Field K] [LinearOrder K] [ElementaryFunctions K]
  {D : Definedness K} {lookup : String → Option K} {u v e d : Expr K} {a b c : K}
  {name var : String}

/-! ## Values of the parts of derivatives -/

/-- A call that has a value has that of the function at the value of the argument, and the function
is defined there. -/
theorem HasValue.apply_of_call {f : UnaryFunction} (hf : UnaryFunction.ofName? name = some f)
    (h : (Expr.call name [u]).HasValue D lookup c) (ha : u.HasValue D lookup a) :
    D.unary f a ∧ c = f.apply a := by
  obtain ⟨g, x, hg, hx, hdefined, rfl⟩ := h.of_call
  cases hf.symm.trans hg
  cases hx.unique ha
  exact ⟨hdefined, rfl⟩

/-- A squared tree has the square of the value as its value. -/
theorem HasValue.of_squared (h : (squared u).HasValue D lookup c) (ha : u.HasValue D lookup a) :
    c = a ^ 2 := by
  obtain ⟨x, y, hx, hy, -, rfl⟩ := h.of_pow
  rw [hx.unique ha, hy.of_const]
  exact Exact.pow_natCast a 2

/-- The one that rules write is the one of the field. -/
theorem HasValue.of_one
    (h : (Expr.const (@OfNat.ofNat K 1 (Scalar.instOfNat 1))).HasValue D lookup c) : c = 1 :=
  h.of_const.trans Nat.cast_one

/-- A quotient with the numerator one. -/
theorem HasValue.of_reciprocal
    (h : (Expr.binary .div (.const (@OfNat.ofNat K 1 (Scalar.instOfNat 1))) v).HasValue D
      lookup c) :
    ∃ b, v.HasValue D lookup b ∧ b ≠ 0 ∧ c = 1 / b := by
  obtain ⟨x, b, hx, hb, hne, rfl⟩ := h.of_div
  exact ⟨b, hb, hne, by rw [hx.of_one]⟩

/-- The root in the derivatives of the arcsine and the arccosine. -/
theorem HasValue.of_root
    (h : (Expr.call "sqrt" [.binary .sub (.const (@OfNat.ofNat K 1 (Scalar.instOfNat 1)))
      (squared u)]).HasValue D lookup c) (ha : u.HasValue D lookup a) :
    D.unary .sqrt (1 - a ^ 2) ∧ c = Scalar.sqrt (1 - a ^ 2) := by
  obtain ⟨f, x, hf, hx, hdefined, rfl⟩ := h.of_call
  cases hf
  obtain ⟨y, z, hy, hz, rfl⟩ := hx.of_sub
  rw [hy.of_one, hz.of_squared ha] at hdefined ⊢
  exact ⟨hdefined, rfl⟩

/-- The derivative that is written for a function is that of the textbook, wherever it has a value.
-/
theorem slope_of_outerDerivative {f : UnaryFunction}
    (h : (outerDerivative f u).HasValue D lookup c) (ha : u.HasValue D lookup a) :
    f.SlopeDefined D a ∧ c = f.slope a := by
  -- A derivative that is a quotient has a value only where its divisor is not zero.
  cases f with
  | sin => exact h.apply_of_call (f := .cos) rfl ha
  | cos =>
    obtain ⟨x, hx, rfl⟩ := h.of_neg
    obtain ⟨hdefined, rfl⟩ := hx.apply_of_call (f := .sin) rfl ha
    exact ⟨hdefined, rfl⟩
  | tan =>
    obtain ⟨x, hx, hne, rfl⟩ := h.of_reciprocal
    obtain ⟨y, z, hy, hz, -, hxy⟩ := hx.of_pow
    obtain ⟨hdefined, rfl⟩ := hy.apply_of_call (f := .cos) rfl ha
    rw [hx.of_squared hy] at hne ⊢
    exact ⟨⟨hdefined, hne⟩, rfl⟩
  | asin =>
    obtain ⟨x, hx, hne, rfl⟩ := h.of_reciprocal
    obtain ⟨hdefined, rfl⟩ := hx.of_root ha
    exact ⟨⟨hdefined, hne⟩, rfl⟩
  | acos =>
    obtain ⟨y, hy, rfl⟩ := h.of_neg
    obtain ⟨x, hx, hne, rfl⟩ := hy.of_reciprocal
    obtain ⟨hdefined, rfl⟩ := hx.of_root ha
    exact ⟨⟨hdefined, hne⟩, rfl⟩
  | atan =>
    obtain ⟨x, hx, hne, rfl⟩ := h.of_reciprocal
    obtain ⟨y, z, hy, hz, rfl⟩ := hx.of_add
    rw [hy.of_one, hz.of_squared ha] at hne ⊢
    exact ⟨hne, rfl⟩
  | sinh => exact h.apply_of_call (f := .cosh) rfl ha
  | cosh => exact h.apply_of_call (f := .sinh) rfl ha
  | tanh =>
    obtain ⟨y, z, hy, hz, rfl⟩ := h.of_sub
    obtain ⟨x, w, hx, hw, -, hxw⟩ := hz.of_pow
    obtain ⟨-, rfl⟩ := hx.apply_of_call (f := .tanh) rfl ha
    rw [hy.of_one, hz.of_squared hx]
    exact ⟨trivial, rfl⟩
  | exp => exact ⟨trivial, (h.apply_of_call (f := .exp) rfl ha).2⟩
  | ln =>
    obtain ⟨x, hx, hne, rfl⟩ := h.of_reciprocal
    rw [hx.unique ha] at hne ⊢
    exact ⟨hne, rfl⟩
  | log10 =>
    obtain ⟨x, hx, hne, rfl⟩ := h.of_reciprocal
    obtain ⟨y, z, hy, hz, rfl⟩ := hx.of_mul
    rw [hy.unique ha, hz.of_const] at hne ⊢
    exact ⟨hne, rfl⟩
  | sqrt =>
    obtain ⟨x, hx, hne, rfl⟩ := h.of_reciprocal
    obtain ⟨y, z, hy, hz, rfl⟩ := hx.of_mul
    obtain ⟨-, rfl⟩ := hz.apply_of_call (f := .sqrt) rfl ha
    rw [hy.of_const] at hne ⊢
    exact ⟨hne, rfl⟩
  | abs => exact h.apply_of_call (f := .sign) rfl ha
  | sign | ceil | floor | round => exact ⟨trivial, h.of_const.trans Nat.cast_zero⟩

/-- The exponent that the power rule writes is less by one, if it is a literal or not. -/
theorem HasValue.of_lowered (h : (lowered v).HasValue D lookup c) (hb : v.HasValue D lookup b) :
    c = b - 1 := by
  unfold lowered at h
  split at h
  · next n hn =>
    obtain rfl : v = .const n := by
      cases v with
      | const m => cases hn; rfl
      | symbol | unary | binary | call => cases hn
    rw [hb.of_const, h.of_const]
    exact congrArg (n - ·) Nat.cast_one
  · obtain ⟨x, y, hx, hy, rfl⟩ := h.of_sub
    rw [hx.unique hb, hy.of_one]

/-- Where the quotient rule has a value, its parts have, and the value is that of the quotient rule
for numbers. -/
theorem HasValue.of_quotientRule {du dv : Expr K}
    (h : (quotientRule u du v dv).HasValue D lookup c) :
    ∃ a b a' b', u.HasValue D lookup a ∧ v.HasValue D lookup b ∧ b ≠ 0 ∧
      du.HasValue D lookup a' ∧ dv.HasValue D lookup b' ∧ c = (a' * b - a * b') / b ^ 2 := by
  obtain ⟨x, y, hx, hy, hne, rfl⟩ := h.of_div
  obtain ⟨p, q, hp, hq, rfl⟩ := hx.of_sub
  obtain ⟨a', b, ha', hb, rfl⟩ := hp.of_mul
  obtain ⟨a, b', ha, hb', rfl⟩ := hq.of_mul
  rw [hy.of_squared hb] at hne ⊢
  exact ⟨a, b, a', b', ha, hb, pow_ne_zero_iff two_ne_zero |>.1 hne, ha', hb', rfl⟩

/-- The derivative of a logarithm, where it has a value: the inner derivative by the argument. -/
theorem HasValue.of_lnRule {du : Expr K} (hdep : u.dependsOn var = true)
    (h : (lnRule var u du).HasValue D lookup c) (ha : u.HasValue D lookup a) :
    ∃ a', du.HasValue D lookup a' ∧ a ≠ 0 ∧ c = 1 / a * a' := by
  rw [lnRule, if_pos hdep] at h
  obtain ⟨x, a', hx, ha', rfl⟩ := h.of_mul
  obtain ⟨y, hy, hne, rfl⟩ := hx.of_reciprocal
  rw [hy.unique ha] at hne ⊢
  exact ⟨a', ha', hne, rfl⟩

/-! ## Differentiation -/

variable {R : Rates P K} {σ : String → P → K}

/-- The natural logarithm of a tree changes at the rate that the rule for it says. -/
theorem changes_lnOf (hA : R.Arithmetic) (hF : R.Functions D)
    (hother : ∀ name, name ≠ var → R.Constant (σ name))
    (hliterals : ∀ c ∈ u.literals, R.Constant fun _ => c)
    (ha : (lnOf u).HasValue D (R.lookup σ) a)
    (hu : ∀ x x', u.HasValue D (R.lookup σ) x → d.HasValue D (R.lookup σ) x' → u.Changes R σ x')
    (hb : (lnRule var u d).HasValue D (R.lookup σ) b) : (lnOf u).Changes R σ b := by
  cases hdep : u.dependsOn var with
  | false =>
    have hfree : (lnOf u).dependsOn var = false := by
      simp [lnOf, dependsOn, anyDependsOn, hdep]
    have hconstant := unchanging_of_not_dependsOn hA hF hother hfree
      (forall_literals_call.2 hliterals) ha
    rw [lnRule, hdep] at hb
    rw [hb.of_const.trans Nat.cast_zero]
    exact hconstant.changes hA
  | true =>
    obtain ⟨f, x, hf, hx, hdefined, -⟩ := ha.of_call
    cases hf
    obtain ⟨a', ha', hne, rfl⟩ := hb.of_lnRule hdep hx
    exact .call hF (f := .ln) rfl hx hdefined hne (hu x a' hx ha')

/-- What the rules of differentiation find for a tree has the rate of the tree as its value. -/
theorem Differentiates.changes (h : Differentiates var e d) (hA : R.Arithmetic)
    (hF : R.Functions D) (hvar : R.HasRate (σ var) 1)
    (hother : ∀ name, name ≠ var → R.Constant (σ name))
    (hliterals : ∀ c ∈ e.literals, R.Constant fun _ => c) (ha : e.HasValue D (R.lookup σ) a)
    (hb : d.HasValue D (R.lookup σ) b) : e.Changes R σ b := by
  -- In each case the value of the derivative is taken apart first. A part of the tree that stands
  -- in the derivative too has the same value in both.
  induction h generalizing a b with
  | free hfree =>
    rw [hb.of_const.trans Nat.cast_zero]
    exact (unchanging_of_not_dependsOn hA hF hother hfree hliterals ha).changes hA
  | self =>
    rw [hb.of_one]
    exact ⟨_, fun _ => rfl, hvar⟩
  | neg _ ih =>
    obtain ⟨x, hx, -⟩ := ha.of_neg
    obtain ⟨x', hx', rfl⟩ := hb.of_neg
    exact (ih hliterals hx hx').neg hA
  | add _ _ ihu ihv =>
    obtain ⟨hlu, hlv⟩ := forall_literals_binary.1 hliterals
    obtain ⟨x, y, hx, hy, -⟩ := ha.of_add
    obtain ⟨x', y', hx', hy', rfl⟩ := hb.of_add
    exact (ihu hlu hx hx').add hA (ihv hlv hy hy')
  | sub _ _ ihu ihv =>
    obtain ⟨hlu, hlv⟩ := forall_literals_binary.1 hliterals
    obtain ⟨x, y, hx, hy, -⟩ := ha.of_sub
    obtain ⟨x', y', hx', hy', rfl⟩ := hb.of_sub
    exact (ihu hlu hx hx').sub hA (ihv hlv hy hy')
  | mul _ _ ihu ihv =>
    obtain ⟨hlu, hlv⟩ := forall_literals_binary.1 hliterals
    obtain ⟨x, y, hx, hy, -⟩ := ha.of_mul
    obtain ⟨p, q, hp, hq, rfl⟩ := hb.of_add
    obtain ⟨x', y₀, hx', hy₀, rfl⟩ := hp.of_mul
    obtain ⟨x₀, y', hx₀, hy', rfl⟩ := hq.of_mul
    rw [hy₀.unique hy, hx₀.unique hx]
    exact .mul hA hx hy (ihu hlu hx hx') (ihv hlv hy hy')
  | div _ _ ihu ihv =>
    obtain ⟨hlu, hlv⟩ := forall_literals_binary.1 hliterals
    obtain ⟨x, y, x', y', hx, hy, hne, hx', hy', rfl⟩ := hb.of_quotientRule
    exact .div hA hx hy hne (ihu hlu hx hx') (ihv hlv hy hy')
  | powConst hfree _ ihu =>
    obtain ⟨hlu, hlv⟩ := forall_literals_binary.1 hliterals
    obtain ⟨x, y, hx, hy, hdefined, -⟩ := ha.of_pow
    obtain ⟨p, x', hp, hx', rfl⟩ := hb.of_mul
    obtain ⟨y₀, q, hy₀, hq, rfl⟩ := hp.of_mul
    obtain ⟨x₀, z, hx₀, hz, hlowered, rfl⟩ := hq.of_pow
    rw [hx₀.unique hx, hz.of_lowered hy] at hlowered ⊢
    rw [hy₀.unique hy]
    have hconstant := unchanging_of_not_dependsOn hA hF hother hfree hlv hy
    exact .powConst hF hx hy hdefined hlowered (ihu hlu hx hx') hconstant
  | constPow hfree _ ihv =>
    obtain ⟨hlu, hlv⟩ := forall_literals_binary.1 hliterals
    obtain ⟨x, y, hx, hy, hdefined, -⟩ := ha.of_pow
    obtain ⟨p, y', hp, hy', rfl⟩ := hb.of_mul
    obtain ⟨q, z, hq, hz, rfl⟩ := hp.of_mul
    obtain ⟨hln, rfl⟩ := hz.apply_of_call (f := .ln) rfl hx
    rw [hq.unique (hx.pow hy hdefined)]
    have hconstant := unchanging_of_not_dependsOn hA hF hother hfree hlu hx
    exact .constPow hF hx hy hdefined hln hconstant (ihv hlv hy hy')
  | pow _ _ ihu ihv =>
    obtain ⟨hlu, hlv⟩ := forall_literals_binary.1 hliterals
    obtain ⟨x, y, hx, hy, hdefined, -⟩ := ha.of_pow
    obtain ⟨p, q, hp, hq, rfl⟩ := hb.of_mul
    obtain ⟨s, t, hs, ht, rfl⟩ := hq.of_add
    obtain ⟨y', z, hy', hz, rfl⟩ := hs.of_mul
    obtain ⟨w, x₀, hw, hx₀, hne, rfl⟩ := ht.of_div
    obtain ⟨y₀, x', hy₀, hx', rfl⟩ := hw.of_mul
    obtain ⟨hln, rfl⟩ := hz.apply_of_call (f := .ln) rfl hx
    rw [hx₀.unique hx] at hne ⊢
    rw [hp.unique (hx.pow hy hdefined), hy₀.unique hy]
    exact .pow hF hx hy hdefined hln hne (ihu hlu hx hx') (ihv hlv hy hy')
  | call hf _ ih =>
    obtain ⟨g, x, hg, hx, hdefined, -⟩ := ha.of_call
    cases hf.symm.trans hg
    obtain ⟨s, x', hs, hx', rfl⟩ := hb.of_mul
    obtain ⟨hslope, rfl⟩ := slope_of_outerDerivative hs hx
    exact .call hF hf hx hdefined hslope (ih (forall_literals_call.1 hliterals) hx hx')
  | atan2 hf _ _ ihu ihv =>
    obtain ⟨hlu, hlv⟩ := forall_literals_call₂.1 hliterals
    obtain ⟨g, x, y, hg, hx, hy, hdefined, -⟩ := ha.of_call₂
    cases hf.symm.trans hg
    obtain ⟨s, t, hs, ht, hne, rfl⟩ := hb.of_div
    obtain ⟨p, q, hp, hq, rfl⟩ := hs.of_sub
    obtain ⟨y₀, x', hy₀, hx', rfl⟩ := hp.of_mul
    obtain ⟨x₀, y', hx₀, hy', rfl⟩ := hq.of_mul
    obtain ⟨m, n, hm, hn, rfl⟩ := ht.of_add
    rw [hm.of_squared hx, hn.of_squared hy] at hne ⊢
    rw [hy₀.unique hy, hx₀.unique hx]
    exact .atan2 hF hf hx hy hdefined hne (ihu hlu hx hx') (ihv hlv hy hy')
  | log hf _ _ ihu ihv =>
    obtain ⟨hlu, hlv⟩ := forall_literals_call₂.1 hliterals
    obtain ⟨x, y, x', y', hx, hy, hne, hx', hy', rfl⟩ := hb.of_quotientRule
    have hu := changes_lnOf hA hF hother hlu hx (fun _ _ => ihu hlu) hx'
    have hv := changes_lnOf hA hF hother hlv hy (fun _ _ => ihv hlv) hy'
    exact .log hf (.div hA hx hy hne hu hv)

/-- The derivative that is found is the derivative. Where a tree and the one that differentiation
finds for it have values, the tree denotes a quantity with the former as its value and the latter as
its rate of change. The rate may be any that obeys the rules of calculus. -/
theorem derivative_hasRate (hA : R.Arithmetic) (hF : R.Functions D) (hvar : R.HasRate (σ var) 1)
    (hother : ∀ name, name ≠ var → R.Constant (σ name))
    (hliterals : ∀ c ∈ e.literals, R.Constant fun _ => c) (hd : e.derivative var = .ok d)
    (ha : e.HasValue D (R.lookup σ) a) (hb : d.HasValue D (R.lookup σ) b) :
    ∃ q, e.Denotes σ q ∧ q R.point = a ∧ R.HasRate q b := by
  obtain ⟨q, hq, hrate⟩ :=
    (differentiates_of_derivative hd).changes hA hF hvar hother hliterals ha hb
  exact ⟨q, hq, hq.eq_value ha, hrate⟩

/-- The formula `x ^ 3 * abs(x - y) + y ^ x` of a real variable at two, where `y` is one. -/
theorem derivative_hasRate_real :
    let x : Expr ℝ := .symbol "x"
    let y : Expr ℝ := .symbol "y"
    let e := x ^ (const 3 : Expr ℝ) * call "abs" [x - y] + y ^ x
    let σ : String → ℝ → ℝ := fun name p => if name = "x" then p else 1
    ∃ d, e.derivative "x" = .ok d ∧ (Rates.atReal 2).Arithmetic ∧
      (Rates.atReal 2).Functions .smooth ∧ (Rates.atReal 2).HasRate (σ "x") 1 ∧
      (∀ name, name ≠ "x" → (Rates.atReal 2).Constant (σ name)) ∧
      (∀ c ∈ e.literals, (Rates.atReal 2).Constant fun _ => c) ∧
      e.HasValue .smooth ((Rates.atReal 2).lookup σ) 9 ∧
      d.HasValue .smooth ((Rates.atReal 2).lookup σ) 20 ∧
      ∃ q, e.Denotes σ q ∧ q 2 = 9 ∧ HasDerivAt q 20 2 := by
  intro x y e σ
  let one : ℝ := @OfNat.ofNat ℝ 1 (Scalar.instOfNat 1)
  let zero : ℝ := @OfNat.ofNat ℝ 0 (Scalar.instOfNat 0)
  let d : Expr ℝ :=
    (const 3 * x ^ (const (3 - one) : Expr ℝ) * const one) * call "abs" [x - y] +
      x ^ (const 3 : Expr ℝ) * (call "sign" [x - y] * (const one - const zero)) +
      y ^ x * lnOf y * const one
  have hd : e.derivative "x" = .ok d := rfl
  have hone : one = 1 := Nat.cast_one
  have hzero : zero = 0 := Nat.cast_zero
  have hx : x.HasValue .smooth ((Rates.atReal 2).lookup σ) 2 := .symbol rfl
  have hy : y.HasValue .smooth ((Rates.atReal 2).lookup σ) 1 := .symbol rfl
  have hcube : (x ^ (const 3 : Expr ℝ)).HasValue .smooth ((Rates.atReal 2).lookup σ)
      (Scalar.pow 2 3) := hx.pow .const (.inl two_pos)
  have hroot : (y ^ x).HasValue .smooth ((Rates.atReal 2).lookup σ) (Scalar.pow 1 2) :=
    hy.pow hx (.inl one_pos)
  have hne : (2 : ℝ) - 1 ≠ 0 := by norm_num
  have habs : (call "abs" [x - y]).HasValue .smooth ((Rates.atReal 2).lookup σ)
      (Scalar.abs (2 - 1)) := .call (f := .abs) rfl (hx.sub hy) hne
  have hsign : (call "sign" [x - y]).HasValue .smooth ((Rates.atReal 2).lookup σ)
      (Scalar.sign (2 - 1)) := .call (f := .sign) rfl (hx.sub hy) hne
  have hln : (lnOf y).HasValue .smooth ((Rates.atReal 2).lookup σ) (Scalar.ln 1) :=
    .call (f := .ln) rfl hy one_pos
  have ha : e.HasValue .smooth ((Rates.atReal 2).lookup σ) 9 := by
    refine ((hcube.mul habs).add hroot).of_eq ?_
    show 9 = (2 : ℝ) ^ (3 : ℝ) * |2 - 1| + 1 ^ (2 : ℝ)
    norm_num
  have hb : d.HasValue .smooth ((Rates.atReal 2).lookup σ) 20 := by
    have hlowered := hx.pow (.const (c := 3 - one)) (.inl two_pos)
    refine (HasValue.add (HasValue.add
      (((HasValue.const.mul hlowered).mul .const).mul habs)
      (hcube.mul (hsign.mul (HasValue.const.sub .const)))) ((hroot.mul hln).mul .const)).of_eq ?_
    rw [hone, hzero, Exact.sign_eq]
    show 20 = 3 * (2 : ℝ) ^ ((3 : ℝ) - 1) * 1 * |2 - 1| +
      (2 : ℝ) ^ (3 : ℝ) * ((if (0 : ℝ) < 2 - 1 then 1 else _) * (1 - 0)) +
      1 ^ (2 : ℝ) * Real.log 1 * 1
    norm_num
  have hvar : (Rates.atReal 2).HasRate (σ "x") 1 := hasDerivAt_id 2
  have hother : ∀ name, name ≠ "x" → (Rates.atReal 2).Constant (σ name) :=
    fun name hname => .of_forall fun p => by simp only [σ, if_neg hname]
  have hliterals : ∀ c ∈ e.literals, (Rates.atReal 2).Constant fun _ => c :=
    fun c _ => .of_forall fun _ => rfl
  exact ⟨d, hd, Rates.atReal_arithmetic 2, Rates.atReal_functions 2, hvar, hother, hliterals, ha,
    hb, derivative_hasRate (Rates.atReal_arithmetic 2) (Rates.atReal_functions 2) hvar hother
      hliterals hd ha hb⟩

/-! ## Derivations and real functions -/

/-- In a field with a derivation, the value of the derivative is the derivation of the value. -/
theorem derivation_value {δ : Derivation ℤ K K} {τ : String → K}
    (hF : (Rates.ofDerivation δ).Functions D) (hvar : δ (τ var) = 1)
    (hother : ∀ name, name ≠ var → δ (τ name) = 0) (hliterals : ∀ c ∈ e.literals, δ c = 0)
    (hd : e.derivative var = .ok d) (ha : e.HasValue D (fun name => some (τ name)) a)
    (hb : d.HasValue D (fun name => some (τ name)) b) : δ a = b := by
  obtain ⟨q, hq, hrate⟩ := (differentiates_of_derivative hd).changes
    (R := Rates.ofDerivation δ) (σ := fun name _ => τ name) (Rates.ofDerivation_arithmetic δ) hF
    hvar hother hliterals ha hb
  rw [← hq.eq_value (R := Rates.ofDerivation δ) ha]
  exact hrate

/-- A tree over the real numbers denotes a function that has the value of the derivative as its
derivative, off the kinks, steps and cuts of the functions in it. -/
theorem hasDerivAt_value {τ : String → ℝ → ℝ} {x : ℝ} {e d : Expr ℝ} {a b : ℝ}
    (hvar : HasDerivAt (τ var) 1 x)
    (hother : ∀ name, name ≠ var → ∀ᶠ p in nhds x, τ name p = τ name x)
    (hd : e.derivative var = .ok d) (ha : e.HasValue .smooth (fun name => some (τ name x)) a)
    (hb : d.HasValue .smooth (fun name => some (τ name x)) b) :
    ∃ q, e.Denotes τ q ∧ HasDerivAt q b x :=
  (differentiates_of_derivative hd).changes (R := Rates.atReal x) (Rates.atReal_arithmetic x)
    (Rates.atReal_functions x) hvar hother (fun _ _ => .of_forall fun _ => rfl) ha hb

end Expr

end SurfaceGeometry
