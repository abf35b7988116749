import SurfaceGeometry.Proofs.Exact.Real
import SurfaceGeometry.Proofs.Symbolic.Calculus

/-!
# Real functions at a point

The derivatives of real functions at a point are rates of change that obey the rules of calculus
(`Rates.atReal_arithmetic`, `Rates.atReal_functions`), where functions with kinks and steps count as
defined off these only, and the arctangent of a quotient off its cut (`Definedness.smooth`).
-/

namespace SurfaceGeometry

/-- Where the functions of the real numbers are defined and have no kink, no step and no cut. -/
def Definedness.smooth : Definedness ℝ where
  unary
    | .abs, a | .sign, a => a ≠ 0
    | .ceil, a | .floor, a => ∀ n : ℤ, a ≠ n
    | .round, a => ∀ n : ℤ, a ≠ n + 1 / 2
    | f, a => Definedness.real.unary f a
  binary
    | .atan2, a, b => 0 < b ∨ a ≠ 0
    | f, a, b => Definedness.real.binary f a b
  pow := Definedness.real.pow

/-- The derivatives of real functions at a point. -/
def Rates.atReal (x : ℝ) : Rates ℝ ℝ where
  point := x
  HasRate q a := HasDerivAt q a x
  Constant q := ∀ᶠ p in nhds x, q p = q x

namespace Rates

open Filter Topology

variable {x : ℝ}

/-- Derivatives of real functions obey the rules of arithmetic. -/
theorem atReal_arithmetic (x : ℝ) : (atReal x).Arithmetic where
  constant {q} h := (hasDerivAt_const x (q x)).congr_of_eventuallyEq h
  neg h := h.neg
  add hq hr := hq.add hr
  sub hq hr := hq.sub hr
  mul hq hr := hq.mul hr
  div hne hq hr := hq.div hr hne
  constant_unary {q} op h := h.mono fun p hp => by
    show op.apply (q p) = op.apply (q x)
    rw [hp]
  constant_binary {q r op} _ _ hq hr := (hq.and hr).mono fun p hp => by
    show op.apply (q p) (r p) = op.apply (q x) (r x)
    rw [hp.1, hp.2]

/-! ## Functions of one argument -/

/-- A step function has the derivative zero where it is constant all around. -/
theorem hasDerivAt_of_isOpen {f : ℝ → ℝ} {s : Set ℝ} (hs : IsOpen s) {a c : ℝ} (ha : a ∈ s)
    (h : ∀ y ∈ s, f y = c) : HasDerivAt f 0 a :=
  (hasDerivAt_const a c).congr_of_eventuallyEq <|
    Filter.mem_of_superset (hs.mem_nhds ha) fun y hy => h y hy

/-- Between integers the floor is constant. -/
theorem hasDerivAt_floor {a : ℝ} (h : ∀ n : ℤ, a ≠ n) :
    HasDerivAt (fun y : ℝ => (⌊y⌋ : ℝ)) 0 a := by
  have hlt : (⌊a⌋ : ℝ) < a := lt_of_le_of_ne (Int.floor_le a) (h ⌊a⌋).symm
  refine hasDerivAt_of_isOpen isOpen_Ioo ⟨hlt, Int.lt_floor_add_one a⟩ (c := ⌊a⌋) fun y hy => ?_
  have hfloor : ⌊y⌋ = ⌊a⌋ := Int.floor_eq_iff.2 ⟨hy.1.le, hy.2⟩
  rw [hfloor]

/-- Between integers the ceiling is constant. -/
theorem hasDerivAt_ceil {a : ℝ} (h : ∀ n : ℤ, a ≠ n) :
    HasDerivAt (fun y : ℝ => (⌈y⌉ : ℝ)) 0 a := by
  have hlt : a < ⌈a⌉ := lt_of_le_of_ne (Int.le_ceil a) (h ⌈a⌉)
  have hgt : (⌈a⌉ : ℝ) - 1 < a := by linarith [Int.ceil_lt_add_one a]
  refine hasDerivAt_of_isOpen isOpen_Ioo ⟨hgt, hlt⟩ (c := ⌈a⌉) fun y hy => ?_
  have hceil : ⌈y⌉ = ⌈a⌉ := Int.ceil_eq_iff.2 ⟨hy.1, hy.2.le⟩
  rw [hceil]

/-- Up to a half on either side of an integer, a number is rounded to it. -/
theorem round_eq {a : ℝ} {n : ℤ} (hlower : (n : ℝ) - 1 / 2 < a) (hupper : a < n + 1 / 2) :
    (Scalar.round a : ℝ) = n := by
  show (if 0 ≤ a then (⌊a + 1 / 2⌋ : ℝ) else ⌈a - 1 / 2⌉) = n
  split
  · have hfloor : ⌊a + 1 / 2⌋ = n := Int.floor_eq_iff.2 ⟨by linarith, by linarith⟩
    rw [hfloor]
  · have hceil : ⌈a - 1 / 2⌉ = n := Int.ceil_eq_iff.2 ⟨by linarith, by linarith⟩
    rw [hceil]

/-- The nearest whole number is the same all around a number that is not half way between two. -/
theorem hasDerivAt_round {a : ℝ} (h : ∀ n : ℤ, a ≠ n + 1 / 2) :
    HasDerivAt (Scalar.round : ℝ → ℝ) 0 a := by
  have hle := Int.floor_le (a + 1 / 2)
  have hlt := Int.lt_floor_add_one (a + 1 / 2)
  have hne := h (⌊a + 1 / 2⌋ - 1)
  push_cast at hne
  have hlower : (⌊a + 1 / 2⌋ : ℝ) - 1 / 2 < a :=
    lt_of_le_of_ne (by linarith) fun heq => hne (by linarith)
  exact hasDerivAt_of_isOpen isOpen_Ioo ⟨hlower, by linarith⟩ fun y hy => round_eq hy.1 hy.2

/-- The derivative of the decimal logarithm. -/
theorem hasDerivAt_log10 {a : ℝ} (ha : a ≠ 0) :
    HasDerivAt (Scalar.log10 : ℝ → ℝ) (1 / (a * Scalar.lnTen)) a := by
  have hquotient := (Real.hasDerivAt_log ha).div_const (Double.exact ℝ Scalar.lnTen)
  rw [← one_div, div_div] at hquotient
  exact hquotient

/-- The derivative of the hyperbolic tangent, as it is written by the rules. -/
theorem hasDerivAt_tanh (a : ℝ) : HasDerivAt Real.tanh (1 - Real.tanh a ^ 2) a := by
  have hcosh : Real.cosh a ≠ 0 := (Real.cosh_pos a).ne'
  have hquotient := (Real.hasDerivAt_sinh a).div (Real.hasDerivAt_cosh a) hcosh
  have htanh : Real.tanh = Real.sinh / Real.cosh := funext Real.tanh_eq_sinh_div_cosh
  rw [htanh]
  refine hquotient.congr_deriv ?_
  rw [Pi.div_apply]
  field_simp

/-- But for zero, the derivative of the absolute value is the sign. -/
theorem hasDerivAt_abs_sign {a : ℝ} (ha : a ≠ 0) :
    HasDerivAt (Scalar.abs : ℝ → ℝ) (Scalar.sign a) a := by
  rw [Exact.sign_eq]
  rcases ha.lt_or_gt with hneg | hpos
  · rw [if_neg hneg.le.not_gt, if_pos hneg]
    exact hasDerivAt_abs_neg hneg
  · rw [if_pos hpos]
    exact hasDerivAt_abs_pos hpos

/-- The sign is the same all around a number that is not zero. -/
theorem hasDerivAt_sign {a : ℝ} (ha : a ≠ 0) : HasDerivAt (Scalar.sign : ℝ → ℝ) 0 a := by
  have hsign : (Scalar.sign : ℝ → ℝ) = fun y => if 0 < y then 1 else if y < 0 then -1 else 0 :=
    funext Exact.sign_eq
  rw [hsign]
  rcases ha.lt_or_gt with hneg | hpos
  · refine hasDerivAt_of_isOpen isOpen_Iio hneg (c := -1) fun y hy => ?_
    have hy : y < 0 := hy
    rw [if_neg hy.le.not_gt, if_pos hy]
  · exact hasDerivAt_of_isOpen isOpen_Ioi hpos fun y hy => if_pos hy

/-- Off one and minus one, which is where the formula for the slope is defined, arcsine and
arccosine have their derivatives. -/
theorem ne_one_of_sqrt_ne_zero {a : ℝ} (h : Real.sqrt (1 - a ^ 2) ≠ 0) : a ≠ -1 ∧ a ≠ 1 := by
  constructor
  · rintro rfl
    norm_num at h
  · rintro rfl
    norm_num at h

/-- Every function of the table has its textbook derivative where both are defined. -/
theorem hasDerivAt_apply {f : UnaryFunction} {a : ℝ} (hdefined : Definedness.smooth.unary f a)
    (hslope : f.SlopeDefined .smooth a) : HasDerivAt (f.apply : ℝ → ℝ) (f.slope a) a := by
  cases f with
  | sin => exact Real.hasDerivAt_sin a
  | cos => exact Real.hasDerivAt_cos a
  | tan => exact Real.hasDerivAt_tan hdefined
  | asin =>
    have hne := ne_one_of_sqrt_ne_zero hslope.2
    exact Real.hasDerivAt_arcsin hne.1 hne.2
  | acos =>
    have hne := ne_one_of_sqrt_ne_zero hslope.2
    exact Real.hasDerivAt_arccos hne.1 hne.2
  | atan => exact Real.hasDerivAt_arctan a
  | sinh => exact Real.hasDerivAt_sinh a
  | cosh => exact Real.hasDerivAt_cosh a
  | tanh => exact hasDerivAt_tanh a
  | exp => exact Real.hasDerivAt_exp a
  | ln =>
    have hln := Real.hasDerivAt_log hslope
    rw [← one_div] at hln
    exact hln
  | log10 => exact hasDerivAt_log10 (left_ne_zero_of_mul hslope)
  | sqrt =>
    have hne : Real.sqrt a ≠ 0 := right_ne_zero_of_mul hslope
    exact Real.hasDerivAt_sqrt fun h => hne (by rw [h, Real.sqrt_zero])
  | abs => exact hasDerivAt_abs_sign hdefined
  | sign => exact hasDerivAt_sign hdefined
  | ceil => exact hasDerivAt_ceil hdefined
  | floor => exact hasDerivAt_floor hdefined
  | round => exact hasDerivAt_round hdefined

/-! ## Powers and the arctangent of a quotient -/

/-- Where a power and the one with the exponent lowered are defined, the power with this exponent
has its derivative. -/
theorem ne_zero_or_one_le {a b : ℝ} (h : Definedness.smooth.pow a (b - 1)) : a ≠ 0 ∨ 1 ≤ b := by
  rcases h with hpos | ⟨-, hb⟩ | ⟨n, ha, -⟩
  · exact .inl hpos.ne'
  · exact .inr (by linarith)
  · exact .inl ha

/-- The arctangent of a quotient is the argument of a complex number, which is the imaginary part of
its logarithm. -/
theorem hasDerivAt_atan2 {q r : ℝ → ℝ} {a b : ℝ} (hq : HasDerivAt q a x) (hr : HasDerivAt r b x)
    (hcut : 0 < r x ∨ q x ≠ 0) :
    HasDerivAt (fun p => Scalar.atan2 (q p) (r p))
      ((r x * a - q x * b) / (q x ^ 2 + r x ^ 2)) x := by
  have hpoint : HasDerivAt (fun p => (⟨r p, q p⟩ : ℂ)) ⟨b, a⟩ x :=
    Complex.equivRealProdCLM.symm.hasFDerivAt.comp_hasDerivAt x (hr.prodMk hq)
  have hlog := Complex.imCLM.hasFDerivAt.comp_hasDerivAt x (hpoint.clog_real hcut)
  have harg : (fun p => Scalar.atan2 (q p) (r p)) =
      Complex.imCLM ∘ fun p => Complex.log ⟨r p, q p⟩ :=
    funext fun p => (Complex.log_im ⟨r p, q p⟩).symm
  rw [harg]
  refine hlog.congr_deriv ?_
  show ((⟨b, a⟩ : ℂ) / ⟨r x, q x⟩).im = (r x * a - q x * b) / (q x ^ 2 + r x ^ 2)
  rw [Complex.div_im, Complex.normSq_mk]
  ring

/-- Derivatives of real functions obey the rules for functions and powers, where these are smooth.
-/
theorem atReal_functions (x : ℝ) : (atReal x).Functions .smooth where
  function {f q a} hdefined hslope hq := (hasDerivAt_apply hdefined hslope).comp x hq
  powConst {q r a} _ hlowered hq hr := by
    have hconst : HasDerivAt (fun p => q p ^ r x) (a * r x * q x ^ (r x - 1)) x :=
      hq.rpow_const (ne_zero_or_one_le hlowered)
    have heq : (fun p => q p ^ r p) =ᶠ[𝓝 x] fun p => q p ^ r x := hr.mono fun p hp => by
      show q p ^ r p = q p ^ r x
      rw [hp]
    refine (hconst.congr_of_eventuallyEq heq).congr_deriv ?_
    show a * r x * q x ^ (r x - 1) = r x * q x ^ (r x - 1) * a
    ring
  constPow {q r b} _ hln hq hr := by
    have hconst : HasDerivAt (fun p => q x ^ r p) (Real.log (q x) * b * q x ^ r x) x :=
      hr.const_rpow hln
    have heq : (fun p => q p ^ r p) =ᶠ[𝓝 x] fun p => q x ^ r p := hq.mono fun p hp => by
      show q p ^ r p = q x ^ r p
      rw [hp]
    refine (hconst.congr_of_eventuallyEq heq).congr_deriv ?_
    show Real.log (q x) * b * q x ^ r x = q x ^ r x * Real.log (q x) * b
    ring
  pow {q r a b} _ hln hne hq hr := by
    have hpos : 0 < q x := hln
    refine (hq.rpow hr hpos).congr_deriv ?_
    show a * r x * q x ^ (r x - 1) + b * q x ^ r x * Real.log (q x) =
      q x ^ r x * (b * Real.log (q x) + r x * a / q x)
    rw [Real.rpow_sub_one hpos.ne']
    field_simp
    ring
  atan2 hdefined _ hq hr := hasDerivAt_atan2 hq hr hdefined
  constant_function {f q} _ hq := hq.mono fun p hp => by
    show f.apply (q p) = f.apply (q x)
    rw [hp]
  constant_function₂ {f q r} _ hq hr := (hq.and hr).mono fun p hp => by
    show f.apply (q p) (r p) = f.apply (q x) (r x)
    rw [hp.1, hp.2]
  constant_pow {q r} _ hq hr := (hq.and hr).mono fun p hp => by
    show Scalar.pow (q p) (r p) = Scalar.pow (q x) (r x)
    rw [hp.1, hp.2]

end Rates

end SurfaceGeometry
