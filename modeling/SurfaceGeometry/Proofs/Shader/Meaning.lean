import SurfaceGeometry.Proofs.Exact.Evaluation
import SurfaceGeometry.Proofs.Exact.Reading
import SurfaceGeometry.Proofs.Shader.Literal
import SurfaceGeometry.Proofs.Shader.Translation

/-!
# The value of a shader expression

`Shader.value?` evaluates what the text of a shader is read as, with the functions of GLSL: the
arctangent of two arguments is called like that of one, the only logarithm is the natural one, and
the functions that the expression language has too are given here by what GLSL says of them. In
exact arithmetic the value of a term is that of the tree it was translated from
(`Shader.Translates.value`).
-/

namespace SurfaceGeometry

namespace Shader

section

variable {α : Type} [Scalar α]

/-- The functions of GLSL with one argument. -/
def unary? (name : String) : Option (α → α) :=
  match name with
  | "sin" => some Scalar.sin
  | "cos" => some Scalar.cos
  | "tan" => some Scalar.tan
  | "asin" => some Scalar.asin
  | "acos" => some Scalar.acos
  | "atan" => some Scalar.atan
  | "sinh" => some Scalar.sinh
  | "cosh" => some Scalar.cosh
  | "tanh" => some Scalar.tanh
  | "exp" => some Scalar.exp
  | "log" => some Scalar.ln
  | "sqrt" => some Scalar.sqrt
  | "abs" => some fun a => if a < 0 then -a else a
  | "sign" => some fun a => if a > 0 then 1 else if a < 0 then -1 else 0
  | "ceil" => some Scalar.ceil
  | "floor" => some Scalar.floor
  | "round" => some Scalar.round
  | _ => none

/-- The functions of GLSL with two arguments. -/
def binary? (name : String) : Option (α → α → α) :=
  match name with
  | "pow" => some Scalar.pow
  | "atan" => some Scalar.atan2
  | "max" => some fun a b => if a < b then b else a
  | "min" => some fun a b => if b < a then b else a
  | _ => none

mutual

/-- The value of a shader expression when names have the values of `lookup`. Truth is one and zero.
-/
def value? (lookup : String → Option α) : Expr α → Option α
  | .const value => some value
  | .symbol name => lookup name
  | .unary op operand => (value? lookup operand).map op.apply
  | .binary op left right =>
    if op = .pow then none
    else do return op.apply (← value? lookup left) (← value? lookup right)
  | .call name args =>
    match values? lookup args with
    | some [a] => (unary? name).map (· a)
    | some [a, b] => (binary? name).map (· a b)
    | _ => none

/-- The values of all expressions of a list. -/
def values? (lookup : String → Option α) : List (Expr α) → Option (List α)
  | [] => some []
  | arg :: args => do return (← value? lookup arg) :: (← values? lookup args)

end

variable {lookup : String → Option α} {a b : α}

/-- No operator of a shader is a power. -/
theorem toBinary_ne_pow (op : InnerOp) : op.toBinary ≠ .pow := by
  cases op <;> exact fun h => nomatch h

/-- An operator is applied to the values of its operands. A shader has no operator for powers. -/
theorem value?_operation (op : InnerOp) {left right : Expr α} (hleft : value? lookup left = some a)
    (hright : value? lookup right = some b) :
    value? lookup (.binary op.toBinary left right) = some (op.toBinary.apply a b) := by
  rw [value?, if_neg (toBinary_ne_pow op), hleft, hright]
  rfl

/-- A function of one argument is applied to its value. -/
theorem value?_call {name : String} {f : α → α} {arg : Expr α} (hf : unary? name = some f)
    (harg : value? lookup arg = some a) : value? lookup (.call name [arg]) = some (f a) := by
  simp [value?, values?, harg, hf]

/-- A function of two arguments is applied to their values. -/
theorem value?_call₂ {name : String} {f : α → α → α} {first second : Expr α}
    (hf : binary? name = some f) (hfirst : value? lookup first = some a)
    (hsecond : value? lookup second = some b) :
    value? lookup (.call name [first, second]) = some (f a b) := by
  simp [value?, values?, hfirst, hsecond, hf]

/-- A prefix operator of the shader is the one that it stands for. -/
theorem toUnary_prefixOp (op : UnaryOp) : (Term.prefixOp op).toUnary = op := by
  cases op <;> rfl

/-- An operator of the shader is the one that it stands for. -/
theorem toBinary_of_innerOp? {op : BinaryOp} {inner : InnerOp} (h : Term.innerOp? op = some inner) :
    inner.toBinary = op := by
  cases op <;> cases h <;> rfl

end

/-! ## Exact arithmetic -/

variable {K : Type} [Field K] [LinearOrder K] [IsStrictOrderedRing K] [ElementaryFunctions K]

/-- The magnitude as a shader has it. -/
theorem abs_eq (a : K) : (if a < 0 then -a else a) = Scalar.abs a := by
  show _ = |a|
  split
  · next h => exact (abs_of_neg h).symm
  · next h => exact (abs_of_nonneg (not_lt.1 h)).symm

/-- The functions of one argument that have the same name in GLSL are the same. -/
theorem unary?_eq {name : String} {f : UnaryFunction} (hname : name ∈ Term.sharedUnary)
    (hf : UnaryFunction.ofName? name = some f) : (unary? name : Option (K → K)) = some f.apply := by
  by_cases habs : name = "abs"
  · subst habs
    cases hf
    refine congrArg some (funext fun a => ?_)
    simp only [Exact.ofNat_eq, Nat.cast_zero]
    exact abs_eq a
  by_cases hsign : name = "sign"
  · subst hsign
    cases hf
    refine congrArg some (funext fun a => ?_)
    simp only [UnaryFunction.apply, Exact.sign_eq, Exact.ofNat_eq, Nat.cast_zero, Nat.cast_one]
  -- The other functions are named in both tables.
  simp only [Term.sharedUnary, List.mem_cons, List.not_mem_nil, or_false, habs, hsign, false_or]
    at hname
  rcases hname with rfl | rfl | rfl | rfl | rfl | rfl | rfl | rfl | rfl | rfl | rfl | rfl | rfl |
    rfl | rfl <;>
  · cases hf
    rfl

omit [IsStrictOrderedRing K] in
/-- The functions of two arguments that have the same name in GLSL are the same, since there is no
number that gives way to every other one. -/
theorem binary?_eq {name : String} {f : BinaryFunction} (hname : name ∈ Term.sharedBinary)
    (hf : BinaryFunction.ofName? name = some f) :
    (binary? name : Option (K → K → K)) = some f.apply := by
  simp only [Term.sharedBinary, List.mem_cons, List.not_mem_nil, or_false] at hname
  rcases hname with rfl | rfl <;>
  · cases hf
    rfl

end Shader

/-! ## Values of trees -/

namespace Expr

section

variable {α : Type} [Scalar α] {lookup : String → Option α} {v : α}

/-- Where an operator other than the power has a value, its operands have. -/
theorem value?_binary_eq_some {op : BinaryOp} (hop : op ≠ .pow) {left right : Expr α}
    (h : (binary op left right).value? lookup = some v) :
    ∃ a b, left.value? lookup = some a ∧ right.value? lookup = some b ∧ v = op.apply a b := by
  rw [value?] at h
  · obtain ⟨a, ha, h⟩ := Option.bind_eq_some_iff.1 h
    obtain ⟨b, hb, h⟩ := Option.bind_eq_some_iff.1 h
    cases h
    exact ⟨a, b, ha, hb, rfl⟩
  · exact hop

/-- Where a call with one argument has a value, its name is that of a function and the argument has
a value. -/
theorem value?_call_eq_some {name : String} {arg : Expr α}
    (h : (call name [arg]).value? lookup = some v) :
    ∃ f a, UnaryFunction.ofName? name = some f ∧ arg.value? lookup = some a ∧ v = f.apply a := by
  cases ha : arg.value? lookup with
  | none => simp [value?, values?, ha] at h
  | some a =>
    simp only [value?, values?, ha, Option.bind_eq_bind, Option.bind_some, Option.pure_def] at h
    obtain ⟨f, hf, rfl⟩ := Option.map_eq_some_iff.1 h
    exact ⟨f, a, hf, rfl, rfl⟩

/-- Where a call with two arguments has a value, its name is that of a function and both arguments
have values. -/
theorem value?_call₂_eq_some {name : String} {first second : Expr α}
    (h : (call name [first, second]).value? lookup = some v) :
    ∃ f a b, BinaryFunction.ofName? name = some f ∧ first.value? lookup = some a ∧
      second.value? lookup = some b ∧ v = f.apply a b := by
  cases ha : first.value? lookup with
  | none => simp [value?, values?, ha] at h
  | some a =>
    cases hb : second.value? lookup with
    | none => simp [value?, values?, ha, hb] at h
    | some b =>
      simp only [value?, values?, ha, hb, Option.bind_eq_bind, Option.bind_some,
        Option.pure_def] at h
      obtain ⟨f, hf, rfl⟩ := Option.map_eq_some_iff.1 h
      exact ⟨f, a, b, hf, rfl, rfl, rfl⟩

end

variable {K : Type} [Field K] [LinearOrder K] [IsStrictOrderedRing K] [ElementaryFunctions K]

omit [IsStrictOrderedRing K] in
/-- In exact arithmetic, where a power has a value, its base and its exponent have, and it is their
power however it was computed. -/
theorem value?_pow_eq_some {lookup : String → Option K} {base exponent : Expr K} {v : K}
    (h : (binary .pow base exponent).value? lookup = some v) :
    ∃ a b, base.value? lookup = some a ∧ exponent.value? lookup = some b ∧ v = Scalar.pow a b := by
  rw [value?_pow] at h
  obtain ⟨a, ha, h⟩ := Option.bind_eq_some_iff.1 h
  obtain ⟨b, hb, h⟩ := Option.bind_eq_some_iff.1 h
  cases h
  exact ⟨a, b, ha, hb, rfl⟩

/-- A power with a literal exponent that is a natural number. -/
theorem value?_pow_of_beq {lookup : String → Option K} {base : Expr K} {x : Float} {n : Nat}
    (hn : n ≤ 3) (hx : (x == Float.ofNat n) = true) {v : K}
    (h : (binary .pow base (const (Double.exact K x))).value? lookup = some v) :
    ∃ a, base.value? lookup = some a ∧ v = a ^ n := by
  obtain ⟨a, b, ha, hb, rfl⟩ := value?_pow_eq_some h
  cases hb
  exact ⟨a, ha, by rw [Double.exact_of_beq hn hx, Exact.pow_natCast]⟩

end Expr

namespace Shader

open Term (prefixOp innerOp?)

variable {K : Type} [Field K] [LinearOrder K] [IsStrictOrderedRing K] [ElementaryFunctions K]

/-- The literal of a double has the value of the double, with its sign. -/
theorem value?_literalTree {x : Float} (h : x.isFinite = true) (lookup : String → Option K) :
    value? lookup ((literalTree x).map (Double.exact K)) = some (Double.exact K x) := by
  have habs : Double.exact K x.abs = |Double.exact K x| := by
    unfold Double.exact
    rw [Double.value_abs h]
    exact_mod_cast rfl
  unfold literalTree
  split
  · next hnegative =>
    have hvalue : Double.exact K x < 0 := by
      unfold Double.exact
      exact_mod_cast (Double.lt_zero_iff_value h).1 hnegative
    show some (-Double.exact K x.abs) = _
    rw [habs, abs_of_neg hvalue, neg_neg]
  · next hpositive =>
    have hvalue : 0 ≤ Double.exact K x := by
      unfold Double.exact
      exact_mod_cast not_lt.1 fun hnegative => hpositive ((Double.lt_zero_iff_value h).2 hnegative)
    show some (Double.exact K x.abs) = _
    rw [habs, abs_of_nonneg hvalue]

/-- The value of a term in exact arithmetic is the value of the tree that was translated to it, if
names stand for the same numbers in both, except that the shader has no named constants. -/
theorem Translates.value {e : Expr Float} {t : Term Float} (h : Translates e t)
    {native declared : String → Option K}
    (hconstant : ∀ name x, Scalar.named? name = some x → native name = some (Double.exact K x))
    (hname : ∀ name, (Scalar.named? name : Option Float) = none → native name = declared name)
    {v : K} (hv : (e.map (Double.exact K)).value? native = some v) :
    value? declared (t.tree.map (Double.exact K)) = some v := by
  induction h generalizing v with
  | const finite =>
    cases hv
    exact value?_literalTree finite declared
  | @constant name x named finite =>
    have hx : native name = some v := hv
    rw [hconstant name x named] at hx
    cases hx
    exact value?_literalTree finite declared
  | @name name free =>
    have hx : native name = some v := hv
    rw [hname name free] at hx
    exact hx
  | @unary op operand t _ ih =>
    obtain ⟨a, ha, rfl⟩ := Option.map_eq_some_iff.1 (show Option.map _ _ = some v from hv)
    have hoperand := ih ha
    simp only [Term.tree, Expr.map, value?, hoperand, toUnary_prefixOp, Option.map_some]
  | @binary op inner left right t u operator _ _ ihleft ihright =>
    obtain rfl := toBinary_of_innerOp? operator
    obtain ⟨a, b, ha, hb, rfl⟩ := Expr.value?_binary_eq_some (toBinary_ne_pow inner) hv
    exact value?_operation inner (ihleft ha) (ihright hb)
  -- The term of a power with one of these exponents is no power, so that of the tree is a product.
  | powZero zero =>
    obtain ⟨a, -, rfl⟩ := Expr.value?_pow_of_beq (n := 0) (by decide) zero hv
    have hone := Double.toInt?_ofNat 1 (by decide)
    have hliteral := value?_literalTree hone.2 declared
    rw [Double.exact_ofNat (by decide), Nat.cast_one] at hliteral
    rw [pow_zero]
    exact hliteral
  | powOne one _ ih =>
    obtain ⟨a, ha, rfl⟩ := Expr.value?_pow_of_beq (n := 1) (by decide) one hv
    rw [pow_one]
    exact ih ha
  | powTwo two _ ih =>
    obtain ⟨a, ha, rfl⟩ := Expr.value?_pow_of_beq (n := 2) (by decide) two hv
    rw [pow_two]
    exact value?_operation .mul (ih ha) (ih ha)
  | powThree three _ ih =>
    obtain ⟨a, ha, rfl⟩ := Expr.value?_pow_of_beq (n := 3) (by decide) three hv
    rw [pow_succ, pow_two]
    exact value?_operation .mul (value?_operation .mul (ih ha) (ih ha)) (ih ha)
  | pow _ _ ihbase ihexponent =>
    obtain ⟨a, b, ha, hb, rfl⟩ := Expr.value?_pow_eq_some hv
    exact value?_call₂ rfl (ihbase ha) (ihexponent hb)
  | ln hname _ ih =>
    obtain ⟨f, a, hf, ha, rfl⟩ := Expr.value?_call_eq_some hv
    rcases hname with rfl | rfl <;>
    · cases hf
      exact value?_call rfl (ih ha)
  | log10 finite _ ih =>
    obtain ⟨f, a, hf, ha, rfl⟩ := Expr.value?_call_eq_some hv
    cases hf
    exact value?_operation .div (value?_call rfl (ih ha)) (value?_literalTree finite declared)
  | shared hname _ ih =>
    obtain ⟨f, a, hf, ha, rfl⟩ := Expr.value?_call_eq_some hv
    exact value?_call (unary?_eq hname hf) (ih ha)
  | log _ _ iharg ihbase =>
    obtain ⟨f, a, b, hf, ha, hb, rfl⟩ := Expr.value?_call₂_eq_some hv
    cases hf
    exact value?_operation .div (value?_call rfl (iharg ha)) (value?_call rfl (ihbase hb))
  | atan2 _ _ ihfirst ihsecond =>
    obtain ⟨f, a, b, hf, ha, hb, rfl⟩ := Expr.value?_call₂_eq_some hv
    cases hf
    exact value?_call₂ rfl (ihfirst ha) (ihsecond hb)
  | sharedTwo hname _ _ ihfirst ihsecond =>
    obtain ⟨f, a, b, hf, ha, hb, rfl⟩ := Expr.value?_call₂_eq_some hv
    exact value?_call₂ (binary?_eq hname hf) (ihfirst ha) (ihsecond hb)

end Shader

end SurfaceGeometry
