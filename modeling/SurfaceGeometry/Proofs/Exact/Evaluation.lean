import SurfaceGeometry.Proofs.Exact.Arithmetic

/-!
# Trees that have a value

In exact arithmetic a tree has a value where each of its parts has one: no denominator is zero, and
no function and no power is applied where it is not defined (`Expr.HasValue`). Where that is, is
said by a `Definedness` for the functions and powers, about which nothing is assumed here. The value
is the one that `Expr.value?` gives (`Expr.HasValue.value?_eq`), which takes a quotient by zero for
what it is in the field.
-/

namespace SurfaceGeometry

/-- Where the functions and the powers of a field are defined. -/
structure Definedness (K : Type) where
  unary : UnaryFunction → K → Prop
  binary : BinaryFunction → K → K → Prop
  pow : K → K → Prop

/-- Where an operator is defined. Only quotients and powers are not defined everywhere. -/
def Definedness.operator {K : Type} [Field K] (D : Definedness K) : BinaryOp → K → K → Prop
  | .div, _, b => b ≠ 0
  | .pow, a, b => D.pow a b
  | _, _, _ => True

variable {K : Type} [Field K] [LinearOrder K] [ElementaryFunctions K]

namespace Expr

/-- A tree and all of its parts have values when symbols have those of `lookup`; the value of the
whole is the number. -/
inductive HasValue (D : Definedness K) (lookup : String → Option K) : Expr K → K → Prop where
  | const {c} : HasValue D lookup (.const c) c
  | symbol {name v} (h : lookup name = some v) : HasValue D lookup (.symbol name) v
  | unary {op e a} (h : HasValue D lookup e a) : HasValue D lookup (.unary op e) (op.apply a)
  | binary {op l r a b} (hl : HasValue D lookup l a) (hr : HasValue D lookup r b)
      (defined : D.operator op a b) : HasValue D lookup (.binary op l r) (op.apply a b)
  | call {name f arg a} (function : UnaryFunction.ofName? name = some f)
      (h : HasValue D lookup arg a) (defined : D.unary f a) :
      HasValue D lookup (.call name [arg]) (f.apply a)
  | call₂ {name f first second a b} (function : BinaryFunction.ofName? name = some f)
      (hfirst : HasValue D lookup first a) (hsecond : HasValue D lookup second b)
      (defined : D.binary f a b) : HasValue D lookup (.call name [first, second]) (f.apply a b)

/-- In exact arithmetic every power is the power of real numbers, however it is computed. -/
theorem value?_pow (lookup : String → Option K) (base exponent : Expr K) :
    (binary .pow base exponent).value? lookup =
      do return Scalar.pow (← base.value? lookup) (← exponent.value? lookup) := by
  rw [value?]
  cases hwhole : wholeExponent? exponent with
  | none => rfl
  | some n =>
    obtain ⟨b, hb, hn⟩ : ∃ b, exponent = const b ∧ Scalar.toInt? b = some n := by
      cases exponent with
      | const b => exact ⟨b, rfl, (Option.filter_eq_some_iff.1 hwhole).1⟩
      | symbol | unary | binary | call => cases hwhole
    rw [hb]
    cases base.value? lookup with
    | none => rfl
    | some a => exact congrArg some (Exact.powInt_eq_pow hn)

/-- In exact arithmetic operators are evaluated all alike. -/
theorem value?_binary (lookup : String → Option K) (op : BinaryOp) (left right : Expr K) :
    (binary op left right).value? lookup =
      do return op.apply (← left.value? lookup) (← right.value? lookup) := by
  cases op with
  | pow => exact value?_pow lookup left right
  | add | sub | mul | div | and | or => rfl

namespace HasValue

variable {D : Definedness K} {lookup : String → Option K} {e l r : Expr K} {a b v : K}

/-- A tree with a value evaluates to it. -/
theorem value?_eq (h : e.HasValue D lookup v) : e.value? lookup = some v := by
  induction h with
  | const => rfl
  | symbol h => exact h
  | unary _ ih => rw [value?, ih, Option.map_some]
  | binary _ _ _ ihl ihr =>
    rw [value?_binary, ihl, ihr]
    rfl
  | call hf _ _ ih => simp [value?, values?, ih, hf]
  | call₂ hf _ _ _ ihfirst ihsecond => simp [value?, values?, ihfirst, ihsecond, hf]

/-- A tree has at most one value, because all of its values are what `Expr.value?` gives. -/
theorem unique (h : e.HasValue D lookup a) (h' : e.HasValue D lookup b) : a = b :=
  Option.some_inj.1 (h.value?_eq.symm.trans h'.value?_eq)

/-- The value of a tree may be written in another way. -/
theorem of_eq (h : e.HasValue D lookup a) (heq : v = a) : e.HasValue D lookup v :=
  heq ▸ h

/-- A natural number that is written into a tree. -/
theorem ofNat (n : Nat) :
    (Expr.const (@OfNat.ofNat K n (Scalar.instOfNat n))).HasValue D lookup n :=
  .const

/-! ## Values of operators -/

/-- The value of a negation. -/
theorem neg (h : e.HasValue D lookup a) : (Expr.unary .neg e).HasValue D lookup (-a) :=
  .unary h

/-- The value of a sum. -/
theorem add (hl : l.HasValue D lookup a) (hr : r.HasValue D lookup b) :
    (Expr.binary .add l r).HasValue D lookup (a + b) :=
  .binary hl hr trivial

/-- The value of a difference. -/
theorem sub (hl : l.HasValue D lookup a) (hr : r.HasValue D lookup b) :
    (Expr.binary .sub l r).HasValue D lookup (a - b) :=
  .binary hl hr trivial

/-- The value of a product. -/
theorem mul (hl : l.HasValue D lookup a) (hr : r.HasValue D lookup b) :
    (Expr.binary .mul l r).HasValue D lookup (a * b) :=
  .binary hl hr trivial

/-- The value of a quotient, whose divisor must not be zero. -/
theorem div (hl : l.HasValue D lookup a) (hr : r.HasValue D lookup b) (hb : b ≠ 0) :
    (Expr.binary .div l r).HasValue D lookup (a / b) :=
  .binary hl hr hb

/-- The value of a power, which must be defined at the values of its parts. -/
theorem pow (hl : l.HasValue D lookup a) (hr : r.HasValue D lookup b) (h : D.pow a b) :
    (Expr.binary .pow l r).HasValue D lookup (Scalar.pow a b) :=
  .binary hl hr h

/-! ## Values of parts -/

/-- A constant has itself as its value and no other. -/
theorem of_const {c : K} (h : (Expr.const c).HasValue D lookup v) : v = c := by
  cases h
  rfl

/-- A prefix operator gets its value from the value of its operand. -/
theorem of_unary {op : UnaryOp} (h : (Expr.unary op e).HasValue D lookup v) :
    ∃ a, e.HasValue D lookup a ∧ v = op.apply a := by
  cases h with
  | unary h => exact ⟨_, h, rfl⟩

/-- Where an operator has a value, its operands have values and it is defined there. -/
theorem of_binary {op : BinaryOp} (h : (Expr.binary op l r).HasValue D lookup v) :
    ∃ a b, l.HasValue D lookup a ∧ r.HasValue D lookup b ∧ D.operator op a b ∧
      v = op.apply a b := by
  cases h with
  | binary hl hr hdefined => exact ⟨_, _, hl, hr, hdefined, rfl⟩

/-- Where a negation has a value, its operand has the opposite one. -/
theorem of_neg (h : (Expr.unary .neg e).HasValue D lookup v) :
    ∃ a, e.HasValue D lookup a ∧ v = -a :=
  h.of_unary

/-- Where a sum has a value, its terms have values that add up to it. -/
theorem of_add (h : (Expr.binary .add l r).HasValue D lookup v) :
    ∃ a b, l.HasValue D lookup a ∧ r.HasValue D lookup b ∧ v = a + b := by
  obtain ⟨a, b, ha, hb, -, rfl⟩ := h.of_binary
  exact ⟨a, b, ha, hb, rfl⟩

/-- Where a difference has a value, its terms have values that differ by it. -/
theorem of_sub (h : (Expr.binary .sub l r).HasValue D lookup v) :
    ∃ a b, l.HasValue D lookup a ∧ r.HasValue D lookup b ∧ v = a - b := by
  obtain ⟨a, b, ha, hb, -, rfl⟩ := h.of_binary
  exact ⟨a, b, ha, hb, rfl⟩

/-- Where a product has a value, its factors have values that it is the product of. -/
theorem of_mul (h : (Expr.binary .mul l r).HasValue D lookup v) :
    ∃ a b, l.HasValue D lookup a ∧ r.HasValue D lookup b ∧ v = a * b := by
  obtain ⟨a, b, ha, hb, -, rfl⟩ := h.of_binary
  exact ⟨a, b, ha, hb, rfl⟩

/-- Where a quotient has a value, its divisor has one that is not zero. -/
theorem of_div (h : (Expr.binary .div l r).HasValue D lookup v) :
    ∃ a b, l.HasValue D lookup a ∧ r.HasValue D lookup b ∧ b ≠ 0 ∧ v = a / b := by
  obtain ⟨a, b, ha, hb, hne, rfl⟩ := h.of_binary
  exact ⟨a, b, ha, hb, hne, rfl⟩

/-- Where a power has a value, it is defined at the values of its base and its exponent. -/
theorem of_pow (h : (Expr.binary .pow l r).HasValue D lookup v) :
    ∃ a b, l.HasValue D lookup a ∧ r.HasValue D lookup b ∧ D.pow a b ∧ v = Scalar.pow a b := by
  obtain ⟨a, b, ha, hb, hdefined, rfl⟩ := h.of_binary
  exact ⟨a, b, ha, hb, hdefined, rfl⟩

/-- Where a call with one argument has a value, the name is that of a function that is defined at
the value of the argument. -/
theorem of_call {name : String} {arg : Expr K} (h : (Expr.call name [arg]).HasValue D lookup v) :
    ∃ f a, UnaryFunction.ofName? name = some f ∧ arg.HasValue D lookup a ∧ D.unary f a ∧
      v = f.apply a := by
  cases h with
  | call hf harg hdefined => exact ⟨_, _, hf, harg, hdefined, rfl⟩

/-- Where a call with two arguments has a value, the name is that of a function that is defined at
the values of both. -/
theorem of_call₂ {name : String} {first second : Expr K}
    (h : (Expr.call name [first, second]).HasValue D lookup v) :
    ∃ f a b, BinaryFunction.ofName? name = some f ∧ first.HasValue D lookup a ∧
      second.HasValue D lookup b ∧ D.binary f a b ∧ v = f.apply a b := by
  cases h with
  | call₂ hf hfirst hsecond hdefined => exact ⟨_, _, _, hf, hfirst, hsecond, hdefined, rfl⟩

end HasValue

end Expr

end SurfaceGeometry
