import SurfaceGeometry.Proofs.Symbolic.Calculus

/-!
# Trees as quantities

When symbols stand for quantities, so does every tree (`Expr.Denotes`). This module has the rules of
calculus for trees: at which rate the quantity of a tree changes (`Expr.Changes`) from the rates of
its parts, one theorem per rule, and that a tree of constants is constant (`Expr.Unchanging`).
-/

namespace SurfaceGeometry

variable {P K : Type} [Field K] [LinearOrder K] [ElementaryFunctions K]

/-- The values that symbols have at the point. -/
def Rates.lookup (R : Rates P K) (σ : String → P → K) (name : String) : Option K :=
  some (σ name R.point)

namespace Expr

/-! ## Literals -/

section
variable {α : Type}

mutual

/-- The constants of a tree from left to right. -/
def literals : Expr α → List α
  | const value => [value]
  | symbol _ => []
  | unary _ operand => operand.literals
  | binary _ left right => left.literals ++ right.literals
  | call _ args => literalsAll args

/-- The constants of all trees of a list. -/
def literalsAll : List (Expr α) → List α
  | [] => []
  | arg :: args => arg.literals ++ literalsAll args

end

variable {property : α → Prop} {u v : Expr α} {name : String}

/-- What is asked of the constants of an operation is asked of those of both operands. -/
theorem forall_literals_binary {op : BinaryOp} :
    (∀ c ∈ (binary op u v).literals, property c) ↔
      (∀ c ∈ u.literals, property c) ∧ ∀ c ∈ v.literals, property c := by
  rw [literals, List.forall_mem_append]

/-- What is asked of the constants of a call is asked of those of the argument. -/
theorem forall_literals_call :
    (∀ c ∈ (call name [u]).literals, property c) ↔ ∀ c ∈ u.literals, property c := by
  rw [literals, literalsAll, literalsAll, List.append_nil]

/-- What is asked of the constants of a call is asked of those of both arguments. -/
theorem forall_literals_call₂ :
    (∀ c ∈ (call name [u, v]).literals, property c) ↔
      (∀ c ∈ u.literals, property c) ∧ ∀ c ∈ v.literals, property c := by
  rw [literals, literalsAll, literalsAll, literalsAll, List.append_nil, List.forall_mem_append]

end

/-! ## Quantities -/

/-- The quantity has the value of the tree at every point. -/
def Denotes (σ : String → P → K) (e : Expr K) (q : P → K) : Prop :=
  ∀ p, e.value? (fun name => some (σ name p)) = some (q p)

variable {R : Rates P K} {D : Definedness K} {σ : String → P → K} {e u v : Expr K} {q r : P → K}
  {a b a' b' : K} {name : String}

namespace Denotes

/-- At the point the quantity is the value of the tree. -/
theorem eq_value (h : e.Denotes σ q) (hv : e.HasValue D (R.lookup σ) a) : q R.point = a :=
  Option.some_inj.1 ((h R.point).symm.trans hv.value?_eq)

/-- An operation on a tree denotes the operation on its quantity. -/
theorem unary {op : UnaryOp} (h : e.Denotes σ q) :
    (Expr.unary op e).Denotes σ fun p => op.apply (q p) := fun p => by
  rw [value?, h p, Option.map_some]

/-- An operation on two trees denotes the operation on their quantities. -/
theorem binary {op : BinaryOp} (hq : u.Denotes σ q) (hr : v.Denotes σ r) :
    (Expr.binary op u v).Denotes σ fun p => op.apply (q p) (r p) := fun p => by
  rw [value?_binary, hq p, hr p]
  rfl

/-- A call denotes the function of the quantity of its argument. -/
theorem call {f : UnaryFunction} (hf : UnaryFunction.ofName? name = some f) (h : e.Denotes σ q) :
    (Expr.call name [e]).Denotes σ fun p => f.apply (q p) := fun p => by
  simp [value?, values?, h p, hf]

/-- A call of two arguments denotes the function of both quantities. -/
theorem call₂ {f : BinaryFunction} (hf : BinaryFunction.ofName? name = some f)
    (hq : u.Denotes σ q) (hr : v.Denotes σ r) :
    (Expr.call name [u, v]).Denotes σ fun p => f.apply (q p) (r p) := fun p => by
  simp [value?, values?, hq p, hr p, hf]

end Denotes

/-! ## Constant trees -/

/-- The tree denotes a quantity that does not change. -/
def Unchanging (R : Rates P K) (σ : String → P → K) (e : Expr K) : Prop :=
  ∃ q, e.Denotes σ q ∧ R.Constant q

/-- A tree without the variable does not change where it has a value. -/
theorem unchanging_of_not_dependsOn {var : String} (hA : R.Arithmetic) (hF : R.Functions D)
    (hother : ∀ name, name ≠ var → R.Constant (σ name)) (hfree : e.dependsOn var = false)
    (hliterals : ∀ c ∈ e.literals, R.Constant fun _ => c) (ha : e.HasValue D (R.lookup σ) a) :
    e.Unchanging R σ := by
  induction ha with
  | const => exact ⟨_, fun _ => rfl, hliterals _ (by simp [literals])⟩
  | @symbol name v h =>
    have hne : name ≠ var := by simpa [dependsOn] using hfree
    exact ⟨_, fun _ => rfl, hother name hne⟩
  | @unary op e a h ih =>
    obtain ⟨q, hq, hconstant⟩ := ih hfree hliterals
    exact ⟨_, hq.unary, hA.constant_unary op hconstant⟩
  | @binary op l r a b hl hr hdefined ihl ihr =>
    obtain ⟨hliteralsl, hliteralsr⟩ := forall_literals_binary.1 hliterals
    simp only [dependsOn, Bool.or_eq_false_iff] at hfree
    obtain ⟨q, hq, hconstantq⟩ := ihl hfree.1 hliteralsl
    obtain ⟨r, hr', hconstantr⟩ := ihr hfree.2 hliteralsr
    refine ⟨_, hq.binary hr', ?_⟩
    by_cases hop : op = .pow
    · subst hop
      rw [← hq.eq_value hl, ← hr'.eq_value hr] at hdefined
      exact hF.constant_pow hdefined hconstantq hconstantr
    · refine hA.constant_binary hop ?_ hconstantq hconstantr
      rintro rfl
      rw [hr'.eq_value hr]
      exact hdefined
  | call hf h hdefined ih =>
    simp only [dependsOn, anyDependsOn, Bool.or_false] at hfree
    obtain ⟨q, hq, hconstant⟩ := ih hfree (forall_literals_call.1 hliterals)
    rw [← hq.eq_value h] at hdefined
    exact ⟨_, hq.call hf, hF.constant_function hdefined hconstant⟩
  | call₂ hf hfirst hsecond hdefined ihfirst ihsecond =>
    obtain ⟨hliteralsq, hliteralsr⟩ := forall_literals_call₂.1 hliterals
    simp only [dependsOn, anyDependsOn, Bool.or_false, Bool.or_eq_false_iff] at hfree
    obtain ⟨q, hq, hconstantq⟩ := ihfirst hfree.1 hliteralsq
    obtain ⟨r, hr, hconstantr⟩ := ihsecond hfree.2 hliteralsr
    rw [← hq.eq_value hfirst, ← hr.eq_value hsecond] at hdefined
    exact ⟨_, hq.call₂ hf hr, hF.constant_function₂ hdefined hconstantq hconstantr⟩

/-! ## Rules of calculus -/

/-- The tree denotes a quantity that changes at the rate. -/
def Changes (R : Rates P K) (σ : String → P → K) (e : Expr K) (b : K) : Prop :=
  ∃ q, e.Denotes σ q ∧ R.HasRate q b

/-- What does not change changes at the rate zero. -/
theorem Unchanging.changes (hA : R.Arithmetic) (h : e.Unchanging R σ) : e.Changes R σ 0 := by
  obtain ⟨q, hq, hconstant⟩ := h
  exact ⟨q, hq, hA.constant hconstant⟩

namespace Changes

/-- The rule for opposites. -/
theorem neg (hA : R.Arithmetic) (h : u.Changes R σ a') : (Expr.unary .neg u).Changes R σ (-a') := by
  obtain ⟨q, hq, hrate⟩ := h
  exact ⟨_, hq.unary, hA.neg hrate⟩

/-- The sum rule. -/
theorem add (hA : R.Arithmetic) (hu : u.Changes R σ a') (hv : v.Changes R σ b') :
    (Expr.binary .add u v).Changes R σ (a' + b') := by
  obtain ⟨q, hq, hrateq⟩ := hu
  obtain ⟨r, hr, hrater⟩ := hv
  exact ⟨_, hq.binary hr, hA.add hrateq hrater⟩

/-- The rule for differences. -/
theorem sub (hA : R.Arithmetic) (hu : u.Changes R σ a') (hv : v.Changes R σ b') :
    (Expr.binary .sub u v).Changes R σ (a' - b') := by
  obtain ⟨q, hq, hrateq⟩ := hu
  obtain ⟨r, hr, hrater⟩ := hv
  exact ⟨_, hq.binary hr, hA.sub hrateq hrater⟩

/-- The product rule. The values at the point are those of the trees. -/
theorem mul (hA : R.Arithmetic) (ha : u.HasValue D (R.lookup σ) a)
    (hb : v.HasValue D (R.lookup σ) b) (hu : u.Changes R σ a') (hv : v.Changes R σ b') :
    (Expr.binary .mul u v).Changes R σ (a' * b + a * b') := by
  obtain ⟨q, hq, hrateq⟩ := hu
  obtain ⟨r, hr, hrater⟩ := hv
  rw [← hq.eq_value ha, ← hr.eq_value hb]
  exact ⟨_, hq.binary hr, hA.mul hrateq hrater⟩

/-- The quotient rule, where the divisor is not zero. -/
theorem div (hA : R.Arithmetic) (ha : u.HasValue D (R.lookup σ) a)
    (hb : v.HasValue D (R.lookup σ) b) (hne : b ≠ 0) (hu : u.Changes R σ a')
    (hv : v.Changes R σ b') :
    (Expr.binary .div u v).Changes R σ ((a' * b - a * b') / b ^ 2) := by
  obtain ⟨q, hq, hrateq⟩ := hu
  obtain ⟨r, hr, hrater⟩ := hv
  rw [← hr.eq_value hb] at hne
  rw [← hq.eq_value ha, ← hr.eq_value hb]
  exact ⟨_, hq.binary hr, hA.div hne hrateq hrater⟩

/-- The rule for powers with an exponent that does not change. -/
theorem powConst (hF : R.Functions D) (ha : u.HasValue D (R.lookup σ) a)
    (hb : v.HasValue D (R.lookup σ) b) (hdefined : D.pow a b) (hlowered : D.pow a (b - 1))
    (hu : u.Changes R σ a') (hv : v.Unchanging R σ) :
    (Expr.binary .pow u v).Changes R σ (b * Scalar.pow a (b - 1) * a') := by
  obtain ⟨q, hq, hrateq⟩ := hu
  obtain ⟨r, hr, hconstant⟩ := hv
  rw [← hq.eq_value ha, ← hr.eq_value hb] at hdefined hlowered ⊢
  exact ⟨_, hq.binary hr, hF.powConst hdefined hlowered hrateq hconstant⟩

/-- The rule for powers with a base that does not change. -/
theorem constPow (hF : R.Functions D) (ha : u.HasValue D (R.lookup σ) a)
    (hb : v.HasValue D (R.lookup σ) b) (hdefined : D.pow a b) (hln : D.unary .ln a)
    (hu : u.Unchanging R σ) (hv : v.Changes R σ b') :
    (Expr.binary .pow u v).Changes R σ (Scalar.pow a b * Scalar.ln a * b') := by
  obtain ⟨q, hq, hconstant⟩ := hu
  obtain ⟨r, hr, hrater⟩ := hv
  rw [← hq.eq_value ha] at hln
  rw [← hq.eq_value ha, ← hr.eq_value hb] at hdefined ⊢
  exact ⟨_, hq.binary hr, hF.constPow hdefined hln hconstant hrater⟩

/-- The rule for powers of which both parts change, where the base has a logarithm and is not zero.
-/
theorem pow (hF : R.Functions D) (ha : u.HasValue D (R.lookup σ) a)
    (hb : v.HasValue D (R.lookup σ) b) (hdefined : D.pow a b) (hln : D.unary .ln a) (hne : a ≠ 0)
    (hu : u.Changes R σ a') (hv : v.Changes R σ b') :
    (Expr.binary .pow u v).Changes R σ
      (Scalar.pow a b * (b' * Scalar.ln a + b * a' / a)) := by
  obtain ⟨q, hq, hrateq⟩ := hu
  obtain ⟨r, hr, hrater⟩ := hv
  rw [← hq.eq_value ha] at hln hne
  rw [← hq.eq_value ha, ← hr.eq_value hb] at hdefined ⊢
  exact ⟨_, hq.binary hr, hF.pow hdefined hln hne hrateq hrater⟩

/-- The chain rule. -/
theorem call {f : UnaryFunction} (hF : R.Functions D) (hf : UnaryFunction.ofName? name = some f)
    (ha : u.HasValue D (R.lookup σ) a) (hdefined : D.unary f a) (hslope : f.SlopeDefined D a)
    (hu : u.Changes R σ a') : (Expr.call name [u]).Changes R σ (f.slope a * a') := by
  obtain ⟨q, hq, hrate⟩ := hu
  rw [← hq.eq_value ha] at hdefined hslope ⊢
  exact ⟨_, hq.call hf, hF.function hdefined hslope hrate⟩

/-- The rule for the angle of a point, but for the origin. -/
theorem atan2 (hF : R.Functions D) (hf : BinaryFunction.ofName? name = some .atan2)
    (ha : u.HasValue D (R.lookup σ) a) (hb : v.HasValue D (R.lookup σ) b)
    (hdefined : D.binary .atan2 a b) (hne : a ^ 2 + b ^ 2 ≠ 0) (hu : u.Changes R σ a')
    (hv : v.Changes R σ b') :
    (Expr.call name [u, v]).Changes R σ ((b * a' - a * b') / (a ^ 2 + b ^ 2)) := by
  obtain ⟨q, hq, hrateq⟩ := hu
  obtain ⟨r, hr, hrater⟩ := hv
  rw [← hq.eq_value ha, ← hr.eq_value hb] at hdefined hne ⊢
  exact ⟨_, hq.call₂ hf hr, hF.atan2 hdefined hne hrateq hrater⟩

end Changes

/-- A logarithm to a base is the quotient of the natural logarithms. -/
theorem value?_log {lookup : String → Option K} (hf : BinaryFunction.ofName? name = some .log) :
    (Expr.call name [u, v]).value? lookup =
      (Expr.binary .div (Expr.call "log" [u]) (Expr.call "log" [v])).value? lookup := by
  have hln : UnaryFunction.ofName? "log" = some .ln := rfl
  rw [value?_binary]
  cases hu : u.value? lookup with
  | none => simp [value?, values?, hu]
  | some a =>
    cases hv : v.value? lookup with
    | none => simp [value?, values?, hu, hv]
    | some b =>
      simp [value?, values?, hu, hv, hf, hln]
      rfl

/-- A logarithm to a base changes as the quotient of the natural logarithms does. -/
theorem Changes.log (hf : BinaryFunction.ofName? name = some .log)
    (h : (Expr.binary .div (Expr.call "log" [u]) (Expr.call "log" [v])).Changes R σ b) :
    (Expr.call name [u, v]).Changes R σ b := by
  obtain ⟨q, hq, hrate⟩ := h
  exact ⟨q, fun p => (value?_log hf).trans (hq p), hrate⟩

end Expr

end SurfaceGeometry
