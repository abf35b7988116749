import SurfaceGeometry.Expr.Simplify

/-!
# The rules of simplification

`Expr.Rewrite e e'` has one rule for each way in which a node with simplified operands becomes
another tree, and what a pass does to a node is one of them, or nothing
(`Expr.rewrite_simplifyUnary`, `Expr.rewrite_simplifyBinary`, `Expr.rewrite_fold`). So a relation of
trees that is a congruence and holds of the rules holds of a whole pass and of the repeated ones
(`Expr.Congruence.simplify`).
-/

namespace SurfaceGeometry

namespace Expr

variable {α : Type} [Scalar α]

/-- A node becomes another tree by one rule. -/
inductive Rewrite : Expr α → Expr α → Prop where
  | same {e} : Rewrite e e
  | negConst {c} : Rewrite (.unary .neg (.const c)) (.const (-c))
  | negNeg {e} : Rewrite (.unary .neg (.unary .neg e)) e
  | notConst {c} : Rewrite (.unary .not (.const c)) (.const (if c == 0 then 1 else 0))
  | foldBinary {op a b} (finite : Scalar.isFinite (op.apply a b) = true) :
      Rewrite (.binary op (.const a) (.const b)) (.const (op.apply a b))
  | foldCall {name f a} (function : UnaryFunction.ofName? name = some f)
      (finite : Scalar.isFinite (f.apply a) = true) :
      Rewrite (.call name [.const a]) (.const (f.apply a))
  | foldCall₂ {name f a b} (function : BinaryFunction.ofName? name = some f)
      (finite : Scalar.isFinite (f.apply a b) = true) :
      Rewrite (.call name [.const a, .const b]) (.const (f.apply a b))
  | zeroAdd {c e} (zero : (c == 0) = true) : Rewrite (.binary .add (.const c) e) e
  | addZero {c e} (zero : (c == 0) = true) : Rewrite (.binary .add e (.const c)) e
  | addNeg {l r} : Rewrite (.binary .add l (.unary .neg r)) (.binary .sub l r)
  | negAdd {l r} : Rewrite (.binary .add (.unary .neg l) r) (.binary .sub r l)
  | subZero {c e} (zero : (c == 0) = true) : Rewrite (.binary .sub e (.const c)) e
  | zeroSub {c e} (zero : (c == 0) = true) : Rewrite (.binary .sub (.const c) e) (.unary .neg e)
  | subNeg {l r} : Rewrite (.binary .sub l (.unary .neg r)) (.binary .add l r)
  | subSelf {l r} (equal : (l == r) = true) : Rewrite (.binary .sub l r) (.const 0)
  | zeroMul {c e} (zero : (c == 0) = true) : Rewrite (.binary .mul (.const c) e) (.const 0)
  | mulZero {c e} (zero : (c == 0) = true) : Rewrite (.binary .mul e (.const c)) (.const 0)
  | oneMul {c e} (one : (c == 1) = true) : Rewrite (.binary .mul (.const c) e) e
  | mulOne {c e} (one : (c == 1) = true) : Rewrite (.binary .mul e (.const c)) e
  | minusOneMul {c e} (minusOne : (c == -1) = true) :
      Rewrite (.binary .mul (.const c) e) (.unary .neg e)
  | mulMinusOne {c e} (minusOne : (c == -1) = true) :
      Rewrite (.binary .mul e (.const c)) (.unary .neg e)
  /-- A constant moves to the left, where another rule can follow. -/
  | mulConst {c e e'} (h : Rewrite (.binary .mul (.const c) e) e') :
      Rewrite (.binary .mul e (.const c)) e'
  | mergeConst {a b e} : Rewrite (.binary .mul (.const a) (.binary .mul (.const b) e))
      (.binary .mul (.const (a * b)) e)
  | negMulNeg {l r} :
      Rewrite (.binary .mul (.unary .neg l) (.unary .neg r)) (.binary .mul l r)
  | negMul {l r} : Rewrite (.binary .mul (.unary .neg l) r) (.unary .neg (.binary .mul l r))
  | mulNeg {l r} : Rewrite (.binary .mul l (.unary .neg r)) (.unary .neg (.binary .mul l r))
  | zeroDiv {c e} (zero : (c == 0) = true) : Rewrite (.binary .div (.const c) e) (.const 0)
  | divOne {c e} (one : (c == 1) = true) : Rewrite (.binary .div e (.const c)) e
  | negDiv {l r} : Rewrite (.binary .div (.unary .neg l) r) (.unary .neg (.binary .div l r))
  | powZero {c e} (zero : (c == 0) = true) : Rewrite (.binary .pow e (.const c)) (.const 1)
  | powOne {c e} (one : (c == 1) = true) : Rewrite (.binary .pow e (.const c)) e
  | onePow {c e} (one : (c == 1) = true) : Rewrite (.binary .pow (.const c) e) (.const 1)

/-! ## What a pass does to a node -/

/-- What is tested to be a constant is one, with a value that is equal to the one of the test. -/
theorem exists_const_of_isConst {value : α} {e : Expr α} (h : isConst value e = true) :
    ∃ c, e = const c ∧ (c == value) = true := by
  cases e with
  | const c => exact ⟨c, rfl, h⟩
  | symbol | unary | binary | call => cases h

/-- A constant is folded only if it is finite, and to itself. -/
theorem finite?_eq_some {value : α} {e : Expr α} (h : finite? value = some e) :
    Scalar.isFinite value = true ∧ e = const value := by
  unfold finite? at h
  split at h
  · next hfinite =>
    cases h
    exact ⟨hfinite, rfl⟩
  · cases h

/-- What becomes of an operation on one tree is a rewriting by the rules. -/
theorem rewrite_simplifyUnary (op : UnaryOp) (operand : Expr α) :
    Rewrite (unary op operand) (simplifyUnary op operand) := by
  unfold simplifyUnary
  split
  · exact .negConst
  · exact .negNeg
  · exact .notConst
  · exact .same

/-- What becomes of a sum is a rewriting by the rules. -/
theorem rewrite_simplifySum (left right : Expr α) :
    Rewrite (binary .add left right) (simplifySum left right) := by
  unfold simplifySum
  split
  · next h =>
    obtain ⟨c, rfl, hc⟩ := exists_const_of_isConst h
    exact .zeroAdd hc
  · split
    · next h =>
      obtain ⟨c, rfl, hc⟩ := exists_const_of_isConst h
      exact .addZero hc
    · split
      · exact .addNeg
      · exact .negAdd
      · exact .same

/-- What becomes of a difference is a rewriting by the rules. -/
theorem rewrite_simplifyDifference (left right : Expr α) :
    Rewrite (binary .sub left right) (simplifyDifference left right) := by
  unfold simplifyDifference
  split
  · next h =>
    obtain ⟨c, rfl, hc⟩ := exists_const_of_isConst h
    exact .subZero hc
  · split
    · next h =>
      obtain ⟨c, rfl, hc⟩ := exists_const_of_isConst h
      exact .zeroSub hc
    · split
      · exact .subNeg
      · split
        · next hequal => exact .subSelf hequal
        · exact .same

/-- What becomes of a product without neutral factors is a rewriting by the rules. -/
theorem rewrite_simplifyFactors (left right : Expr α) :
    Rewrite (binary .mul left right) (simplifyFactors left right) := by
  unfold simplifyFactors
  split
  · exact .mergeConst
  · exact .same
  · exact .negMulNeg
  · exact .negMul
  · exact .mulNeg
  · exact .same

/-- What becomes of a product is a rewriting by the rules, also where its constant is moved to the
left. -/
theorem rewrite_simplifyProduct (left right : Expr α) :
    Rewrite (binary .mul left right) (simplifyProduct left right) := by
  unfold simplifyProduct
  split
  · next h =>
    rcases Bool.or_eq_true_iff.1 h with h | h <;> obtain ⟨c, rfl, hc⟩ := exists_const_of_isConst h
    · exact .zeroMul hc
    · exact .mulZero hc
  split
  · next h =>
    obtain ⟨c, rfl, hc⟩ := exists_const_of_isConst h
    exact .oneMul hc
  split
  · next h =>
    obtain ⟨c, rfl, hc⟩ := exists_const_of_isConst h
    exact .mulOne hc
  split
  · next h =>
    obtain ⟨c, rfl, hc⟩ := exists_const_of_isConst h
    exact .minusOneMul hc
  split
  · next h =>
    obtain ⟨c, rfl, hc⟩ := exists_const_of_isConst h
    exact .mulMinusOne hc
  split
  · exact .mulConst (rewrite_simplifyFactors _ _)
  · exact rewrite_simplifyFactors _ _

/-- What becomes of a quotient is a rewriting by the rules. -/
theorem rewrite_simplifyQuotient (left right : Expr α) :
    Rewrite (binary .div left right) (simplifyQuotient left right) := by
  unfold simplifyQuotient
  split
  · next h =>
    obtain ⟨c, rfl, hc⟩ := exists_const_of_isConst h
    exact .zeroDiv hc
  · split
    · next h =>
      obtain ⟨c, rfl, hc⟩ := exists_const_of_isConst h
      exact .divOne hc
    · split
      · exact .negDiv
      · exact .same

/-- What becomes of a power is a rewriting by the rules. -/
theorem rewrite_simplifyPower (left right : Expr α) :
    Rewrite (binary .pow left right) (simplifyPower left right) := by
  unfold simplifyPower
  split
  · next h =>
    obtain ⟨c, rfl, hc⟩ := exists_const_of_isConst h
    exact .powZero hc
  · split
    · next h =>
      obtain ⟨c, rfl, hc⟩ := exists_const_of_isConst h
      exact .powOne hc
    · split
      · next h =>
        obtain ⟨c, rfl, hc⟩ := exists_const_of_isConst h
        exact .onePow hc
      · exact .same

/-- Constants are folded where that gives a finite number, and otherwise the identities are tried.
-/
theorem rewrite_simplifyBinary (op : BinaryOp) (left right : Expr α) :
    Rewrite (binary op left right) (simplifyBinary op left right) := by
  unfold simplifyBinary
  cases hfold : foldBinary? op left right with
  | some e =>
    unfold foldBinary? at hfold
    split at hfold
    · obtain ⟨hfinite, rfl⟩ := finite?_eq_some hfold
      exact .foldBinary hfinite
    · cases hfold
  | none =>
    cases op with
    | add => exact rewrite_simplifySum left right
    | sub => exact rewrite_simplifyDifference left right
    | mul => exact rewrite_simplifyProduct left right
    | div => exact rewrite_simplifyQuotient left right
    | pow => exact rewrite_simplifyPower left right
    | and | or => exact .same

/-- What becomes of a call is a rewriting by the rules: it is folded or stays. -/
theorem rewrite_fold (name : String) (args : List (Expr α)) :
    Rewrite (call name args) ((foldCall? name args).getD (call name args)) := by
  cases hfold : foldCall? name args with
  | some e =>
    unfold foldCall? at hfold
    split at hfold
    · obtain ⟨f, hf, hfold⟩ := Option.bind_eq_some_iff.1 hfold
      obtain ⟨hfinite, rfl⟩ := finite?_eq_some hfold
      exact .foldCall hf hfinite
    · obtain ⟨f, hf, hfold⟩ := Option.bind_eq_some_iff.1 hfold
      obtain ⟨hfinite, rfl⟩ := finite?_eq_some hfold
      exact .foldCall₂ hf hfinite
    · cases hfold
  | none => exact .same

/-! ## Whole passes -/

/-- A relation of trees that can be concluded part by part, and in several steps. -/
structure Congruence (P : Expr α → Expr α → Prop) : Prop where
  refl (e) : P e e
  trans {e e' e''} : P e e' → P e' e'' → P e e''
  unary (op) {e e'} : P e e' → P (unary op e) (unary op e')
  binary (op) {l l' r r'} : P l l' → P r r' → P (binary op l r) (binary op l' r')
  call (name) {args : List (Expr α)} {f : Expr α → Expr α} :
    (∀ arg ∈ args, P arg (f arg)) → P (call name args) (call name (args.map f))

namespace Congruence

variable {P : Expr α → Expr α → Prop}

/-- What every rule obeys, a pass obeys. -/
theorem simplifyOnce (hP : Congruence P) (hrule : ∀ {e e'}, Rewrite e e' → P e e') (e : Expr α) :
    P e e.simplifyOnce := by
  induction e with
  | const value => exact hP.refl _
  | symbol name => exact hP.refl _
  | unary op operand ih => exact hP.trans (hP.unary op ih) (hrule (rewrite_simplifyUnary op _))
  | binary op left right ihl ihr =>
    exact hP.trans (hP.binary op ihl ihr) (hrule (rewrite_simplifyBinary op _ _))
  | call name args ih =>
    rw [Expr.simplifyOnce, simplifyAll_eq]
    exact hP.trans (hP.call name ih) (hrule (rewrite_fold name _))

/-- What every rule obeys, any number of passes obeys. -/
theorem simplifyWithin (hP : Congruence P) (hrule : ∀ {e e'}, Rewrite e e' → P e e') (passes : Nat)
    (e : Expr α) : P e (e.simplifyWithin passes) := by
  induction passes generalizing e with
  | zero => exact hP.refl e
  | succ passes ih =>
    rw [Expr.simplifyWithin]
    split
    · exact hP.refl e
    · exact hP.trans (hP.simplifyOnce hrule e) (ih e.simplifyOnce)

/-- What is concluded part by part and holds of every rule holds of a tree and the simplified one.
-/
theorem simplify (hP : Congruence P) (hrule : ∀ {e e'}, Rewrite e e' → P e e') (e : Expr α) :
    P e e.simplify :=
  hP.simplifyWithin hrule 8 e

end Congruence

end Expr

end SurfaceGeometry
