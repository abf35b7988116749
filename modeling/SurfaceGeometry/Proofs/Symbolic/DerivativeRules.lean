import SurfaceGeometry.Expr.Derivative
import SurfaceGeometry.Proofs.Outcome

/-!
# The rules of differentiation

`Expr.Differentiates var e d` has one rule for each way in which a tree comes by its derivative, and
a derivative that is found is found by them (`Expr.differentiates_of_derivative`). A power has three
rules, by which of its two sides mention the variable. There is one lemma for each kind of node,
which takes the derivatives of the parts as given, and each first puts aside the trees without the
variable (`Expr.Differentiates.of_rule`).
-/

namespace SurfaceGeometry

namespace Expr

variable {α : Type} [Scalar α] {var : String}

/-- A tree has a derivative by the rules. -/
inductive Differentiates (var : String) : Expr α → Expr α → Prop where
  /-- What does not mention the variable has the derivative zero. -/
  | free {e} (h : e.dependsOn var = false) : Differentiates var e (.const 0)
  | self : Differentiates var (.symbol var) (.const 1)
  | neg {u du} (h : Differentiates var u du) : Differentiates var (.unary .neg u) (-du)
  | add {u v du dv} (hu : Differentiates var u du) (hv : Differentiates var v dv) :
      Differentiates var (.binary .add u v) (du + dv)
  | sub {u v du dv} (hu : Differentiates var u du) (hv : Differentiates var v dv) :
      Differentiates var (.binary .sub u v) (du - dv)
  | mul {u v du dv} (hu : Differentiates var u du) (hv : Differentiates var v dv) :
      Differentiates var (.binary .mul u v) (du * v + u * dv)
  | div {u v du dv} (hu : Differentiates var u du) (hv : Differentiates var v dv) :
      Differentiates var (.binary .div u v) (quotientRule u du v dv)
  | powConst {u v du} (free : v.dependsOn var = false) (hu : Differentiates var u du) :
      Differentiates var (.binary .pow u v) (v * u ^ lowered v * du)
  | constPow {u v dv} (free : u.dependsOn var = false) (hv : Differentiates var v dv) :
      Differentiates var (.binary .pow u v) (u ^ v * lnOf u * dv)
  | pow {u v du dv} (hu : Differentiates var u du) (hv : Differentiates var v dv) :
      Differentiates var (.binary .pow u v) (u ^ v * (dv * lnOf u + v * du / u))
  | call {name f u du} (function : UnaryFunction.ofName? name = some f)
      (hu : Differentiates var u du) :
      Differentiates var (.call name [u]) (outerDerivative f u * du)
  | atan2 {name a b da db} (function : BinaryFunction.ofName? name = some .atan2)
      (ha : Differentiates var a da) (hb : Differentiates var b db) :
      Differentiates var (.call name [a, b]) ((b * da - a * db) / (squared a + squared b))
  | log {name a b da db} (function : BinaryFunction.ofName? name = some .log)
      (ha : Differentiates var a da) (hb : Differentiates var b db) :
      Differentiates var (.call name [a, b])
        (quotientRule (lnOf a) (lnRule var a da) (lnOf b) (lnRule var b db))

/-- A tree without the variable has the derivative zero, and is not looked into: a part of it that
has no derivative does no harm. -/
theorem derivative_of_not_dependsOn {e : Expr α} (h : e.dependsOn var = false) :
    e.derivative var = .ok (const 0) := by
  unfold derivative
  split
  · rfl
  · next name =>
    have hne : name ≠ var := by simpa [dependsOn] using h
    rw [if_neg hne]
  all_goals rw [if_neg (Bool.eq_false_iff.1 h)]

/-! ## Derivatives that are found -/

section
variable {u v d : Expr α}

/-- A rule has to be found only for what mentions the variable. -/
theorem Differentiates.of_rule {e : Expr α} (h : e.derivative var = .ok d)
    (hrule : e.dependsOn var = true → Differentiates var e d) : Differentiates var e d := by
  cases hdep : e.dependsOn var with
  | false =>
    cases (derivative_of_not_dependsOn hdep).symm.trans h
    exact .free hdep
  | true => exact hrule hdep

/-- The derivative of an operation on one tree comes by a rule, if that of the tree does. -/
theorem differentiates_of_derivative_unary {op : UnaryOp}
    (ih : ∀ {du}, u.derivative var = .ok du → Differentiates var u du)
    (h : (unary op u).derivative var = .ok d) : Differentiates var (unary op u) d := by
  refine .of_rule h fun hdep => ?_
  cases op with
  | neg =>
    rw [derivative, if_pos hdep] at h
    obtain ⟨du, hu, h⟩ := Outcome.bind_eq_ok.1 h
    cases h
    exact .neg (ih hu)
  | not =>
    rw [derivative, if_pos hdep] at h
    cases h

/-- The derivative of a power comes by one of the three rules. The operand without the variable is
not differentiated. -/
theorem differentiates_of_derivative_pow
    (ihu : ∀ {du}, u.derivative var = .ok du → Differentiates var u du)
    (ihv : ∀ {dv}, v.derivative var = .ok dv → Differentiates var v dv)
    (hdep : (binary .pow u v).dependsOn var = true)
    (h : (binary .pow u v).derivative var = .ok d) : Differentiates var (binary .pow u v) d := by
  rw [derivative, if_pos hdep] at h
  split at h
  · next hfree =>
    obtain ⟨du, hu, h⟩ := Outcome.bind_eq_ok.1 h
    cases h
    exact .powConst (by simpa using hfree) (ihu hu)
  split at h
  · next hfree =>
    obtain ⟨dv, hv, h⟩ := Outcome.bind_eq_ok.1 h
    cases h
    exact .constPow (by simpa using hfree) (ihv hv)
  · obtain ⟨du, hu, h⟩ := Outcome.bind_eq_ok.1 h
    obtain ⟨dv, hv, h⟩ := Outcome.bind_eq_ok.1 h
    cases h
    exact .pow (ihu hu) (ihv hv)

/-- The derivative of an operation on two trees comes by a rule, if those of the trees do. -/
theorem differentiates_of_derivative_binary {op : BinaryOp}
    (ihu : ∀ {du}, u.derivative var = .ok du → Differentiates var u du)
    (ihv : ∀ {dv}, v.derivative var = .ok dv → Differentiates var v dv)
    (h : (binary op u v).derivative var = .ok d) : Differentiates var (binary op u v) d := by
  refine .of_rule h fun hdep => ?_
  have hrule := h
  unfold derivative at hrule
  rw [if_pos hdep] at hrule
  cases op with
  | pow => exact differentiates_of_derivative_pow ihu ihv hdep h
  -- The other operators differentiate both operands, whichever of them mentions the variable.
  | add =>
    obtain ⟨du, hu, hrule⟩ := Outcome.bind_eq_ok.1 hrule
    obtain ⟨dv, hv, hrule⟩ := Outcome.bind_eq_ok.1 hrule
    cases hrule
    exact .add (ihu hu) (ihv hv)
  | sub =>
    obtain ⟨du, hu, hrule⟩ := Outcome.bind_eq_ok.1 hrule
    obtain ⟨dv, hv, hrule⟩ := Outcome.bind_eq_ok.1 hrule
    cases hrule
    exact .sub (ihu hu) (ihv hv)
  | mul =>
    obtain ⟨du, hu, hrule⟩ := Outcome.bind_eq_ok.1 hrule
    obtain ⟨dv, hv, hrule⟩ := Outcome.bind_eq_ok.1 hrule
    cases hrule
    exact .mul (ihu hu) (ihv hv)
  | div =>
    obtain ⟨du, hu, hrule⟩ := Outcome.bind_eq_ok.1 hrule
    obtain ⟨dv, hv, hrule⟩ := Outcome.bind_eq_ok.1 hrule
    cases hrule
    exact .div (ihu hu) (ihv hv)
  | and | or => cases hrule

/-- The derivative of a call comes by a rule, if those of the arguments do. -/
theorem differentiates_of_derivative_call {name : String} {args : List (Expr α)}
    (ih : ∀ arg ∈ args, ∀ {d}, arg.derivative var = .ok d → Differentiates var arg d)
    (h : (Expr.call name args).derivative var = .ok d) :
    Differentiates var (Expr.call name args) d := by
  refine .of_rule h fun hdep => ?_
  match args with
  | [] =>
    unfold derivative at h
    rw [if_pos hdep] at h
    cases h
  | [u] =>
    rw [derivative, if_pos hdep] at h
    split at h
    · next f hf =>
      obtain ⟨du, hu, h⟩ := Outcome.bind_eq_ok.1 h
      cases h
      exact .call hf (ih u (by simp) hu)
    · cases h
  | [a, b] =>
    rw [derivative, if_pos hdep] at h
    split at h
    · next hf =>
      obtain ⟨da, ha, h⟩ := Outcome.bind_eq_ok.1 h
      obtain ⟨db, hb, h⟩ := Outcome.bind_eq_ok.1 h
      cases h
      exact .atan2 hf (ih a (by simp) ha) (ih b (by simp) hb)
    · next hf =>
      obtain ⟨da, ha, h⟩ := Outcome.bind_eq_ok.1 h
      obtain ⟨db, hb, h⟩ := Outcome.bind_eq_ok.1 h
      cases h
      exact .log hf (ih a (by simp) ha) (ih b (by simp) hb)
    -- The greatest and the least of two values, and unknown names, have no derivative.
    all_goals cases h
  | _ :: _ :: _ :: _ =>
    unfold derivative at h
    rw [if_pos hdep] at h
    cases h

end

/-- A derivative that is found is one by the rules. -/
theorem differentiates_of_derivative {e d : Expr α} (h : e.derivative var = .ok d) :
    Differentiates var e d := by
  induction e generalizing d with
  | const value =>
    cases h
    exact .free rfl
  | symbol name =>
    cases h
    split
    · next hname =>
      subst hname
      exact .self
    · next hname => exact .free (by simpa [dependsOn] using hname)
  | unary op operand ih => exact differentiates_of_derivative_unary ih h
  | binary op u v ihu ihv => exact differentiates_of_derivative_binary ihu ihv h
  | call name args ih => exact differentiates_of_derivative_call (fun arg harg => ih arg harg) h

end Expr

end SurfaceGeometry
