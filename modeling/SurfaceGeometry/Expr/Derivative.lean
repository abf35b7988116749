import SurfaceGeometry.Expr.Error
import SurfaceGeometry.Expr.Simplify

/-!
# Derivatives

`Expr.derivative` applies the rules of calculus to a tree, one rule per node, and leaves the
result as the rules produce it; `Expr.differentiate` tidies it up. A part of the tree that does
not mention the variable has the derivative zero, whatever it is. On the rest, the logical
operators and the greatest and least of two values have no derivative.
-/

namespace SurfaceGeometry

namespace Expr

variable {α : Type} [Scalar α]

/-- The natural logarithm of a tree. -/
def lnOf (e : Expr α) : Expr α := call "log" [e]

/-- The square of a tree. -/
def squared (e : Expr α) : Expr α := e ^ (const 2 : Expr α)

/-- The derivative of a function of one argument at `u`. The functions with steps have the
derivative zero. -/
def outerDerivative (f : UnaryFunction) (u : Expr α) : Expr α :=
  let one : Expr α := const 1
  match f with
  | .sin => call "cos" [u]
  | .cos => -call "sin" [u]
  | .tan => one / squared (call "cos" [u])
  | .asin => one / call "sqrt" [one - squared u]
  | .acos => -(one / call "sqrt" [one - squared u])
  | .atan => one / (one + squared u)
  | .sinh => call "cosh" [u]
  | .cosh => call "sinh" [u]
  | .tanh => one - squared (call "tanh" [u])
  | .exp => call "exp" [u]
  | .ln => one / u
  | .log10 => one / (u * const Scalar.lnTen)
  | .sqrt => one / (const 2 * call "sqrt" [u])
  | .abs => call "sign" [u]
  | .sign => const 0
  | .ceil => const 0
  | .floor => const 0
  | .round => const 0

/-- The quotient rule: the derivative of `u / v` from those of `u` and `v`. -/
def quotientRule (u du v dv : Expr α) : Expr α :=
  (du * v - u * dv) / squared v

/-- The exponent `n - 1` of the power rule; a literal exponent is lowered at once. -/
def lowered (exponent : Expr α) : Expr α :=
  match exponent.constant? with
  | some n => const (n - 1)
  | none => exponent - const 1

/-- The derivative of `ln u` from that of `u`. -/
def lnRule (var : String) (u du : Expr α) : Expr α :=
  if u.dependsOn var then const 1 / u * du else const 0

/-- The raw derivative of a tree with respect to a variable. -/
def derivative (var : String) : Expr α → Except (ExprError α) (Expr α)
  | const _ => .ok (const 0)
  | symbol name => .ok (const (if name = var then 1 else 0))
  | unary op operand =>
    if (unary op operand).dependsOn var then
      match op with
      | .neg => return -(← derivative var operand)
      | .not => .error (.notDifferentiable (.logical "not"))
    else .ok (const 0)
  | binary op u v =>
    if (binary op u v).dependsOn var then
      match op with
      | .add => return (← derivative var u) + (← derivative var v)
      | .sub => return (← derivative var u) - (← derivative var v)
      | .mul => do
        let du ← derivative var u
        let dv ← derivative var v
        return du * v + u * dv
      | .div => do
        let du ← derivative var u
        let dv ← derivative var v
        return quotientRule u du v dv
      | .pow =>
        if !v.dependsOn var then
          return v * u ^ lowered v * (← derivative var u)
        else if !u.dependsOn var then
          return u ^ v * lnOf u * (← derivative var v)
        else do
          let du ← derivative var u
          let dv ← derivative var v
          return u ^ v * (dv * lnOf u + v * du / u)
      | .and => .error (.notDifferentiable (.logical BinaryOp.and.symbol))
      | .or => .error (.notDifferentiable (.logical BinaryOp.or.symbol))
    else .ok (const 0)
  | call name [u] =>
    if (call name [u]).dependsOn var then
      match UnaryFunction.ofName? name with
      | some f => return outerDerivative f u * (← derivative var u)
      | none => .error (.unknownFunction name)
    else .ok (const 0)
  | call name [a, b] =>
    if (call name [a, b]).dependsOn var then
      match BinaryFunction.ofName? name with
      | some .atan2 => do
        let da ← derivative var a
        let db ← derivative var b
        return (b * da - a * db) / (squared a + squared b)
      | some .log => do
        let da ← derivative var a
        let db ← derivative var b
        return quotientRule (lnOf a) (lnRule var a da) (lnOf b) (lnRule var b db)
      | some .max => .error (.notDifferentiable (.extremum name))
      | some .min => .error (.notDifferentiable (.extremum name))
      | none => .error (.unknownFunction name)
    else .ok (const 0)
  | call name args =>
    if (call name args).dependsOn var then
      .error (.notDifferentiable (.callWith name args.length))
    else .ok (const 0)

/-- The simplified derivative of a tree with respect to a variable. -/
def differentiate (var : String) (e : Expr α) : Except (ExprError α) (Expr α) :=
  (e.derivative var).map simplify

end Expr

end SurfaceGeometry
