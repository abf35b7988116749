import SurfaceGeometry.Expr.Basic

/-!
# The value of an expression

`Expr.value?` evaluates a tree directly, by recursion, under an assignment of numbers to symbols.
It is the meaning against which the compiled form is measured. A symbol without a number, or a
call that no table has, leaves the tree without a value.

A power with a literal exponent that is a whole number of magnitude 64 at most is computed by
repeated squaring (`Expr.wholeExponent?`), every other one by the power of real numbers.
-/

namespace SurfaceGeometry

/-- The value of a unary operator. -/
def UnaryOp.apply {α : Type} [Scalar α] : UnaryOp → α → α
  | neg, a => -a
  | not, a => Scalar.ofBool (!Scalar.truthy a)

/-- The value of a binary operator. -/
def BinaryOp.apply {α : Type} [Scalar α] : BinaryOp → α → α → α
  | add, a, b => a + b
  | sub, a, b => a - b
  | mul, a, b => a * b
  | div, a, b => a / b
  | pow, a, b => Scalar.pow a b
  | and, a, b => Scalar.ofBool (Scalar.truthy a && Scalar.truthy b)
  | or, a, b => Scalar.ofBool (Scalar.truthy a || Scalar.truthy b)

namespace Expr

variable {α : Type} [Scalar α]

/-- The exponent of a power that is computed by repeated squaring. -/
def wholeExponent? (exponent : Expr α) : Option Int :=
  (exponent.constant?.bind Scalar.toInt?).filter fun n => n.natAbs ≤ 64

mutual

/-- The value of a tree when symbols have the values of `lookup`. -/
def value? (lookup : String → Option α) : Expr α → Option α
  | const value => some value
  | symbol name => lookup name
  | unary op operand => (operand.value? lookup).map op.apply
  | binary .pow base exponent =>
    match wholeExponent? exponent with
    | some n => (base.value? lookup).map (Scalar.powInt · n)
    | none => do return Scalar.pow (← base.value? lookup) (← exponent.value? lookup)
  | binary op left right => do return op.apply (← left.value? lookup) (← right.value? lookup)
  | call name args =>
    match values? lookup args with
    | some [a] => (UnaryFunction.ofName? name).map (·.apply a)
    | some [a, b] => (BinaryFunction.ofName? name).map (·.apply a b)
    | _ => none

/-- The values of all trees of a list. -/
def values? (lookup : String → Option α) : List (Expr α) → Option (List α)
  | [] => some []
  | arg :: args => do return (← arg.value? lookup) :: (← values? lookup args)

end

end Expr

end SurfaceGeometry
