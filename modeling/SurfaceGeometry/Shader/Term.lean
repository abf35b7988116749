import SurfaceGeometry.Expr.Error
import SurfaceGeometry.Expr.Basic

/-!
# Shader terms

Expressions as a GLSL shader computes them, over `float` alone. A `Shader.Term` has the operators
and functions that GLSL has; `Shader.Term.ofExpr` translates a tree into one, and
`Shader.Term.text` writes it. Every binary operation is written in brackets, so no reader needs
the order of precedence except for prefix operators.

GLSL has no powers of negative numbers, so squares and cubes are written as products; it has no
logarithm to another base than its own, so the others are quotients; and it has no number that is
not finite.
-/

namespace SurfaceGeometry

namespace Shader

/-- The prefix operators of GLSL that terms use. -/
inductive PrefixOp where
  | minus
  | negation
deriving DecidableEq, Repr

/-- The binary operators of GLSL that terms use. -/
inductive InnerOp where
  | add
  | sub
  | mul
  | div
  | conjunction
  | disjunction
deriving DecidableEq, Repr

/-- An expression of a shader. -/
inductive Term (α : Type) where
  | literal (value : α)
  | name (text : String)
  | prefixed (op : PrefixOp) (operand : Term α)
  | operation (op : InnerOp) (left right : Term α)
  /-- The product of a term with itself and itself again. -/
  | cube (base : Term α)
  | call (function : String) (args : List (Term α))
deriving Inhabited, Repr

/-- How a prefix operator is written. -/
def PrefixOp.text : PrefixOp → String
  | minus => "-"
  | negation => "!"

/-- How a binary operator is written. -/
def InnerOp.text : InnerOp → String
  | add => "+"
  | sub => "-"
  | mul => "*"
  | div => "/"
  | conjunction => "&&"
  | disjunction => "||"

/-! ## Writing -/

/-- The text of a magnitude, with a decimal point always. -/
def magnitudeText {α : Type} [NumberText α] (magnitude : α) : String :=
  let text := NumberText.positional magnitude
  if text.toList.contains '.' then text else text ++ ".0"

/-- The text of a finite number. Negative numbers are in brackets, so that they can follow every
operator; zero is written without its sign. -/
def literalText {α : Type} [Scalar α] [NumberText α] (value : α) : String :=
  let text := magnitudeText (Scalar.abs value)
  if value < 0 then "(-" ++ text ++ ")" else text

/-- The text of a number as a literal, if it is finite. -/
def literal? {α : Type} [Scalar α] [NumberText α] (value : α) : Except (ExprError α) String :=
  if Scalar.isFinite value then .ok (literalText value) else .error (.nonFiniteConstant value)

/-- Whether a text shows an arithmetic operator. -/
def showsOperator (text : String) : Bool :=
  text.toList.any fun c => c == '+' || c == '-' || c == '*' || c == '/'

namespace Term

variable {α : Type} [Scalar α]

mutual

/-- The text of a term. The operand of a prefix operator is in brackets if an arithmetic operator
shows in it. -/
def text [NumberText α] : Term α → String
  | literal value => literalText value
  | name text => text
  | prefixed op operand =>
    let inner := operand.text
    op.text ++ (if showsOperator inner then "(" ++ inner ++ ")" else inner)
  | operation op left right => "(" ++ left.text ++ " " ++ op.text ++ " " ++ right.text ++ ")"
  | cube base =>
    let factor := base.text
    "(" ++ factor ++ " * " ++ factor ++ " * " ++ factor ++ ")"
  | call function args => function ++ "(" ++ textAll args ++ ")"

/-- The texts of the arguments of a call, with commas between them. -/
def textAll [NumberText α] : List (Term α) → String
  | [] => ""
  | [arg] => arg.text
  | arg :: next :: rest => arg.text ++ ", " ++ textAll (next :: rest)

end

/-! ## Terms of trees -/

/-- A finite number as a literal. -/
def ofNumber (value : α) : Except (ExprError α) (Term α) :=
  if Scalar.isFinite value then .ok (literal value) else .error (.nonFiniteConstant value)

/-- The functions of one argument that have the same name in GLSL. -/
def sharedUnary : List String :=
  ["sin", "cos", "tan", "asin", "acos", "atan", "sinh", "cosh", "tanh", "exp", "log", "sqrt",
    "abs", "sign", "ceil", "floor", "round"]

/-- The functions of two arguments that have the same name in GLSL. -/
def sharedBinary : List String := ["max", "min"]

/-- The arities that messages name for a function called with the wrong number of arguments. -/
def expectedArities (function : String) : Arities :=
  if function = "log" then .oneOrTwo
  else if function = "atan2" ∨ function = "max" ∨ function = "min" then .two
  else .one

/-- The failure of a call that GLSL has no function for. -/
def callError (function : String) (found : Nat) : ExprError α :=
  if (UnaryFunction.ofName? function).isSome || (BinaryFunction.ofName? function).isSome then
    .arity function (expectedArities function) found
  else .unsupportedByShader function

/-- A call in GLSL. -/
def ofCall (function : String) (args : List (Term α)) : Except (ExprError α) (Term α) :=
  match args with
  | [x] =>
    if function = "log" ∨ function = "ln" then .ok (call "log" [x])
    else if function = "log10" then
      return operation .div (call "log" [x]) (← ofNumber Scalar.lnTen)
    else if function ∈ sharedUnary then .ok (call function [x])
    else .error (callError function 1)
  | [x, y] =>
    if function = "log" then .ok (operation .div (call "log" [x]) (call "log" [y]))
    else if function = "atan2" then .ok (call "atan" [x, y])
    else if function ∈ sharedBinary then .ok (call function [x, y])
    else .error (callError function 2)
  | args => .error (callError function args.length)

/-- A power in GLSL. Of a literal exponent from zero to three the power is written out. -/
def ofPower (base : Term α) (literalExponent : Option α)
    (exponent : Except (ExprError α) (Term α)) : Except (ExprError α) (Term α) :=
  let general : Except (ExprError α) (Term α) := return call "pow" [base, ← exponent]
  match literalExponent with
  | some n =>
    if n == 0 then .ok (literal 1)
    else if n == 1 then .ok base
    else if n == 2 then .ok (operation .mul base base)
    else if n == 3 then .ok (cube base)
    else general
  | none => general

/-- The operator between two terms that a binary operator is in GLSL, which the power is not. -/
def innerOp? : BinaryOp → Option InnerOp
  | .add => some .add
  | .sub => some .sub
  | .mul => some .mul
  | .div => some .div
  | .pow => none
  | .and => some .conjunction
  | .or => some .disjunction

/-- The prefix operator of an operator of one operand. -/
def prefixOp : UnaryOp → PrefixOp
  | .neg => .minus
  | .not => .negation

mutual

/-- The term that computes a tree. -/
def ofExpr : Expr α → Except (ExprError α) (Term α)
  | .const value => ofNumber value
  | .symbol text =>
    match Scalar.named? text with
    | some value => ofNumber value
    | none => .ok (name text)
  | .unary op operand => return prefixed (prefixOp op) (← ofExpr operand)
  | .binary op left right =>
    match innerOp? op with
    | some inner => do
      let left ← ofExpr left
      let right ← ofExpr right
      return operation inner left right
    | none => do ofPower (← ofExpr left) right.constant? (ofExpr right)
  | .call function args => do
    ofCall function (← ofExprs args)

/-- The terms that compute the trees of a list. -/
def ofExprs : List (Expr α) → Except (ExprError α) (List (Term α))
  | [] => .ok []
  | arg :: args => do
    let arg ← ofExpr arg
    let args ← ofExprs args
    return arg :: args

end

end Term

end Shader

/-- The GLSL text of a tree. -/
def Expr.shader {α : Type} [Scalar α] [NumberText α] (e : Expr α) :
    Except (ExprError α) String :=
  (Shader.Term.ofExpr e).map Shader.Term.text

end SurfaceGeometry
