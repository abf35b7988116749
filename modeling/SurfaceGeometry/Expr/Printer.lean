import SurfaceGeometry.Expr.Basic

/-!
# Writing expressions

`Expr.text` writes a tree with the fewest brackets that its operators need: `^` groups to the
right, all other binary operators to the left, and a negative constant counts as a negation.
-/

namespace SurfaceGeometry

namespace UnaryOp

/-- What is written before the operand. -/
def mark : UnaryOp → String
  | neg => "-"
  | not => "not "

end UnaryOp

namespace BinaryOp

/-- How tightly the operator binds. -/
def precedence : BinaryOp → Nat
  | or => 1
  | and => 2
  | add => 3
  | sub => 3
  | mul => 4
  | div => 4
  | pow => 6

end BinaryOp

namespace Expr

variable {α : Type} [Scalar α] [NumberText α]

/-- How tightly the outermost operator of a tree binds: signs between products and powers,
constants, symbols and calls tightest. -/
def precedence : Expr α → Nat
  | const value => if value < 0 then 5 else 7
  | symbol _ => 7
  | unary _ _ => 5
  | binary op _ _ => op.precedence
  | call _ _ => 7

/-- Whether the left operand of an operator needs brackets. -/
def bracketsLeft (op : BinaryOp) (left : Expr α) : Bool :=
  if op = .pow then left.precedence ≤ op.precedence else left.precedence < op.precedence

/-- Whether the right operand of an operator needs brackets. -/
def bracketsRight (op : BinaryOp) (right : Expr α) : Bool :=
  if op = .pow then right.precedence < op.precedence else right.precedence ≤ op.precedence

/-- Puts a text in brackets when it needs them. -/
def bracketed (needed : Bool) (text : String) : String :=
  if needed then "(" ++ text ++ ")" else text

mutual

/-- The text of a tree. -/
def text : Expr α → String
  | const value => NumberText.positional value
  | symbol name => name
  | unary op operand => op.mark ++ bracketed (operand.precedence < 5) operand.text
  | binary op left right =>
    bracketed (bracketsLeft op left) left.text ++ (" " ++ op.symbol ++ " ") ++
      bracketed (bracketsRight op right) right.text
  | call name args => name ++ "(" ++ textAll args ++ ")"

/-- The texts of the arguments of a call, with commas between them. -/
def textAll : List (Expr α) → String
  | [] => ""
  | [arg] => arg.text
  | arg :: next :: rest => arg.text ++ ", " ++ textAll (next :: rest)

end

end Expr

end SurfaceGeometry
