import SurfaceGeometry.Expr.Value

/-!
# Simplification

`Expr.simplifyOnce` rebuilds a tree from its leaves, folding operators on constants and applying
the identities of sums, products, quotients and powers; `Expr.simplify` repeats that until the
tree stays the same, eight times at most. A fold whose value is not finite is left alone.
-/

namespace SurfaceGeometry

namespace Expr

variable {α : Type} [Scalar α]

/-! ## Folding -/

/-- The value as a constant, if it is finite. -/
def finite? (value : α) : Option (Expr α) :=
  if Scalar.isFinite value then some (const value) else none

/-- The constant that a binary operator gives on two constants. -/
def foldBinary? (op : BinaryOp) : Expr α → Expr α → Option (Expr α)
  | const a, const b => finite? (op.apply a b)
  | _, _ => none

/-- The constant that a call of a known function gives on constants. -/
def foldCall? (name : String) : List (Expr α) → Option (Expr α)
  | [const a] => (UnaryFunction.ofName? name).bind fun f => finite? (f.apply a)
  | [const a, const b] => (BinaryFunction.ofName? name).bind fun f => finite? (f.apply a b)
  | _ => none

/-! ## Identities -/

/-- Whether a tree is a constant equal to a number. -/
def isConst (value : α) : Expr α → Bool
  | const c => c == value
  | _ => false

/-- Simplifies a unary operator on a simplified operand. -/
def simplifyUnary (op : UnaryOp) (operand : Expr α) : Expr α :=
  match op, operand with
  | .neg, const c => const (-c)
  | .neg, unary .neg inner => inner
  | .not, const c => const (if c == 0 then 1 else 0)
  | op, operand => unary op operand

/-- A sum: zero is neutral, and a negated term is subtracted. -/
def simplifySum (left right : Expr α) : Expr α :=
  if isConst 0 left then right
  else if isConst 0 right then left
  else
    match left, right with
    | l, unary .neg r => l - r
    | unary .neg l, r => r - l
    | l, r => l + r

/-- A difference: zero is neutral on the right and negates on the left, a negated term is added,
and equal terms cancel. -/
def simplifyDifference (left right : Expr α) : Expr α :=
  if isConst 0 right then left
  else if isConst 0 left then -right
  else
    match right with
    | unary .neg r => left + r
    | r => if left == r then const 0 else left - r

/-- A product without neutral factors, a constant factor standing on the left: constant factors
of nested products are merged, and negations move outwards. -/
def simplifyFactors (left right : Expr α) : Expr α :=
  match left, right with
  | const a, binary .mul (const b) inner => const (a * b) * inner
  | const a, binary .mul l r => const a * binary .mul l r
  | unary .neg l, unary .neg r => l * r
  | unary .neg l, r => -(l * r)
  | l, unary .neg r => -(l * r)
  | l, r => l * r

/-- A product: zero absorbs, one is neutral, minus one negates, and a constant moves to the
left. -/
def simplifyProduct (left right : Expr α) : Expr α :=
  if isConst 0 left || isConst 0 right then const 0
  else if isConst 1 left then right
  else if isConst 1 right then left
  else if isConst (-1) left then -right
  else if isConst (-1) right then -left
  else
    match left.constant?, right with
    | none, const c => simplifyFactors (const c) left
    | _, right => simplifyFactors left right

/-- A quotient: zero stays zero, one is neutral below, and a negation above moves outwards. -/
def simplifyQuotient (left right : Expr α) : Expr α :=
  if isConst 0 left then const 0
  else if isConst 1 right then left
  else
    match left with
    | unary .neg l => -(l / right)
    | l => l / right

/-- A power: the exponent zero and the base one give one, and the exponent one is neutral. -/
def simplifyPower (left right : Expr α) : Expr α :=
  if isConst 0 right then const 1
  else if isConst 1 right then left
  else if isConst 1 left then const 1
  else left ^ right

/-- Simplifies a binary operator on simplified operands. -/
def simplifyBinary (op : BinaryOp) (left right : Expr α) : Expr α :=
  (foldBinary? op left right).getD <|
    match op with
    | .add => simplifySum left right
    | .sub => simplifyDifference left right
    | .mul => simplifyProduct left right
    | .div => simplifyQuotient left right
    | .pow => simplifyPower left right
    | .and => binary .and left right
    | .or => binary .or left right

/-! ## Passes -/

mutual

/-- One pass over a tree, from the leaves up. -/
def simplifyOnce : Expr α → Expr α
  | const value => const value
  | symbol name => symbol name
  | unary op operand => simplifyUnary op operand.simplifyOnce
  | binary op left right => simplifyBinary op left.simplifyOnce right.simplifyOnce
  | call name args =>
    let args := simplifyAll args
    (foldCall? name args).getD (call name args)

/-- One pass over every tree of a list. -/
def simplifyAll : List (Expr α) → List (Expr α)
  | [] => []
  | arg :: args => arg.simplifyOnce :: simplifyAll args

end

/-- To simplify a list of trees is to simplify each of them. -/
theorem simplifyAll_eq (args : List (Expr α)) : simplifyAll args = args.map simplifyOnce := by
  induction args with
  | nil => rfl
  | cons arg args ih => simp [simplifyAll, ih]

/-- Repeats the pass until it changes nothing, `passes` times at most. -/
def simplifyWithin : (passes : Nat) → Expr α → Expr α
  | 0, e => e
  | passes + 1, e => if e.simplifyOnce == e then e else simplifyWithin passes e.simplifyOnce

/-- Simplifies a tree by at most eight passes. -/
def simplify (e : Expr α) : Expr α :=
  simplifyWithin 8 e

end Expr

end SurfaceGeometry
