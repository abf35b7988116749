import SurfaceGeometry.Expr.Value

/-!
# Bytecode

Compiled expressions are lists of instructions for a machine with a stack of numbers. The machine
takes any code: a unary operation on the empty stack does nothing, a binary one takes a number
without value for a missing right operand and does nothing more if the left one is missing too,
and a slot that does not exist holds a number without value. `Instruction.step?` is the same step
for code that never relies on that; it refuses where the machine makes do.
-/

namespace SurfaceGeometry

/-- An operation of the machine. -/
inductive Instruction (α : Type) where
  /-- Pushes a number. -/
  | const (value : α)
  /-- Pushes an argument. -/
  | argument (index : Nat)
  /-- Pushes the current value of a parameter. -/
  | parameter (index : Nat)
  /-- Applies an operator to the top of the stack. -/
  | unary (op : UnaryOp)
  /-- Applies an operator to the two topmost numbers, the right operand on top. -/
  | binary (op : BinaryOp)
  /-- Raises the top of the stack to a literal power. -/
  | powInt (exponent : Int)
  | call1 (f : UnaryFunction)
  | call2 (f : BinaryFunction)
deriving DecidableEq, Repr

/-- The code of an expression. -/
abbrev Bytecode (α : Type) := List (Instruction α)

namespace Instruction

variable {α : Type} [Scalar α]

/-- Applies a function to the top of a stack, whose first member is its top. -/
def onTop (f : α → α) : List α → List α
  | [] => []
  | a :: stack => f a :: stack

/-- Applies a function to the two topmost numbers of a stack. -/
def onTopTwo (f : α → α → α) : List α → List α
  | b :: a :: stack => f a b :: stack
  | _ => []

/-- One step of the machine. -/
def step (args params : List α) : Instruction α → List α → List α
  | const value, stack => value :: stack
  | argument index, stack => args.getD index Scalar.nan :: stack
  | parameter index, stack => params.getD index Scalar.nan :: stack
  | unary op, stack => onTop op.apply stack
  | binary op, stack => onTopTwo op.apply stack
  | powInt exponent, stack => onTop (Scalar.powInt · exponent) stack
  | call1 f, stack => onTop f.apply stack
  | call2 f, stack => onTopTwo f.apply stack

/-- One step of the machine, where the slot exists and the stack has the operands. -/
def step? (args params : List α) : Instruction α → List α → Option (List α)
  | const value, stack => some (value :: stack)
  | argument index, stack => args[index]?.map (· :: stack)
  | parameter index, stack => params[index]?.map (· :: stack)
  | unary op, a :: stack => some (op.apply a :: stack)
  | binary op, b :: a :: stack => some (op.apply a b :: stack)
  | powInt exponent, a :: stack => some (Scalar.powInt a exponent :: stack)
  | call1 f, a :: stack => some (f.apply a :: stack)
  | call2 f, b :: a :: stack => some (f.apply a b :: stack)
  | _, _ => none

end Instruction

namespace Bytecode

variable {α : Type} [Scalar α]

/-- The stack behind a run that starts with a given stack. -/
def run (args params : List α) (code : Bytecode α) (stack : List α) : List α :=
  code.foldl (fun stack op => op.step args params stack) stack

/-- The stack behind a run that never misses a slot or an operand. -/
def run? (args params : List α) (code : Bytecode α) (stack : List α) : Option (List α) :=
  code.foldlM (fun stack op => op.step? args params stack) stack

/-- Runs code on a stack that an earlier run may have left full; it is emptied first. The result
is the top of the stack behind the run, or a number without value if there is none, and what lies
below it. -/
def executeOn (args params : List α) (code : Bytecode α) (stack : List α) : α × List α :=
  match run args params code (stack.take 0) with
  | [] => (Scalar.nan, [])
  | value :: rest => (value, rest)

/-- Runs code on a fresh stack. -/
def execute (args params : List α) (code : Bytecode α) : α × List α :=
  executeOn args params code []

end Bytecode

end SurfaceGeometry
