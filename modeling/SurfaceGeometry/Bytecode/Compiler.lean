import SurfaceGeometry.Bytecode.Basic
import SurfaceGeometry.Expr.Error
import SurfaceGeometry.Expr.Parser
import SurfaceGeometry.Parameters.Basic

/-!
# Compiling expressions

`Expr.compile` turns a tree into code for the machine, operands first. Symbols are resolved at
that time: a variable goes before a parameter, a parameter before a named constant, and of two
variables of one name the last one counts. `CompiledFunction` is the code with the number of its
variables; the values of the parameters are read at every call.
-/

namespace SurfaceGeometry

/-- The place of the last occurrence of a name. -/
def lastIndexOf? (name : String) : List String → Option Nat
  | [] => none
  | other :: rest =>
    match lastIndexOf? name rest with
    | some index => some (index + 1)
    | none => if other = name then some 0 else none

/-- The names that an expression is compiled against. -/
structure Scope where
  vars : List String
  parameters : List String
deriving DecidableEq, Repr

namespace Scope

variable {α : Type} [Scalar α]

/-- The instruction that loads a symbol. -/
def resolve? (scope : Scope) (name : String) : Option (Instruction α) :=
  match lastIndexOf? name scope.vars with
  | some index => some (.argument index)
  | none =>
    match lastIndexOf? name scope.parameters with
    | some index => some (.parameter index)
    | none => (Scalar.named? name).map .const

/-- The value that a symbol has for given arguments and parameter values. -/
def lookup (scope : Scope) (args params : List α) (name : String) : Option α :=
  match lastIndexOf? name scope.vars with
  | some index => args[index]?
  | none =>
    match lastIndexOf? name scope.parameters with
    | some index => params[index]?
    | none => Scalar.named? name

end Scope

namespace Expr

variable {α : Type} [Scalar α]

/-- The code of a tree. -/
def compile (scope : Scope) : Expr α → Except (ExprError α) (Bytecode α)
  | const value => .ok [.const value]
  | symbol name =>
    match scope.resolve? name with
    | some load => .ok [load]
    | none => .error (.unresolvedSymbol name)
  | unary op operand => return (← compile scope operand) ++ [.unary op]
  | binary .pow base exponent => do
    let base ← compile scope base
    match wholeExponent? exponent with
    | some n => return base ++ [.powInt n]
    | none => return base ++ (← compile scope exponent) ++ [.binary .pow]
  | binary op left right => do
    let left ← compile scope left
    let right ← compile scope right
    return left ++ right ++ [.binary op]
  | call name [arg] =>
    match UnaryFunction.ofName? name with
    | some f => return (← compile scope arg) ++ [.call1 f]
    | none => .error (.ofCall name 1)
  | call name [first, second] =>
    match BinaryFunction.ofName? name with
    | some f => do
      let first ← compile scope first
      let second ← compile scope second
      return first ++ second ++ [.call2 f]
    | none => .error (.ofCall name 2)
  | call name args => .error (.ofCall name args.length)

end Expr

/-- A function of a number of variables. The values of its parameters are given at every call. -/
structure CompiledFunction (α : Type) where
  code : Bytecode α
  arity : Nat
deriving DecidableEq

namespace CompiledFunction

variable {α : Type} [Scalar α]

/-- The value at the given arguments, computed on the stack of earlier calls, and the stack that is
left for later ones. With another number of arguments than variables, a number without value. -/
def callOn (f : CompiledFunction α) (params args stack : List α) : α × List α :=
  if args.length = f.arity then f.code.executeOn args params stack else (Scalar.nan, stack)

/-- The value at the given arguments. -/
def call (f : CompiledFunction α) (params args : List α) : α :=
  (f.callOn params args []).1

/-- Compiles a tree as a function of variables, with the parameters of a store. No parameter may
have the name of a constant. -/
def ofExpr (e : Expr α) (vars : List String) (params : Parameters α) :
    Except (ExprError α) (CompiledFunction α) :=
  match params.names.find? fun name => (Scalar.named? name : Option α).isSome with
  | some name => .error (.reservedName name)
  | none => return ⟨← e.compile ⟨vars, params.names⟩, vars.length⟩

/-- Reads and compiles a text. -/
def parse (text : String) (vars : List String) (params : Parameters α) :
    Except (ExprError α) (CompiledFunction α) := do
  ofExpr (← Expr.parse text) vars params

end CompiledFunction

end SurfaceGeometry
