import SurfaceGeometry.Expr.Function
import SurfaceGeometry.Token.Basic

/-!
# Failures of expressions

Everything that can be wrong with an expression, by cause: when it is read, compiled,
differentiated or written for a shader. `ExprError.message` has the wording.
-/

namespace SurfaceGeometry

/-- What is wrong with a text that is no expression. -/
inductive ParseFault (α : Type) where
  /-- A character that starts no token. -/
  | strangeCharacter (c : Char)
  /-- A number that cannot be read. -/
  | malformedNumber (text : String)
  /-- A token that no expression can have at this place. -/
  | unexpected (kind : TokenKind α)
  /-- A token behind a whole expression. -/
  | trailing (kind : TokenKind α)
  | endOfInput
  /-- The text ends before the bracket opened at a position is closed. -/
  | unclosed (opened : Nat)
  /-- Another token stands where the bracket opened at a position has to be closed. -/
  | notClosed (opened : Nat) (kind : TokenKind α)
deriving DecidableEq, Repr

namespace ParseFault

/-- The message of a fault of the parser, without its position. -/
def message {α : Type} [NumberText α] : ParseFault α → String
  | strangeCharacter c => "unexpected character '" ++ c.toString ++ "'"
  | malformedNumber text => "malformed number '" ++ text ++ "'"
  | unexpected kind => "unexpected " ++ kind.describe
  | trailing kind => "unexpected " ++ kind.describe ++ " after end of expression"
  | endOfInput => "unexpected end of input"
  | unclosed opened =>
    "unbalanced parenthesis: '(' at " ++ toString opened ++ " is never closed"
  | notClosed opened kind =>
    "expected ')' to close '(' at " ++ toString opened ++ ", found " ++ kind.describe

end ParseFault

/-- A part of an expression that has no derivative. -/
inductive Construct where
  /-- One of the operators `not`, `and`, `or`. -/
  | logical (symbol : String)
  /-- The greatest or least of two values. -/
  | extremum (name : String)
  /-- A call with neither one nor two arguments. -/
  | callWith (name : String) (count : Nat)
  /-- A part known by its description only. -/
  | described (text : String)
deriving DecidableEq, Repr

/-- How a message names the construct that has no derivative. -/
def Construct.text : Construct → String
  | logical symbol => "logical operator '" ++ symbol ++ "'"
  | extremum name => name ++ "()"
  | callWith name count => name ++ "() with " ++ toString count ++ " arguments"
  | described text => text

/-- A failure of reading, compiling, differentiating or writing an expression. -/
inductive ExprError (α : Type) where
  | malformed (fault : ParseFault α) (position : Nat)
  /-- A symbol that is no variable, parameter or named constant. -/
  | unresolvedSymbol (name : String)
  /-- A call of a name that is in no table. -/
  | unknownFunction (name : String)
  /-- A call of a known name with the wrong number of arguments. -/
  | arity (name : String) (expected : Arities) (found : Nat)
  | notDifferentiable (construct : Construct)
  /-- A call that shaders have no function for. -/
  | unsupportedByShader (name : String)
  /-- A parameter with the name of a constant. -/
  | reservedName (name : String)
  /-- A constant that is not finite, in an expression for a shader. -/
  | nonFiniteConstant (value : α)
deriving DecidableEq, Repr

namespace ExprError

variable {α : Type}

/-- The message of an error. -/
def message [NumberText α] : ExprError α → String
  | malformed fault position =>
    "syntax error at position " ++ toString position ++ ": " ++ fault.message
  | unresolvedSymbol name => "unrecognized symbol \"" ++ name ++ "\" in expression"
  | unknownFunction name => "unknown function \"" ++ name ++ "\""
  | arity name expected found =>
    "function \"" ++ name ++ "\" expects " ++ expected.text ++ " argument(s), got " ++
      toString found
  | notDifferentiable construct => "cannot differentiate " ++ construct.text
  | unsupportedByShader name => "function \"" ++ name ++ "\" has no GLSL equivalent"
  | reservedName name => "parameter \"" ++ name ++ "\" shadows a built-in constant"
  | nonFiniteConstant value =>
    "constant " ++ NumberText.positional value ++ " cannot be written as a GLSL literal"

/-- The failure of a call that no table has: the name is unknown, or it is known with other
numbers of arguments. -/
def ofCall (name : String) (found : Nat) : ExprError α :=
  match Arities.ofName? name with
  | some expected => arity name expected found
  | none => unknownFunction name

end ExprError

end SurfaceGeometry
