import SurfaceGeometry.Expr.Basic
import SurfaceGeometry.Token.Lexer

/-!
# Reading expressions

`Expr.parse` reads a text as an expression, or tells what is wrong with it and where. The
grammar has four levels of binary operators (`BinaryLevel`), from `or` down to products, each a
chain of operands of the next tighter level that groups to the left; below them prefix `-` and
`not`; below these powers, whose exponent is a signed expression again, so that they group to the
right; and at the bottom numbers, names, calls and brackets. Two operands of a product may stand
side by side without an operator.

Every function takes the tokens that are left and returns a tree and the tokens behind it. The
first argument bounds the depth of the calls; `parse` starts with enough for every list of
tokens, since no more than a dozen calls lie between two tokens.
-/

namespace SurfaceGeometry

/-- The levels of binary operators, from loose to tight. -/
inductive BinaryLevel where
  | disjunction
  | conjunction
  | sum
  | product
deriving DecidableEq, Repr

namespace BinaryLevel

variable {α : Type}

/-- The operator of a level that a token stands for. -/
def operator? : BinaryLevel → TokenKind α → Option BinaryOp
  | disjunction, .or => some .or
  | conjunction, .and => some .and
  | sum, .plus => some .add
  | sum, .minus => some .sub
  | product, .star => some .mul
  | product, .slash => some .div
  | _, _ => none

end BinaryLevel

namespace TokenKind

/-- Whether a token directly behind a factor starts another factor. -/
def startsFactor {α : Type} : TokenKind α → Bool
  | number _ => true
  | identifier _ => true
  | openParen => true
  | not => true
  | _ => false

end TokenKind

namespace Expr

variable {α : Type}

/-- A tree and the tokens behind it. -/
abbrev Reading (α : Type) := Expr α × List (Token α)

/-- Takes the bracket that closes the one at `opened`. -/
def expectClose (finish opened : Nat) :
    List (Token α) → Except (ExprError α) (List (Token α))
  | [] => .error (.malformed (.unclosed opened) finish)
  | ⟨.closeParen, _⟩ :: rest => .ok rest
  | ⟨kind, position⟩ :: _ => .error (.malformed (.notClosed opened kind) position)

mutual

/-- A chain of operands of a binary level. -/
def readBinary (finish : Nat) :
    Nat → BinaryLevel → List (Token α) → Except (ExprError α) (Reading α)
  | 0, _, _ => .error (.malformed .endOfInput finish)
  | depth + 1, level, tokens => do
    let (first, rest) ← readOperand finish depth level tokens
    readChain finish depth level first rest

/-- One operand of a binary level: a chain of the next level, or a signed expression. -/
def readOperand (finish : Nat) :
    Nat → BinaryLevel → List (Token α) → Except (ExprError α) (Reading α)
  | 0, _, _ => .error (.malformed .endOfInput finish)
  | depth + 1, .disjunction, tokens => readBinary finish depth .conjunction tokens
  | depth + 1, .conjunction, tokens => readBinary finish depth .sum tokens
  | depth + 1, .sum, tokens => readBinary finish depth .product tokens
  | depth + 1, .product, tokens => readSigned finish depth tokens

/-- The further operands of a chain, joined to the tree read so far. -/
def readChain (finish : Nat) :
    Nat → BinaryLevel → Expr α → List (Token α) → Except (ExprError α) (Reading α)
  | 0, _, _, _ => .error (.malformed .endOfInput finish)
  | _ + 1, _, left, [] => .ok (left, [])
  | depth + 1, level, left, token :: rest =>
    match level.operator? token.kind with
    | some op => do
      let (right, behind) ← readOperand finish depth level rest
      readChain finish depth level (.binary op left right) behind
    | none =>
      if level = .product ∧ token.kind.startsFactor then do
        let (right, behind) ← readOperand finish depth level (token :: rest)
        readChain finish depth level (.binary .mul left right) behind
      else .ok (left, token :: rest)

/-- An expression with any number of prefix operators. -/
def readSigned (finish : Nat) : Nat → List (Token α) → Except (ExprError α) (Reading α)
  | 0, _ => .error (.malformed .endOfInput finish)
  | depth + 1, ⟨.minus, _⟩ :: rest => do
    let (operand, behind) ← readSigned finish depth rest
    return (.unary .neg operand, behind)
  | depth + 1, ⟨.not, _⟩ :: rest => do
    let (operand, behind) ← readSigned finish depth rest
    return (.unary .not operand, behind)
  | depth + 1, tokens => readPower finish depth tokens

/-- A primary expression, and its exponent if it has one. -/
def readPower (finish : Nat) : Nat → List (Token α) → Except (ExprError α) (Reading α)
  | 0, _ => .error (.malformed .endOfInput finish)
  | depth + 1, tokens => do
    match ← readPrimary finish depth tokens with
    | (base, ⟨.caret, _⟩ :: rest) =>
      let (exponent, behind) ← readSigned finish depth rest
      return (.binary .pow base exponent, behind)
    | (base, rest) => return (base, rest)

/-- A number, a name, a call, or an expression in brackets. -/
def readPrimary (finish : Nat) : Nat → List (Token α) → Except (ExprError α) (Reading α)
  | 0, _ => .error (.malformed .endOfInput finish)
  | _ + 1, [] => .error (.malformed .endOfInput finish)
  | _ + 1, ⟨.number value, _⟩ :: rest => .ok (.const value, rest)
  | depth + 1, ⟨.identifier name, _⟩ :: ⟨.openParen, opened⟩ :: rest => do
    let (args, behind) ← readArguments finish depth rest
    let behind ← expectClose finish opened behind
    return (.call name args, behind)
  | _ + 1, ⟨.identifier name, _⟩ :: rest => .ok (.symbol name, rest)
  | depth + 1, ⟨.openParen, opened⟩ :: rest => do
    let (inner, behind) ← readBinary finish depth .disjunction rest
    let behind ← expectClose finish opened behind
    return (inner, behind)
  | _ + 1, ⟨kind, position⟩ :: _ => .error (.malformed (.unexpected kind) position)

/-- One or more expressions with commas between them. -/
def readArguments (finish : Nat) :
    Nat → List (Token α) → Except (ExprError α) (List (Expr α) × List (Token α))
  | 0, _ => .error (.malformed .endOfInput finish)
  | depth + 1, tokens => do
    match ← readBinary finish depth .disjunction tokens with
    | (arg, ⟨.comma, _⟩ :: rest) =>
      let (args, behind) ← readArguments finish depth rest
      return (arg :: args, behind)
    | (arg, rest) => return ([arg], rest)

end

/-- Reads tokens as one expression; `finish` is where the text ends. -/
def ofTokens (finish : Nat) (tokens : List (Token α)) : Except (ExprError α) (Expr α) := do
  match ← readBinary finish (12 * tokens.length + 12) .disjunction tokens with
  | (tree, []) => return tree
  | (_, token :: _) => .error (.malformed (.trailing token.kind) token.position)

/-- Reads a text as an expression. -/
def parse [Scalar α] (text : String) : Except (ExprError α) (Expr α) := do
  ofTokens text.length (← Token.scan text)

end Expr

end SurfaceGeometry
