import SurfaceGeometry.Scalar.Basic

/-!
# Tokens

The words of the expression language: numbers, names, operators, brackets, the comma, and the
three words `and`, `or`, `not`. A token knows the place of its first character in the text.
-/

namespace SurfaceGeometry

/-- What a token is. -/
inductive TokenKind (α : Type) where
  | number (value : α)
  | identifier (name : String)
  | plus
  | minus
  | star
  | slash
  | caret
  | openParen
  | closeParen
  | comma
  | and
  | or
  | not
deriving DecidableEq, Repr

/-- A token and the number of characters before it in the text. -/
structure Token (α : Type) where
  kind : TokenKind α
  position : Nat
deriving DecidableEq, Repr

namespace TokenKind

variable {α : Type}

/-- The kind of an operator, bracket or comma of one character. -/
def ofOperator? (c : Char) : Option (TokenKind α) :=
  match c with
  | '+' => some plus
  | '-' => some minus
  | '*' => some star
  | '/' => some slash
  | '^' => some caret
  | '(' => some openParen
  | ')' => some closeParen
  | ',' => some comma
  | _ => none

/-- The kind of a word: three words are operators, all others are names. -/
def ofWord (word : String) : TokenKind α :=
  if word = "and" then and
  else if word = "or" then or
  else if word = "not" then not
  else identifier word

/-- How messages speak of a token. -/
def describe [NumberText α] : TokenKind α → String
  | number value => "number " ++ NumberText.positional value
  | identifier name => "identifier '" ++ name ++ "'"
  | plus => "'+'"
  | minus => "'-'"
  | star => "'*'"
  | slash => "'/'"
  | caret => "'^'"
  | openParen => "'('"
  | closeParen => "')'"
  | comma => "','"
  | and => "'and'"
  | or => "'or'"
  | not => "'not'"

end TokenKind

end SurfaceGeometry
