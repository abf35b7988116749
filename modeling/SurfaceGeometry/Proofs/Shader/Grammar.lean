import SurfaceGeometry.Proofs.Grammar.Completeness
import SurfaceGeometry.Proofs.Token.Scanning

/-!
# The expressions of a shader

How a text is read as a GLSL expression over floats. `Shader.scan` cuts it into tokens, and
`Shader.Forms level kinds e` says that tokens are an expression of a level with the tree `e`. The
tokens and the trees are those of the expression language: `&&`, `||` and `!` stand for its three
words, which are names here. There are no powers and no products without an operator, and a number
has a decimal point or an exponent, for without it is no float.

The grammar is a part of the grammar of the expression language, so tokens are an expression in one
way at most (`Shader.Forms.unique`).
-/

namespace SurfaceGeometry

namespace Shader

variable {α : Type}

/-! ## Tokens -/

/-- Two characters in a row that are one sign, or that start a comment. -/
def pairs : List (Char × Char) :=
  [('&', '&'), ('|', '|'), ('+', '+'), ('-', '-'), ('+', '='), ('-', '='), ('*', '='), ('/', '='),
    ('!', '='), ('/', '/'), ('/', '*')]

/-- The operator of two characters that an expression over floats can have. -/
def operatorOfPair? : Char × Char → Option (TokenKind α)
  | ('&', '&') => some .and
  | ('|', '|') => some .or
  | _ => none

/-- The operator, bracket or comma of one character. -/
def operatorOfChar? : Char → Option (TokenKind α)
  | '+' => some .plus
  | '-' => some .minus
  | '*' => some .star
  | '/' => some .slash
  | '!' => some .not
  | '(' => some .openParen
  | ')' => some .closeParen
  | ',' => some .comma
  | _ => none

/-- Reads the sign at the start of a text, two characters if they are one sign. -/
def nextSign (c : Char) (cs : List Char) : Option (Piece α) :=
  match cs.head?.filter fun d => (c, d) ∈ pairs with
  | some d => (operatorOfPair? (c, d)).map (.lexeme [c, d])
  | none => (operatorOfChar? c).map (.lexeme [c])

variable [Scalar α]

/-- Reads the first piece of a text that is not empty. -/
def next (c : Char) (cs : List Char) : Option (Piece α) :=
  if Text.isBlank c then some (.blank c)
  else if NumberLexeme.starts (c :: cs) then
    let text := NumberLexeme.read (c :: cs)
    if text.all Char.isDigit then none
    else (Decimal.ofText? text).map fun d => .lexeme text (.number (Scalar.ofDecimal d))
  else if Text.startsWord c then
    let word := c :: cs.takeWhile Text.isWordChar
    some (.lexeme word (.identifier (String.ofList word)))
  else nextSign c cs

/-- The tokens of a text. -/
def scan : List Char → Option (List (TokenKind α))
  | [] => some []
  | c :: cs =>
    match (next c cs : Option (Piece α)) with
    | none => none
    | some piece => (scan (cs.drop (piece.chars.length - 1))).map (Piece.kinds [piece] ++ ·)
termination_by cs => cs.length
decreasing_by
  rw [List.length_drop, List.length_cons]
  omega

/-! ## Expressions -/

open TokenKind in
/-- The tokens are an expression of the level with the given tree. -/
inductive Forms {α : Type} : Level → List (TokenKind α) → Expr α → Prop where
  /-- A single operand is a chain. -/
  | operand {level kinds e} (operand : Forms level.operand kinds e) : Forms (.chain level) kinds e
  /-- A chain, an operator of its level and a further operand. -/
  | binary {level kind op lefts rights a b} (operator : level.operator? kind = some op)
      (left : Forms (.chain level) lefts a) (right : Forms level.operand rights b) :
      Forms (.chain level) (lefts ++ kind :: rights) (.binary op a b)
  | unary {op kinds e} (operand : Forms .signed kinds e) :
      Forms .signed (ofUnary op :: kinds) (.unary op e)
  /-- An expression without a sign. -/
  | unsigned {kinds e} (primary : Forms .primary kinds e) : Forms .signed kinds e
  | number (value : α) : Forms .primary [.number value] (.const value)
  | name (name : String) : Forms .primary [identifier name] (.symbol name)
  /-- A name and one or more expressions in brackets. -/
  | call (name : String) {segments : List (List (TokenKind α) × Expr α)} (nonempty : segments ≠ [])
      (args : ∀ segment ∈ segments, Forms (.chain .disjunction) segment.1 segment.2) :
      Forms .primary
        (identifier name :: openParen :: (commaSeparated (segments.map Prod.fst) ++ [closeParen]))
        (.call name (segments.map Prod.snd))
  | bracketed {kinds e} (inner : Forms (.chain .disjunction) kinds e) :
      Forms .primary (openParen :: (kinds ++ [closeParen])) e

/-- The whole text is an expression with the given tree. -/
def Reads (text : String) (e : Expr α) : Prop :=
  ∃ kinds, scan text.toList = some kinds ∧ Forms (.chain .disjunction) kinds e

namespace Forms

variable {α : Type} {level : Level} {kinds : List (TokenKind α)} {e e' : Expr α}

/-- What is an expression of a shader is one of the expression language. -/
theorem derives (h : Forms level kinds e) : Derives false level kinds e := by
  induction h with
  | operand _ ih => exact .operand ih
  | binary operator _ _ ihleft ihright => exact .binary operator ihleft ihright
  | unary _ ih => exact .unary ih
  | unsigned _ ih => exact .unsigned (.base ih)
  | number value => exact .number value
  | name name => exact .name name
  | call name nonempty _ ih => exact .call name nonempty ih
  | bracketed _ ih => exact .bracketed ih

/-- The same tokens are read as one tree only. -/
theorem unique (h : Forms level kinds e) (h' : Forms level kinds e') : e = e' :=
  h.derives.unique h'.derives

end Forms

/-- A text is one expression at most. -/
theorem Reads.unique {text : String} {e e' : Expr α} (h : Reads text e) (h' : Reads text e') :
    e = e' := by
  obtain ⟨kinds, hscan, hforms⟩ := h
  obtain ⟨kinds', hscan', hforms'⟩ := h'
  rw [hscan] at hscan'
  cases hscan'
  exact hforms.unique hforms'

end Shader

end SurfaceGeometry
