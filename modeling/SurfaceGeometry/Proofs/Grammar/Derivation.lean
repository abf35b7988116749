import SurfaceGeometry.Expr.Parser

/-!
# The grammar of expressions

`Derives bracket level kinds e` says that a list of tokens, of which only the kinds count, is an
expression of a level of the grammar with the tree `e`. The levels are stratified: each operand of a
chain is of the next tighter level, the left one apart, which may be a chain of the same level, so
that chains group to the left; the exponent of a power is a signed expression, so that powers group
to the right.

One rule looks past its tokens: a name directly before an opening bracket is the name of a call and
never a symbol. `bracket` tells whether an opening bracket stands directly behind the tokens.
Without it `f (x)` would be a product as well as a call.
-/

namespace SurfaceGeometry

/-- The levels of the grammar from loose to tight: chains of binary operators, expressions with
signs before them, powers, and primary expressions. -/
inductive Level where
  | chain (level : BinaryLevel)
  | signed
  | power
  | primary
deriving DecidableEq, Repr

/-- The level of the operands of a chain. -/
def BinaryLevel.operand : BinaryLevel → Level
  | disjunction => .chain .conjunction
  | conjunction => .chain .sum
  | sum => .chain .product
  | product => .signed

/-- The place of a level, from tight to loose. The operands of a chain have a reader of their own,
with a place between their level and the chain. -/
def Level.rank : Level → Nat
  | primary => 1
  | power => 2
  | signed => 3
  | chain .product => 5
  | chain .sum => 7
  | chain .conjunction => 9
  | chain .disjunction => 11

/-- Between a chain and its operands there is a place for the reader of operands. -/
theorem Level.rank_chain (level : BinaryLevel) :
    (Level.chain level).rank = level.operand.rank + 2 := by
  cases level <;> rfl

/-- Every level has a place above zero, so that a reader has a step to make. -/
theorem Level.rank_pos (level : Level) : 0 < level.rank := by
  rcases level with level | _
  · cases level <;> decide
  all_goals decide

/-- Operands of chains are signed expressions or tighter chains. -/
theorem Level.rank_operand_bounds (level : BinaryLevel) :
    3 ≤ level.operand.rank ∧ level.operand.rank ≤ 9 := by
  cases level <;> decide

namespace TokenKind

variable {α : Type}

/-- Whether tokens start with an opening bracket. -/
def opens : List (TokenKind α) → Bool
  | openParen :: _ => true
  | _ => false

/-- Whether tokens start with an opening bracket is said by the first one. -/
theorem opens_cons_congr {kind : TokenKind α} {kinds : List (TokenKind α)}
    (kinds' : List (TokenKind α)) : opens (kind :: kinds) = opens (kind :: kinds') := by
  cases kind <;> rfl

/-- No operator is an opening bracket. -/
theorem opens_cons_of_operator? {level : BinaryLevel} {kind : TokenKind α}
    {kinds : List (TokenKind α)} {op : BinaryOp} (h : level.operator? kind = some op) :
    opens (kind :: kinds) = false := by
  cases level <;> cases kind <;> first | rfl | cases h

/-- Whether tokens start another factor of a product that stands directly before them. -/
def factorFollows : List (TokenKind α) → Bool
  | kind :: _ => kind.startsFactor
  | [] => false

/-- Tokens of several expressions with commas between them. -/
def commaSeparated : List (List (TokenKind α)) → List (TokenKind α)
  | [] => []
  | [segment] => segment
  | segment :: next :: rest => segment ++ comma :: commaSeparated (next :: rest)

/-- The token of a prefix operator. -/
def ofUnary : UnaryOp → TokenKind α
  | .neg => minus
  | .not => not

/-- The prefix operator that a token stands for. -/
def sign? : TokenKind α → Option UnaryOp
  | minus => some .neg
  | not => some .not
  | _ => none

/-- A token stands for a prefix operator just if it is the token of that one. -/
theorem sign?_eq_some {kind : TokenKind α} {op : UnaryOp} :
    kind.sign? = some op ↔ kind = ofUnary op := by
  cases op <;> cases kind <;> simp [sign?, ofUnary]

end TokenKind

open TokenKind in
/-- The tokens are an expression of the level with the given tree, and `bracket` tells whether an
opening bracket stands behind them. -/
inductive Derives {α : Type} : Bool → Level → List (TokenKind α) → Expr α → Prop where
  /-- A single operand is a chain. -/
  | operand {bracket level kinds e} (operand : Derives bracket level.operand kinds e) :
      Derives bracket (.chain level) kinds e
  /-- A chain, an operator of its level and a further operand. -/
  | binary {bracket level kind op lefts rights a b} (operator : level.operator? kind = some op)
      (left : Derives false (.chain level) lefts a)
      (right : Derives bracket level.operand rights b) :
      Derives bracket (.chain level) (lefts ++ kind :: rights) (.binary op a b)
  /-- A product without an operator. -/
  | juxtaposed {bracket lefts rights a b} (factor : factorFollows rights)
      (left : Derives (opens rights) (.chain .product) lefts a)
      (right : Derives bracket .signed rights b) :
      Derives bracket (.chain .product) (lefts ++ rights) (.binary .mul a b)
  | unary {bracket op kinds e} (operand : Derives bracket .signed kinds e) :
      Derives bracket .signed (ofUnary op :: kinds) (.unary op e)
  /-- An expression without a sign. -/
  | unsigned {bracket kinds e} (power : Derives bracket .power kinds e) :
      Derives bracket .signed kinds e
  | raised {bracket bases exponents a b} (base : Derives false .primary bases a)
      (exponent : Derives bracket .signed exponents b) :
      Derives bracket .power (bases ++ caret :: exponents) (.binary .pow a b)
  /-- A primary expression without an exponent. -/
  | base {bracket kinds e} (primary : Derives bracket .primary kinds e) :
      Derives bracket .power kinds e
  | number {bracket} (value : α) : Derives bracket .primary [.number value] (.const value)
  /-- A name that no opening bracket follows. -/
  | name (name : String) : Derives false .primary [identifier name] (.symbol name)
  /-- A name and one or more expressions in brackets. -/
  | call {bracket} (name : String) {segments : List (List (TokenKind α) × Expr α)}
      (nonempty : segments ≠ [])
      (args : ∀ segment ∈ segments, Derives false (.chain .disjunction) segment.1 segment.2) :
      Derives bracket .primary
        (identifier name :: openParen :: (commaSeparated (segments.map Prod.fst) ++ [closeParen]))
        (.call name (segments.map Prod.snd))
  | bracketed {bracket kinds e} (inner : Derives false (.chain .disjunction) kinds e) :
      Derives bracket .primary (openParen :: (kinds ++ [closeParen])) e

namespace Derives

variable {α : Type} {bracket : Bool} {level : Level} {kinds : List (TokenKind α)} {e : Expr α}

/-- No expression is empty. -/
theorem ne_nil (h : Derives bracket level kinds e) : kinds ≠ [] := by
  induction h with
  | operand _ ih | unsigned _ ih | base _ ih => exact ih
  | binary | juxtaposed _ _ _ ih | raised => simp_all
  | unary | number | name | call | bracketed => simp

/-- Powers and primary expressions start with no sign. -/
theorem exists_cons_of_tight (h : Derives bracket level kinds e) (hlevel : level.rank ≤ 2) :
    ∃ kind rest, kinds = kind :: rest ∧ kind.sign? = none := by
  induction h with
  | @operand _ level | @binary _ level | @juxtaposed | unary | unsigned =>
    exfalso
    first
    | exact absurd hlevel (by decide)
    | cases level <;> exact absurd hlevel (by decide)
  | raised _ _ ihbase _ =>
    obtain ⟨kind, rest, rfl, hkind⟩ := ihbase (by decide)
    exact ⟨kind, _, rfl, hkind⟩
  | base _ ih => exact ih (by decide)
  | number | name | call | bracketed => exact ⟨_, _, rfl, rfl⟩

end Derives

/-- The kinds of tokens. -/
def Token.kinds {α : Type} (tokens : List (Token α)) : List (TokenKind α) :=
  tokens.map Token.kind

namespace Token

variable {α : Type}

@[simp] theorem kinds_nil : kinds ([] : List (Token α)) = [] := rfl

@[simp] theorem kinds_cons (token : Token α) (tokens : List (Token α)) :
    kinds (token :: tokens) = token.kind :: kinds tokens := rfl

@[simp] theorem kinds_append (tokens tokens' : List (Token α)) :
    kinds (tokens ++ tokens') = kinds tokens ++ kinds tokens' :=
  List.map_append

end Token

end SurfaceGeometry
