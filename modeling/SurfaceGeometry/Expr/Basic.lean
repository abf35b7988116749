import SurfaceGeometry.Expr.Function

/-!
# Expressions

Scalar expressions as trees: constants, symbols, the unary and binary operators, and calls of
functions by name. This module holds the type, its size, the symbols that occur in a tree, the
substitution of a tree for a symbol, and the equality of trees, which compares constants as
numbers.

Every function on trees comes with one on lists of trees, for the arguments of a call; a lemma
says that the latter is the former on every member.
-/

namespace SurfaceGeometry

/-- The operators of one operand: the sign, and the logical not. -/
inductive UnaryOp where
  | neg
  | not
deriving DecidableEq, Repr

/-- The name under which the operator is listed in compiled code. -/
def UnaryOp.label : UnaryOp → String
  | neg => "neg"
  | not => "not"

/-- The operator of a label. -/
def UnaryOp.ofLabel? (label : String) : Option UnaryOp :=
  [neg, not].find? (·.label == label)

/-- The operators of two operands. -/
inductive BinaryOp where
  | add
  | sub
  | mul
  | div
  | pow
  | and
  | or
deriving DecidableEq, Repr

/-- How an operator is written between its operands. -/
def BinaryOp.symbol : BinaryOp → String
  | add => "+"
  | sub => "-"
  | mul => "*"
  | div => "/"
  | pow => "^"
  | and => "and"
  | or => "or"

namespace BinaryOp

/-- All operators of two operands. -/
def all : List BinaryOp := [add, sub, mul, div, pow, and, or]

/-- The operator of a symbol. -/
def ofSymbol? (symbol : String) : Option BinaryOp :=
  all.find? (·.symbol == symbol)

/-- The name under which the operator is listed in compiled code. -/
def label : BinaryOp → String
  | add => "add"
  | sub => "sub"
  | mul => "mul"
  | div => "div"
  | pow => "pow"
  | and => "and"
  | or => "or"

/-- The operator of a label. -/
def ofLabel? (label : String) : Option BinaryOp :=
  all.find? (·.label == label)

end BinaryOp

/-- A scalar expression with constants of type `α`. -/
inductive Expr (α : Type) where
  | const (value : α)
  | symbol (name : String)
  | unary (op : UnaryOp) (operand : Expr α)
  | binary (op : BinaryOp) (left right : Expr α)
  | call (name : String) (args : List (Expr α))
deriving Inhabited, Repr

namespace Expr

variable {α : Type}

/-! ## Induction -/

/-- Induction on a tree, with the hypothesis for every argument of a call. -/
@[elab_as_elim, induction_eliminator]
theorem induct {motive : Expr α → Prop}
    (const : ∀ value, motive (.const value))
    (symbol : ∀ name, motive (.symbol name))
    (unary : ∀ op operand, motive operand → motive (.unary op operand))
    (binary : ∀ op left right, motive left → motive right → motive (.binary op left right))
    (call : ∀ name args, (∀ arg ∈ args, motive arg) → motive (.call name args)) :
    ∀ e : Expr α, motive e :=
  @Expr.rec α motive (fun args => ∀ arg ∈ args, motive arg) const symbol unary binary call
    (fun _ h => nomatch h)
    (fun _ _ head tail _ h => (List.mem_cons.1 h).elim (fun eq => eq ▸ head) (tail _))

/-! ## Constants and size -/

/-- The value of a tree that is a constant. -/
def constant? : Expr α → Option α
  | const value => some value
  | _ => none

mutual

/-- The number of nodes of a tree. -/
def size : Expr α → Nat
  | const _ => 1
  | symbol _ => 1
  | unary _ operand => operand.size + 1
  | binary _ left right => left.size + right.size + 1
  | call _ args => sizeAll args + 1

/-- The number of nodes of all trees of a list. -/
def sizeAll : List (Expr α) → Nat
  | [] => 0
  | arg :: args => arg.size + sizeAll args

end

/-! ## Symbols -/

mutual

/-- The symbols of a tree from left to right, one for each occurrence. The name of a function is
no symbol. -/
def occurrences : Expr α → List String
  | const _ => []
  | symbol name => [name]
  | unary _ operand => operand.occurrences
  | binary _ left right => left.occurrences ++ right.occurrences
  | call _ args => occurrencesAll args

/-- The symbols of all trees of a list. -/
def occurrencesAll : List (Expr α) → List String
  | [] => []
  | arg :: args => arg.occurrences ++ occurrencesAll args

end

/-- The symbols of a list of trees are those of each tree in turn. -/
theorem occurrencesAll_eq (args : List (Expr α)) :
    occurrencesAll args = args.flatMap occurrences := by
  induction args with
  | nil => rfl
  | cons arg args ih => simp [occurrencesAll, ih]

/-- Inserts a name into a list of names in increasing order of code points, once. -/
def insertName (name : String) : List String → List String
  | [] => [name]
  | other :: rest =>
    if name < other then name :: other :: rest
    else if name = other then other :: rest
    else other :: insertName name rest

/-- The symbols of a tree, each once, in increasing order of code points. -/
def symbols (e : Expr α) : List String :=
  e.occurrences.foldr insertName []

/-- A name that is inserted is there, and nothing else is new. -/
theorem mem_insertName {name other : String} {names : List String} :
    name ∈ insertName other names ↔ name = other ∨ name ∈ names := by
  induction names with
  | nil => simp [insertName]
  | cons head rest ih =>
    simp only [insertName]
    split
    · simp
    · split
      · rename_i h
        subst h
        simp
      · simp only [List.mem_cons, ih]
        exact or_left_comm

/-- The symbols of a tree are the names that occur in it, each of them once and in order. -/
theorem mem_symbols {name : String} {e : Expr α} : name ∈ e.symbols ↔ name ∈ e.occurrences := by
  unfold symbols
  induction e.occurrences with
  | nil => simp
  | cons head rest ih => simp [mem_insertName, ih]

mutual

/-- Whether a symbol occurs in a tree. -/
def dependsOn (name : String) : Expr α → Bool
  | const _ => false
  | symbol other => other == name
  | unary _ operand => operand.dependsOn name
  | binary _ left right => left.dependsOn name || right.dependsOn name
  | call _ args => anyDependsOn name args

/-- Whether a symbol occurs in one of the trees of a list. -/
def anyDependsOn (name : String) : List (Expr α) → Bool
  | [] => false
  | arg :: args => arg.dependsOn name || anyDependsOn name args

end

/-- A list of trees depends on a name just when one of them does. -/
theorem anyDependsOn_eq (name : String) (args : List (Expr α)) :
    anyDependsOn name args = args.any (dependsOn name) := by
  induction args with
  | nil => rfl
  | cons arg args ih => simp [anyDependsOn, ih]

/-! ## Substitution -/

mutual

/-- Puts a tree in the place of every occurrence of a symbol. The occurrences of the symbol in
the new tree stay. -/
def substitute : Expr α → String → Expr α → Expr α
  | const value, _, _ => const value
  | symbol other, name, replacement => if other = name then replacement else symbol other
  | unary op operand, name, replacement => unary op (operand.substitute name replacement)
  | binary op left right, name, replacement =>
    binary op (left.substitute name replacement) (right.substitute name replacement)
  | call function args, name, replacement => call function (substituteAll args name replacement)

/-- Substitutes in every tree of a list. -/
def substituteAll : List (Expr α) → String → Expr α → List (Expr α)
  | [], _, _ => []
  | arg :: args, name, replacement =>
    arg.substitute name replacement :: substituteAll args name replacement

end

/-- To substitute in a list of trees is to substitute in each of them. -/
theorem substituteAll_eq (name : String) (replacement : Expr α) (args : List (Expr α)) :
    substituteAll args name replacement = args.map (·.substitute name replacement) := by
  induction args with
  | nil => rfl
  | cons arg args ih => simp [substituteAll, ih]

/-! ## Equality -/

mutual

/-- Whether two trees have the same shape, names and operators, and equal numbers as constants.
A tree with a constant that is not equal to itself is not equal to itself either. -/
def sameAs [BEq α] : Expr α → Expr α → Bool
  | const a, const b => a == b
  | symbol a, symbol b => a == b
  | unary op a, unary op' b => op == op' && a.sameAs b
  | binary op a b, binary op' a' b' => op == op' && a.sameAs a' && b.sameAs b'
  | call name args, call name' args' => name == name' && allSameAs args args'
  | _, _ => false

/-- Whether two lists have the same length and equal trees at every place. -/
def allSameAs [BEq α] : List (Expr α) → List (Expr α) → Bool
  | [], [] => true
  | arg :: args, arg' :: args' => arg.sameAs arg' && allSameAs args args'
  | _, _ => false

end

instance [BEq α] : BEq (Expr α) := ⟨sameAs⟩

/-! ## Builders -/

instance : Add (Expr α) := ⟨binary .add⟩

instance : Sub (Expr α) := ⟨binary .sub⟩

instance : Mul (Expr α) := ⟨binary .mul⟩

instance : Div (Expr α) := ⟨binary .div⟩

instance : Neg (Expr α) := ⟨unary .neg⟩

instance : HPow (Expr α) (Expr α) (Expr α) := ⟨binary .pow⟩

end Expr

end SurfaceGeometry
