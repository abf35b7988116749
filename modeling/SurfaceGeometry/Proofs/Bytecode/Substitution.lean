import SurfaceGeometry.Proofs.Bytecode.Names
import Mathlib.Logic.Function.Basic

/-!
# Substitution in trees

A tree that is substituted for a symbol is evaluated in the place of the symbol
(`Expr.value?_substitute`), and a tree that compiles still does when another one that compiles is
substituted (`Expr.Compiles.substitute`). What is substituted is no constant, so that a literal
whole exponent stays one, and no exponent becomes one.
-/

namespace SurfaceGeometry

variable {α : Type} [Scalar α]

namespace Expr

variable {e left right replacement : Expr α} {name : String} {scope : Scope}
  {lookup : String → Option α} {a b : α}

/-! ## Values -/

/-- An operator other than the power is applied to the values of its operands. A power is left out
here because a literal whole exponent is not evaluated. -/
theorem value?_binary_of {op : BinaryOp} (hop : op ≠ .pow) (hl : left.value? lookup = some a)
    (hr : right.value? lookup = some b) :
    (binary op left right).value? lookup = some (op.apply a b) := by
  rw [value?, hl, hr]
  · rfl
  · exact hop

/-- Arguments that are changed have their old values together if each of them has. -/
theorem values?_map {lookup' : String → Option α} {f : Expr α → Expr α} {args : List (Expr α)}
    (h : ∀ arg ∈ args, (f arg).value? lookup = arg.value? lookup') :
    values? lookup (args.map f) = values? lookup' args := by
  induction args with
  | nil => rfl
  | cons arg args ih =>
    rw [List.map_cons, values?, values?, h arg (by simp), ih fun arg harg => h arg (by simp [harg])]

/-- An exponent is a literal whole number after a substitution if it was one before. -/
theorem wholeExponent?_substitute (hreplacement : replacement.constant? = none) (e : Expr α) :
    wholeExponent? (e.substitute name replacement) = wholeExponent? e := by
  cases e with
  | symbol other =>
    rw [substitute]
    split
    · rw [wholeExponent?, hreplacement]
      rfl
    · rfl
  | const => rw [substitute]
  | unary | binary | call =>
    rw [substitute]
    rfl

/-- The value after a substitution is the value with another value for the symbol, if powers keep
their value when their parts do. -/
theorem value?_substitute_of (hpow : ∀ base exponent : Expr α,
      (base.substitute name replacement).value? lookup =
          base.value? (Function.update lookup name (replacement.value? lookup)) →
        (exponent.substitute name replacement).value? lookup =
            exponent.value? (Function.update lookup name (replacement.value? lookup)) →
          (binary .pow (base.substitute name replacement)
              (exponent.substitute name replacement)).value? lookup =
            (binary .pow base exponent).value?
              (Function.update lookup name (replacement.value? lookup)))
    (e : Expr α) : (e.substitute name replacement).value? lookup =
      e.value? (Function.update lookup name (replacement.value? lookup)) := by
  induction e with
  | const value => rw [substitute, value?, value?]
  | symbol other =>
    rw [substitute, value?]
    split
    · next heq => rw [heq, Function.update_self]
    · next hne => rw [Function.update_of_ne hne, value?]
  | unary op operand ih => rw [substitute, value?, value?, ih]
  | binary op left right ihl ihr =>
    rw [substitute]
    by_cases hop : op = .pow
    · subst hop
      exact hpow left right ihl ihr
    · rw [value?, value?, ihl, ihr]
      · exact hop
      · exact hop
  | call function args ih =>
    rw [substitute, value?, value?, substituteAll_eq, values?_map ih]

/-- The value after a substitution is the value with another value for the symbol. -/
theorem value?_substitute (hreplacement : replacement.constant? = none)
    (lookup : String → Option α) (e : Expr α) :
    (e.substitute name replacement).value? lookup =
      e.value? (Function.update lookup name (replacement.value? lookup)) := by
  refine value?_substitute_of (fun base exponent hbase hexponent => ?_) e
  rw [value?, value?, wholeExponent?_substitute hreplacement, hbase, hexponent]

/-! ## Compilation -/

/-- The tree can be compiled. -/
def Compiles (scope : Scope) (e : Expr α) : Prop :=
  ∃ code, e.compile scope = .ok code

namespace Compiles

/-- A prefix operator adds an instruction to the code of its operand, and nothing that could fail.
-/
theorem unary {op : UnaryOp} (h : e.Compiles scope) : (Expr.unary op e).Compiles scope := by
  obtain ⟨code, hcode⟩ := h
  exact ⟨_, by rw [compile, hcode]; rfl⟩

/-- A power with a literal whole exponent, which is not compiled. -/
theorem powWhole {n : Int} (hl : left.Compiles scope) (hn : wholeExponent? right = some n) :
    (Expr.binary .pow left right).Compiles scope := by
  obtain ⟨code, hcode⟩ := hl
  exact ⟨_, by rw [compile, hcode, Outcome.ok_bind, hn]; rfl⟩

/-- Operators compile where their operands do; a power with a literal whole exponent does not even
ask it of the exponent. -/
theorem binary {op : BinaryOp} (hl : left.Compiles scope) (hr : right.Compiles scope) :
    (Expr.binary op left right).Compiles scope := by
  by_cases hop : op = .pow
  · subst hop
    cases hn : wholeExponent? right with
    | some n => exact hl.powWhole hn
    | none =>
      obtain ⟨codel, hcodel⟩ := hl
      obtain ⟨coder, hcoder⟩ := hr
      exact ⟨_, by rw [compile, hcodel, hcoder, Outcome.ok_bind, hn]; rfl⟩
  · obtain ⟨codel, hcodel⟩ := hl
    obtain ⟨coder, hcoder⟩ := hr
    refine ⟨codel ++ coder ++ [.binary op], ?_⟩
    rw [compile, hcodel, hcoder]
    · rfl
    · exact hop

/-- A call of a function of one argument compiles where the argument does. -/
theorem call {f : UnaryFunction} (hf : UnaryFunction.ofName? name = some f)
    (h : e.Compiles scope) : (Expr.call name [e]).Compiles scope := by
  obtain ⟨code, hcode⟩ := h
  exact ⟨_, by rw [compile, hf, hcode]; rfl⟩

/-- A call of a function of two arguments compiles where both arguments do. -/
theorem call₂ {f : BinaryFunction} (hf : BinaryFunction.ofName? name = some f)
    (hl : left.Compiles scope) (hr : right.Compiles scope) :
    (Expr.call name [left, right]).Compiles scope := by
  obtain ⟨codel, hcodel⟩ := hl
  obtain ⟨coder, hcoder⟩ := hr
  exact ⟨_, by rw [compile, hf, hcodel, hcoder]; rfl⟩

/-- Where a tree and the one that is substituted compile, so does the result. A constant is left
out, since it would make a power with a literal exponent of another one. -/
theorem substitute (h : e.Compiles scope) (hreplacement : replacement.constant? = none)
    (hcompiles : replacement.Compiles scope) :
    (e.substitute name replacement).Compiles scope := by
  obtain ⟨code, h⟩ := h
  induction e generalizing code with
  | const value =>
    rw [Expr.substitute]
    exact ⟨code, h⟩
  | symbol other =>
    rw [Expr.substitute]
    split
    · exact hcompiles
    · exact ⟨code, h⟩
  | unary op operand ih =>
    obtain ⟨inner, hinner, -⟩ := Outcome.bind_eq_ok.1 h
    rw [Expr.substitute]
    exact (ih inner hinner).unary
  | binary op left right ihl ihr =>
    rw [Expr.substitute]
    by_cases hop : op = .pow
    · subst hop
      obtain ⟨codel, hl, ⟨n, hn, -⟩ | ⟨-, coder, hr, -⟩⟩ := compile_pow_eq_ok h
      · exact (ihl codel hl).powWhole ((wholeExponent?_substitute hreplacement right).trans hn)
      · exact (ihl codel hl).binary (ihr coder hr)
    · obtain ⟨codel, coder, hl, hr, -⟩ := compile_binary_eq_ok hop h
      exact (ihl codel hl).binary (ihr coder hr)
  | call function args ih =>
    rw [Expr.substitute, substituteAll_eq]
    obtain ⟨arg, f, inner, rfl, hf, harg, -⟩ |
      ⟨first, second, f, codel, coder, rfl, hf, hl, hr, -⟩ := compile_call_eq_ok h
    · exact .call hf (ih arg (by simp) inner harg)
    · exact .call₂ hf (ih first (by simp) codel hl) (ih second (by simp) coder hr)

end Compiles

end Expr

end SurfaceGeometry
