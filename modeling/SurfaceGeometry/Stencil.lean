import SurfaceGeometry.Expr.Basic

/-!
# Finite differences

Central differences of first and second order, in two forms: `Stencil.difference` evaluates a
function at shifted arguments, and `Stencil.tree` is the expression that does the same, with the
shifts written into a tree.
-/

namespace SurfaceGeometry

/-- A partial derivative, by the positions of its variables. -/
inductive Stencil where
  | first (i : Nat)
  | second (i : Nat)
  | mixed (i j : Nat)
deriving DecidableEq, Repr

namespace Stencil

variable {α : Type} [Scalar α]

/-! ## Of functions -/

/-- Adds shifts to the arguments at the given positions. -/
def shift (shifts : List (Nat × α)) (args : List α) : List α :=
  shifts.foldl (fun args s => args.modify s.1 (· + s.2)) args

/-- The finite difference of a function, of width `h`. -/
def difference (f : List α → α) (s : Stencil) (h : α) (args : List α) : α :=
  let probe (shifts : List (Nat × α)) : α := f (shift shifts args)
  match s with
  | first i => (probe [(i, h)] - probe [(i, -h)]) / (2 * h)
  | second i => (probe [(i, h)] - 2 * probe [] + probe [(i, -h)]) / (h * h)
  | mixed i j =>
    (probe [(i, h), (j, h)] - probe [(i, h), (j, -h)] - probe [(i, -h), (j, h)] +
      probe [(i, -h), (j, -h)]) / (4 * h * h)

/-! ## Of expressions -/

/-- A symbol and a shift of it. Negative shifts are subtracted. -/
def shiftedSymbol (name : String) (shift : α) : Expr α :=
  if shift < 0 then .symbol name - .const (-shift) else .symbol name + .const shift

/-- A tree with shifts written into it, one variable after the other. -/
def shiftTree (vars : List String) (shifts : List (Nat × α)) (e : Expr α) : Expr α :=
  shifts.foldl
    (fun e s =>
      match vars[s.1]? with
      | some name => e.substitute name (shiftedSymbol name s.2)
      | none => e)
    e

/-- The finite difference of a tree, of width `h`, as a tree. -/
def tree (e : Expr α) (vars : List String) (s : Stencil) (h : α) : Expr α :=
  let probe (shifts : List (Nat × α)) : Expr α := shiftTree vars shifts e
  match s with
  | first i => (probe [(i, h)] - probe [(i, -h)]) / Expr.const (2 * h)
  | second i =>
    (probe [(i, h)] - .const 2 * probe [] + probe [(i, -h)]) / Expr.const (h * h)
  | mixed i j =>
    (probe [(i, h), (j, h)] - probe [(i, h), (j, -h)] - probe [(i, -h), (j, h)] +
      probe [(i, -h), (j, -h)]) / Expr.const (4 * h * h)

end Stencil

end SurfaceGeometry
