import Mathlib
import SurfaceGeometry.Field
import SurfaceGeometry.Proofs.Bytecode.Substitution
import SurfaceGeometry.Proofs.Exact.Real

/-!
# Both forms of a finite difference

The tree that a stencil writes, compiled, is the finite difference of the compiled function
(`Stencil.call_tree`). Of the arithmetic this needs only that to subtract is to add the opposite and
that the opposite of an opposite is the number again, because the tree subtracts a negative shift
where the probe adds it. The shifts of a probe are substituted one after the other, each into the
tree that the ones before it have left, so that the value of the tree comes from them in the reverse
order (`Stencil.value?_shiftTree`).
-/

namespace SurfaceGeometry

variable {α : Type} [Scalar α]

/-! ## Shifted arguments -/

/-- To look up the shifted arguments is to give one variable another value. -/
theorem Scope.lookup_modify (scope : Scope) {args params : List α} {name : String} {i : Nat}
    {a : α} (hvars : scope.vars.Nodup) (hi : scope.vars[i]? = some name) (ha : args[i]? = some a)
    (f : α → α) :
    Function.update (scope.lookup args params) name (some (f a)) =
      scope.lookup (args.modify i f) params := by
  funext other
  by_cases heq : other = name
  · rw [heq, Function.update_self, lookup, lastIndexOf?_of_nodup hvars hi]
    simp [ha]
  · rw [Function.update_of_ne heq, lookup, lookup]
    cases hlast : lastIndexOf? other scope.vars with
    | none => rfl
    | some j =>
      have hne : i ≠ j := by
        rintro rfl
        exact heq (Option.some_inj.1 ((getElem?_of_lastIndexOf? hlast).symm.trans hi))
      exact (List.getElem?_modify_ne f args hne).symm

namespace Stencil

/-- The positions of a stencil are those of a number of variables, and the two of a mixed one are
not the same. -/
def Fits (n : Nat) : Stencil → Prop
  | first i | second i => i < n
  | mixed i j => i < n ∧ j < n ∧ i ≠ j

/-- To shift by two lists, one after the other, is to shift by the first and then by the second. -/
theorem shift_append (shifts more : List (Nat × α)) (args : List α) :
    shift (shifts ++ more) args = shift more (shift shifts args) :=
  List.foldl_append

@[simp] theorem length_shift (shifts : List (Nat × α)) (args : List α) :
    (shift shifts args).length = args.length := by
  induction shifts generalizing args with
  | nil => rfl
  | cons s shifts ih =>
    have hmodified := ih (args.modify s.1 (· + s.2))
    rw [List.length_modify] at hmodified
    exact hmodified

/-- Shifts at two positions can be made in either order. -/
theorem shift_comm {i j : Nat} (hij : i ≠ j) (a b : α) (args : List α) :
    shift [(j, b), (i, a)] args = shift [(i, a), (j, b)] args :=
  List.modify_modify_ne _ _ args hij.symm

/-! ## Shifts in trees -/

section

variable {vars : List String} {names : List String} {args params : List α} {e : Expr α}
  (hsub : ∀ a b : α, a + -b = a - b) (hneg : ∀ b : α, - -b = b)

/-- A shifted symbol is no literal, so that no operation on it becomes a power with a fixed
exponent. -/
theorem constant?_shiftedSymbol (name : String) (δ : α) :
    (shiftedSymbol name δ).constant? = none := by
  unfold shiftedSymbol
  split <;> rfl

include hsub hneg in
/-- A negative shift is subtracted, and that is to add it. -/
theorem value?_shiftedSymbol {lookup : String → Option α} {name : String} {a : α}
    (h : lookup name = some a) (δ : α) :
    (shiftedSymbol name δ).value? lookup = some (a + δ) := by
  have hsymbol : (Expr.symbol name).value? lookup = some a := h
  have hsubtracted : a - -δ = a + δ := by rw [← hsub, hneg]
  unfold shiftedSymbol
  split
  · exact (Expr.value?_binary_of (by decide) hsymbol rfl).trans (congrArg some hsubtracted)
  · exact Expr.value?_binary_of (by decide) hsymbol rfl

/-- A shifted variable compiles wherever the variable is one of the arguments. -/
theorem compiles_shiftedSymbol {name : String} (hname : name ∈ vars) (δ : α) :
    (shiftedSymbol name δ).Compiles ⟨vars, names⟩ := by
  have hsymbol : (Expr.symbol name : Expr α).Compiles ⟨vars, names⟩ := by
    cases hlast : lastIndexOf? name vars with
    | none => exact absurd hname (lastIndexOf?_eq_none.1 hlast)
    | some i => exact ⟨[.argument i], by rw [Expr.compile, Scope.resolve?, hlast]⟩
  unfold shiftedSymbol
  split <;> exact hsymbol.binary ⟨_, rfl⟩

/-- The first shift is substituted first, and the later ones into what it leaves. -/
theorem shiftTree_cons {i : Nat} {name : String} (hi : vars[i]? = some name) (δ : α)
    (shifts : List (Nat × α)) (e : Expr α) :
    shiftTree vars ((i, δ) :: shifts) e =
      shiftTree vars shifts (e.substitute name (shiftedSymbol name δ)) := by
  rw [shiftTree, List.foldl_cons, hi]
  rfl

include hsub hneg in
/-- The value of a tree with shifts written into it is the value of the tree at the shifted
arguments. -/
theorem value?_shiftTree (hvars : vars.Nodup) (hargs : args.length = vars.length)
    {shifts : List (Nat × α)} (hshifts : ∀ s ∈ shifts, s.1 < vars.length) :
    (shiftTree vars shifts e).value? (Scope.lookup ⟨vars, names⟩ args params) =
      e.value? (Scope.lookup ⟨vars, names⟩ (shift shifts.reverse args) params) := by
  -- The shift that is substituted first is the last one that the arguments are given.
  induction shifts generalizing e with
  | nil => rfl
  | cons s shifts ih =>
    obtain ⟨i, δ⟩ := s
    have hlt : i < vars.length := hshifts (i, δ) (by simp)
    have hi : vars[i]? = some vars[i] := List.getElem?_eq_getElem hlt
    have hlti : i < (shift shifts.reverse args).length := by rwa [length_shift, hargs]
    have ha := List.getElem?_eq_getElem hlti
    have hlookup : Scope.lookup ⟨vars, names⟩ (shift shifts.reverse args) params vars[i] =
        some (shift shifts.reverse args)[i] := by
      rw [Scope.lookup, lastIndexOf?_of_nodup hvars hi]
      exact ha
    rw [shiftTree_cons hi, ih fun s hs => hshifts s (by simp [hs]),
      Expr.value?_substitute (constant?_shiftedSymbol _ δ),
      value?_shiftedSymbol hsub hneg hlookup,
      Scope.lookup_modify ⟨vars, names⟩ hvars hi ha (· + δ), List.reverse_cons,
      shift_append]
    rfl

/-- A tree with shifted variables compiles when the tree does. -/
theorem compiles_shiftTree (h : e.Compiles ⟨vars, names⟩) (shifts : List (Nat × α))
    (hshifts : ∀ s ∈ shifts, s.1 < vars.length) :
    (shiftTree vars shifts e).Compiles ⟨vars, names⟩ := by
  induction shifts generalizing e with
  | nil => exact h
  | cons s shifts ih =>
    obtain ⟨i, δ⟩ := s
    have hlt : i < vars.length := hshifts (i, δ) (by simp)
    rw [shiftTree_cons (List.getElem?_eq_getElem hlt)]
    exact ih (h.substitute (constant?_shiftedSymbol _ δ)
      (compiles_shiftedSymbol (List.getElem_mem hlt) δ)) fun s hs => hshifts s (by simp [hs])

/-! ## Differences -/

include hsub hneg in
/-- The tree of a stencil has the finite difference of the values of the tree as its value. -/
theorem value?_tree {s : Stencil} {h : α} {F : List α → α} (hvars : vars.Nodup)
    (hs : s.Fits vars.length) (hargs : args.length = vars.length)
    (hF : ∀ args : List α, args.length = vars.length →
      e.value? (Scope.lookup ⟨vars, names⟩ args params) = some (F args)) :
    (s.tree e vars h).value? (Scope.lookup ⟨vars, names⟩ args params) =
      some (s.difference F h args) := by
  have hprobe (shifts : List (Nat × α)) (hshifts : ∀ s ∈ shifts, s.1 < vars.length) :
      (shiftTree vars shifts e).value? (Scope.lookup ⟨vars, names⟩ args params) =
        some (F (shift shifts.reverse args)) := by
    rw [value?_shiftTree hsub hneg hvars hargs hshifts, hF]
    rw [length_shift, hargs]
  cases s with
  | first i =>
    have hone (δ : α) := hprobe [(i, δ)] (by simpa [Fits] using hs)
    exact Expr.value?_binary_of (by decide)
      (Expr.value?_binary_of (by decide) (hone h) (hone (-h))) rfl
  | second i =>
    have hone (δ : α) := hprobe [(i, δ)] (by simpa [Fits] using hs)
    have hnone := hprobe [] (by simp)
    have htwice : (Expr.binary .mul (.const 2) e).value? (Scope.lookup ⟨vars, names⟩ args params) =
        some (2 * F args) := Expr.value?_binary_of (by decide) rfl hnone
    exact Expr.value?_binary_of (by decide)
      (Expr.value?_binary_of (by decide)
        (Expr.value?_binary_of (by decide) (hone h) htwice) (hone (-h))) rfl
  | mixed i j =>
    obtain ⟨hi, hj, hij⟩ := hs
    have htwo (a b : α) : (shiftTree vars [(i, a), (j, b)] e).value?
        (Scope.lookup ⟨vars, names⟩ args params) = some (F (shift [(i, a), (j, b)] args)) := by
      rw [hprobe _ (by simp [hi, hj]), ← shift_comm hij]
      rfl
    exact Expr.value?_binary_of (by decide)
      (Expr.value?_binary_of (by decide)
        (Expr.value?_binary_of (by decide)
          (Expr.value?_binary_of (by decide) (htwo h h) (htwo h (-h))) (htwo (-h) h))
        (htwo (-h) (-h))) rfl

/-- The tree of a stencil compiles when the tree of the base does. -/
theorem compiles_tree {s : Stencil} {h : α} (hs : s.Fits vars.length)
    (he : e.Compiles ⟨vars, names⟩) : (s.tree e vars h).Compiles ⟨vars, names⟩ := by
  have hconst (a : α) : (Expr.const a).Compiles ⟨vars, names⟩ := ⟨_, rfl⟩
  cases s with
  | first i =>
    have hone (δ : α) := compiles_shiftTree he [(i, δ)] (by simpa [Fits] using hs)
    exact ((hone h).binary (hone (-h))).binary (hconst _)
  | second i =>
    have hone (δ : α) := compiles_shiftTree he [(i, δ)] (by simpa [Fits] using hs)
    exact (((hone h).binary ((hconst 2).binary he)).binary (hone (-h))).binary (hconst _)
  | mixed i j =>
    obtain ⟨hi, hj, -⟩ := hs
    have htwo (a b : α) := compiles_shiftTree he [(i, a), (j, b)] (by simp [hi, hj])
    exact ((((htwo h h).binary (htwo h (-h))).binary (htwo (-h) h)).binary
      (htwo (-h) (-h))).binary (hconst _)

end

/-- Both forms of a finite difference are the same function. The tree of a stencil compiles when the
base does, and at all parameters and arguments it gives what the stencil gives of the compiled base,
provided that to subtract is to add the opposite. -/
theorem call_tree (hsub : ∀ a b : α, a + -b = a - b) (hneg : ∀ b : α, - -b = b) {e : Expr α}
    {vars : List String} {p : Parameters α} {f : CompiledFunction α} {s : Stencil} (h : α)
    (hvars : vars.Nodup) (hf : CompiledFunction.ofExpr e vars p = .ok f)
    (hs : s.Fits vars.length) :
    ∃ g, CompiledFunction.ofExpr (s.tree e vars h) vars p = .ok g ∧
      ∀ params args : List α, p.names.length ≤ params.length → args.length = vars.length →
        g.call params args = (SurfaceField.difference f s h).call params args := by
  obtain ⟨g, hg⟩ := CompiledFunction.exists_ofExpr hf
    (compiles_tree (h := h) hs ⟨f.code, (CompiledFunction.ofExpr_eq_ok hf).1⟩)
  refine ⟨g, hg, fun params args hparams hargs => ?_⟩
  have htree := value?_tree (h := h) hsub hneg hvars hs hargs fun args hargs =>
    CompiledFunction.value?_eq_call hf hparams hargs
  exact Option.some_inj.1 ((CompiledFunction.value?_eq_call hg hparams hargs).symm.trans htree)

/-- The mixed difference of `a * sin(x ^ y)` over the real numbers. -/
theorem call_tree_mixed :
    let p : Parameters ℝ := .ofList [("a", 2)]
    let e : Expr ℝ := .binary .mul (.symbol "a")
      (.call "sin" [.binary .pow (.symbol "x") (.symbol "y")])
    let f : CompiledFunction ℝ := ⟨[.parameter 0, .argument 0, .argument 1, .binary .pow,
      .call1 .sin, .binary .mul], 2⟩
    let s : Stencil := .mixed 0 1
    (∀ a b : ℝ, a + -b = a - b) ∧ (∀ b : ℝ, - -b = b) ∧ ["x", "y"].Nodup ∧
      CompiledFunction.ofExpr e ["x", "y"] p = .ok f ∧ s.Fits ["x", "y"].length ∧
      ∃ g, CompiledFunction.ofExpr (s.tree e ["x", "y"] (-3)) ["x", "y"] p = .ok g ∧
        ∀ params args : List ℝ, p.names.length ≤ params.length →
          args.length = ["x", "y"].length →
          g.call params args = (SurfaceField.difference f s (-3)).call params args := by
  intro p e f s
  have hsub : ∀ a b : ℝ, a + -b = a - b := fun a b => (sub_eq_add_neg a b).symm
  have hneg : ∀ b : ℝ, - -b = b := neg_neg
  have hvars : ["x", "y"].Nodup := by decide
  have hf : CompiledFunction.ofExpr e ["x", "y"] p = .ok f := rfl
  have hs : s.Fits ["x", "y"].length := ⟨by decide, by decide, by decide⟩
  exact ⟨hsub, hneg, hvars, hf, hs, call_tree hsub hneg (-3) hvars hf hs⟩

end Stencil

end SurfaceGeometry
