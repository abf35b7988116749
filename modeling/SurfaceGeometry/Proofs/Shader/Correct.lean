import Mathlib
import SurfaceGeometry.Proofs.Bytecode.Names
import SurfaceGeometry.Proofs.Exact.Real
import SurfaceGeometry.Proofs.Shader.Meaning

/-!
# The text of a shader means the tree

`Expr.shader_value` puts together what the text of a tree is read as and what that evaluates to: the
whole text is one expression, and at all values of variables and parameters its value in exact
arithmetic is what the compiled tree gives. `Shader.declared` says what the names of the text stand
for: a parameter is declared outside of the function whose argument a variable is, and named
constants are not declared at all.
-/

namespace SurfaceGeometry

/-- What a name stands for in a shader: the last argument of the name, or else the parameter. -/
def Shader.declared {α : Type} (scope : Scope) (args params : List α) (name : String) : Option α :=
  (scope.parameters.zip params ++ scope.vars.zip args).reverse.lookup name

variable {K : Type} [Field K] [LinearOrder K] [ElementaryFunctions K] {scope : Scope}
  {args params : List K} {name : String}

/-- A name that is no named constant stands for the same number in both. -/
theorem Scope.lookup_eq_declared (hargs : args.length = scope.vars.length)
    (hparams : params.length = scope.parameters.length)
    (hfree : (Scalar.named? name : Option Float) = none) :
    scope.lookup args params name = Shader.declared scope args params name := by
  have hnone : (Scalar.named? name : Option K) = none := by
    rw [named?_exact, hfree]
    rfl
  unfold lookup Shader.declared
  rw [List.reverse_append, List.lookup_append, lookup_reverse_zip hargs, lookup_reverse_zip hparams,
    hnone]
  cases hvar : lastIndexOf? name scope.vars with
  | some i =>
    have hlt : i < args.length := by
      have := (List.getElem?_eq_some_iff.1 (getElem?_of_lastIndexOf? hvar)).1
      omega
    simp [hlt]
  | none =>
    cases hparam : lastIndexOf? name scope.parameters <;> simp

/-- A named constant that is neither a variable nor a parameter. -/
theorem Scope.lookup_constant {x : Float} (hvar : name ∉ scope.vars)
    (hparam : name ∉ scope.parameters) (hnamed : Scalar.named? name = some x) :
    scope.lookup args params name = some (Double.exact K x) := by
  unfold lookup
  rw [lastIndexOf?_eq_none.2 hvar, lastIndexOf?_eq_none.2 hparam]
  show Scalar.named? name = _
  rw [named?_exact, hnamed]
  rfl

/-- The text of a shader means the tree. If the names of a tree are words, the tree compiles, no
variable of it is named like a constant and it has a text, then the whole text is an expression of a
shader in exactly one way, and at all values of variables and parameters this has in exact
arithmetic the value of the tree, which is what the compiled function gives. -/
theorem Expr.shader_value [IsStrictOrderedRing K] {e : Expr Float} {vars : List String}
    {p : Parameters Float} {f : CompiledFunction Float} {text : String}
    (hnames : ∀ name ∈ e.symbols, Text.IsWord name)
    (hvars : ∀ name ∈ vars, (Scalar.named? name : Option Float) = none)
    (hf : CompiledFunction.ofExpr e vars p = .ok f) (htext : e.shader = .ok text) :
    ∃ tree : Expr Float, Shader.Reads text tree ∧
      (∀ tree', Shader.Reads text tree' → tree' = tree) ∧
      ∀ args params : List K, args.length = vars.length → params.length = p.names.length →
        ∃ value, (e.map (Double.exact K)).value? (Scope.lookup ⟨vars, p.names⟩ args params) =
            some value ∧
          (f.map (Double.exact K)).call params args = value ∧
          Shader.value? (Shader.declared ⟨vars, p.names⟩ args params)
            (tree.map (Double.exact K)) = some value := by
  obtain ⟨t, ht, rfl⟩ := Outcome.map_eq_ok.1 htext
  have htranslates := Shader.translates_ofExpr ht
  have hspells := htranslates.spells (fun _ => Shader.legible_abs) (by decide +kernel)
    fun name hmem => hnames name (mem_symbols.2 hmem)
  refine ⟨t.tree, hspells.reads, fun tree' h => h.unique hspells.reads,
    fun args params hargs hparams => ?_⟩
  have hvalue := CompiledFunction.call_exact K hf hargs hparams
  refine ⟨_, hvalue, rfl, htranslates.value (fun name x hnamed => ?_) (fun name hfree => ?_) hvalue⟩
  · refine Scope.lookup_constant (fun hmem => ?_) (fun hmem => ?_) hnamed
    · rw [hvars name hmem] at hnamed
      cases hnamed
    · rw [CompiledFunction.free_of_ofExpr hf name hmem] at hnamed
      cases hnamed
  · exact Scope.lookup_eq_declared hargs hparams hfree

/-- The formula `not x ^ 3 or -0.5 * ln(a)` of a variable and a parameter, at the real numbers. -/
theorem Expr.shader_value_real :
    let e : Expr Float := .binary .or (.unary .not (.binary .pow (.symbol "x") (.const 3)))
      (.binary .mul (.const (-0.5)) (.call "ln" [.symbol "a"]))
    let p : Parameters Float := .ofList [("a", 2)]
    let f : CompiledFunction Float := ⟨[.argument 0, .powInt 3, .unary .not, .const (-0.5),
      .parameter 0, .call1 .ln, .binary .mul, .binary .or], 1⟩
    let text := "(!((x * x * x)) || ((-0.5) * log(a)))"
    (∀ name ∈ e.symbols, Text.IsWord name) ∧
      (∀ name ∈ ["x"], (Scalar.named? name : Option Float) = none) ∧
      CompiledFunction.ofExpr e ["x"] p = .ok f ∧ e.shader = .ok text ∧
      ∃ tree : Expr Float, Shader.Reads text tree ∧
        (∀ tree', Shader.Reads text tree' → tree' = tree) ∧
        ∀ args params : List ℝ, args.length = ["x"].length → params.length = p.names.length →
          ∃ value, (e.map (Double.exact ℝ)).value? (Scope.lookup ⟨["x"], p.names⟩ args params) =
              some value ∧
            (f.map (Double.exact ℝ)).call params args = value ∧
            Shader.value? (Shader.declared ⟨["x"], p.names⟩ args params)
              (tree.map (Double.exact ℝ)) = some value := by
  intro e p f text
  have hnames : ∀ name ∈ e.symbols, Text.IsWord name := by
    have hall : e.symbols.all Shader.isLowerWord = true := by decide +kernel
    exact fun name hmem => Shader.isWord_of_isLowerWord (List.all_eq_true.1 hall name hmem)
  have hvars : ∀ name ∈ ["x"], (Scalar.named? name : Option Float) = none := by
    intro name hmem
    rw [List.mem_singleton.1 hmem]
    rfl
  have hf : CompiledFunction.ofExpr e ["x"] p = .ok f := rfl
  have htext : e.shader = .ok text := by
    let t : Shader.Term Float := .operation .disjunction
      (.prefixed .negation (.cube (.name "x")))
      (.operation .mul (.literal (-0.5)) (.call "log" [.name "a"]))
    have ht : Shader.Term.ofExpr e = .ok t := rfl
    have hwritten : t.text = text := by decide +kernel
    exact Outcome.map_eq_ok.2 ⟨t, ht, hwritten⟩
  exact ⟨hnames, hvars, hf, htext, shader_value hnames hvars hf htext⟩

end SurfaceGeometry
