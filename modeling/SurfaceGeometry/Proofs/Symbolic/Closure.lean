import SurfaceGeometry.Field
import SurfaceGeometry.Proofs.Number.Overflow
import SurfaceGeometry.Proofs.Shader.Finite
import SurfaceGeometry.Proofs.Symbolic.Hereditary
import SurfaceGeometry.Proofs.Symbolic.Symbols

/-!
# Derivatives compile

To compile is hereditary (`Expr.hereditary_compiles`), because a call compiles just when its
arguments do and the function is in the table, and both operands of a power compile, also an
exponent that is left out. What can be asked of constants is hereditary, too, if finite numbers have
it (`Expr.hereditary_literals`), as to be finite is (`Expr.hereditary_finiteConstants`). So
derivatives of every order are as good as the tree that they come from, and they have none but its
symbols (`Expr.Differentiates.mem_occurrences`).
-/

namespace SurfaceGeometry

namespace Expr

/-! ## Trees that compile -/

section

variable {α : Type} [Scalar α] {scope : Scope} {var name : String} {e d u v : Expr α}

namespace Compiles

/-- The argument of a call that compiles compiles, whatever the function is. -/
theorem of_call (h : (Expr.call name [u]).Compiles scope) : u.Compiles scope := by
  obtain ⟨code, h⟩ := h
  obtain ⟨arg, f, inner, hargs, -, harg, -⟩ | ⟨first, second, f, left, right, hargs, -⟩ :=
    compile_call_eq_ok h
  · cases hargs
    exact ⟨inner, harg⟩
  · cases hargs

/-- Both arguments of a call of two arguments that compiles compile. -/
theorem of_call₂ (h : (Expr.call name [u, v]).Compiles scope) :
    u.Compiles scope ∧ v.Compiles scope := by
  obtain ⟨code, h⟩ := h
  obtain ⟨arg, f, inner, hargs, -⟩ | ⟨first, second, f, left, right, hargs, -, hl, hr, -⟩ :=
    compile_call_eq_ok h
  · cases hargs
  · cases hargs
    exact ⟨⟨left, hl⟩, ⟨right, hr⟩⟩

/-- A call still compiles when its arguments become others that compile. -/
theorem map {args : List (Expr α)} {f : Expr α → Expr α} (h : (Expr.call name args).Compiles scope)
    (hargs : ∀ arg ∈ args, arg.Compiles scope → (f arg).Compiles scope) :
    (Expr.call name (args.map f)).Compiles scope := by
  obtain ⟨code, h⟩ := h
  obtain ⟨arg, function, inner, rfl, hname, harg, -⟩ |
    ⟨first, second, function, left, right, rfl, hname, hl, hr, -⟩ := compile_call_eq_ok h
  · exact .call hname (hargs arg (by simp) ⟨inner, harg⟩)
  · exact .call₂ hname (hargs first (by simp) ⟨left, hl⟩) (hargs second (by simp) ⟨right, hr⟩)

end Compiles

/-- To compile is hereditary. The constants of the rules compile in every scope, and the rules call
only functions that are in the table. -/
theorem hereditary_compiles (scope : Scope) :
    Hereditary fun e : Expr α => e.Compiles scope where
  zero := .const 0
  one := .const 1
  two := .const 2
  lnTen := .const _
  finite _ := .const _
  opposite _ := .const _
  predecessor _ := .const _
  unary := ⟨.of_unary, .unary⟩
  binary := ⟨Compiles.of_binary, fun h => .binary h.1 h.2⟩
  call hf := ⟨.of_call, .call hf⟩
  call₂ hf := ⟨Compiles.of_call₂, fun h => .call₂ hf h.1 h.2⟩
  map := .map

namespace Compiles

/-- Simplification keeps what compiles, also with the constants that it merges. -/
theorem simplify (he : e.Compiles scope) : e.simplify.Compiles scope :=
  (hereditary_compiles scope).simplify .const he

/-- The derivative of a tree that compiles compiles in the same scope. -/
theorem derivative (he : e.Compiles scope) (h : e.derivative var = .ok d) : d.Compiles scope :=
  (hereditary_compiles scope).differentiates (differentiates_of_derivative h) he

/-- The derivative still compiles when it has been simplified. -/
theorem differentiate (he : e.Compiles scope) (h : e.differentiate var = .ok d) :
    d.Compiles scope := by
  obtain ⟨raw, hraw, rfl⟩ := Outcome.map_eq_ok.1 h
  exact (he.derivative hraw).simplify

end Compiles

/-- The derivative of higher order: with respect to one variable after the other. -/
def differentiateBy (wrt : List String) (e : Expr α) : Except (ExprError α) (Expr α) :=
  wrt.foldlM (fun e var => e.differentiate var) e

/-- Derivatives of higher order compile, one variable after the other. -/
theorem Compiles.differentiateBy {wrt : List String} (he : e.Compiles scope)
    (h : e.differentiateBy wrt = .ok d) : d.Compiles scope := by
  induction wrt generalizing e with
  | nil =>
    cases h
    exact he
  | cons var wrt ih =>
    rw [Expr.differentiateBy, List.foldlM_cons] at h
    obtain ⟨first, hfirst, h⟩ := Outcome.bind_eq_ok.1 h
    exact ih (he.differentiate hfirst) h

end

/-! ## Constants -/

/-- What every finite number has, and the opposite and the predecessor of each number that has it,
can be asked of all constants of a tree. -/
theorem hereditary_literals {property : Float → Prop}
    (finite : ∀ {c : Float}, Scalar.isFinite c = true → property c)
    (opposite : ∀ {c : Float}, property c → property (-c))
    (predecessor : ∀ {c : Float}, property c → property (c - 1)) :
    Hereditary fun e : Expr Float => ∀ c ∈ e.literals, property c where
  zero := List.forall_mem_singleton.2 (finite isFinite_zero)
  one := List.forall_mem_singleton.2 (finite isFinite_one)
  two := List.forall_mem_singleton.2 (finite isFinite_two)
  lnTen := List.forall_mem_singleton.2 (finite (by decide +kernel))
  finite h := List.forall_mem_singleton.2 (finite h)
  opposite h := List.forall_mem_singleton.2 (opposite (List.forall_mem_singleton.1 h))
  predecessor h := List.forall_mem_singleton.2 (predecessor (List.forall_mem_singleton.1 h))
  unary := Iff.rfl
  binary := forall_literals_binary
  call _ := forall_literals_call
  call₂ _ := forall_literals_call₂
  map h hargs := by
    rw [forall_literals_args] at h ⊢
    intro arg hmem
    obtain ⟨arg, harg, rfl⟩ := List.mem_map.1 hmem
    exact hargs arg harg (h arg harg)

/-- To have finite constants only is hereditary: neither the opposite nor the predecessor of a
finite double overflows. -/
theorem hereditary_finiteConstants : Hereditary (FiniteConstants : Expr Float → Prop) :=
  hereditary_literals id Double.isFinite_neg Double.isFinite_sub_one

end Expr

/-! ## Derivatives -/

open CompiledFunction (ofExpr) in
/-- The derivatives of a tree that compiles compile, with the same variables and the same store. -/
theorem Expr.derivatives_compile {e : Expr Float} {vars : List String} {p : Parameters Float}
    {f : CompiledFunction Float} (hf : ofExpr e vars p = .ok f) :
    (∀ var raw, e.derivative var = .ok raw →
      ∃ d, e.differentiate var = .ok d ∧ d.symbols ⊆ raw.symbols ∧ raw.symbols ⊆ e.symbols ∧
        (∃ g, ofExpr raw vars p = .ok g) ∧ (∃ g, ofExpr d vars p = .ok g) ∧
        ((∃ text, e.shader = .ok text) → ∃ text, raw.shader = .ok text)) ∧
    ∀ wrt d, e.differentiateBy wrt = .ok d →
      (∃ g, ofExpr d vars p = .ok g) ∧
        ∀ cause, Artifact.ofExpr d vars p = .error cause → d.shader = .error cause := by
  have he := CompiledFunction.compiles_of_ofExpr hf
  refine ⟨fun var raw hraw => ?_, fun wrt d hd => ?_⟩
  · have hrule := differentiates_of_derivative hraw
    have hcompiles := he.derivative hraw
    refine ⟨raw.simplify, Outcome.map_eq_ok.2 ⟨raw, hraw, rfl⟩, fun name hname => ?_,
      fun name hname => ?_, CompiledFunction.exists_ofExpr hf hcompiles,
      CompiledFunction.exists_ofExpr hf hcompiles.simplify, ?_⟩
    · exact mem_symbols.2 (occurrences_simplify (mem_symbols.1 hname))
    · exact mem_symbols.2 (hrule.mem_occurrences (mem_symbols.1 hname))
    · rintro ⟨text, htext⟩
      exact (exists_shader_iff_finiteConstants hcompiles).2
        (hereditary_finiteConstants.differentiates hrule (finiteConstants_of_shader htext))
  · obtain ⟨g, hg⟩ := CompiledFunction.exists_ofExpr hf (he.differentiateBy hd)
    refine ⟨⟨g, hg⟩, fun cause hcause => ?_⟩
    rw [Artifact.ofExpr, Base.ofExpr, hg] at hcause
    cases hshader : d.shader with
    | ok text =>
      rw [hshader] at hcause
      cases hcause
    | error error =>
      rw [hshader] at hcause
      cases hcause
      rfl

open CompiledFunction (ofExpr) in
/-- The second derivative of `x ^ a * tan(x)`, of a variable and a parameter. -/
theorem Expr.derivatives_compile_second :
    let e : Expr Float := .binary .mul (.binary .pow (.symbol "x") (.symbol "a"))
      (.call "tan" [.symbol "x"])
    let p : Parameters Float := .ofList [("a", 2)]
    (∃ f, ofExpr e ["x"] p = .ok f) ∧
      ∃ d, e.differentiateBy ["x", "x"] = .ok d ∧ ∃ g, ofExpr d ["x"] p = .ok g := by
  intro e p
  have hf : ∃ f, ofExpr e ["x"] p = .ok f := ⟨_, rfl⟩
  have hsecond : ∃ d, e.differentiateBy ["x", "x"] = .ok d := ⟨_, rfl⟩
  refine ⟨hf, ?_⟩
  obtain ⟨f, hf⟩ := hf
  obtain ⟨d, hd⟩ := hsecond
  exact ⟨d, hd, ((derivatives_compile hf).2 ["x", "x"] d hd).1⟩

end SurfaceGeometry
