import SurfaceGeometry.Field
import SurfaceGeometry.Proofs.Bytecode.Names
import SurfaceGeometry.Proofs.Symbolic.Symbols

/-!
# Derivatives as they are built

What is built as a derivative of a base is either the compiled tree of the derivative with the text
of that tree, or, where there is no such tree, the finite difference of the base with the text of
its stencil (`Artifact.DerivativeOf`). Built against a later state of the store it comes out the
same (`Artifact.DerivativeOf.extends`): a derivative has no symbols but those of its base, which was
compiled.
-/

namespace SurfaceGeometry

variable {α : Type} [Scalar α]

/-- Settings are accepted just when they have no fault. -/
theorem SurfaceSettings.check_eq_ok {settings : SurfaceSettings α} :
    settings.check = .ok () ↔ settings.fault? = none := by
  unfold check
  cases settings.fault? <;> simp

variable [NumberText α] {e d : Expr α} {vars : List String} {p q : Parameters α}

/-! ## Bases -/

namespace Base

/-- A base is built of a tree just when the tree compiles and can be written as shader text. -/
theorem ofExpr_eq_ok {base : Base α} : ofExpr e vars p = .ok base ↔
    base.tree = e ∧ CompiledFunction.ofExpr e vars p = .ok base.function ∧
      e.shader = .ok base.shader := by
  constructor
  · intro h
    obtain ⟨f, hf, h⟩ := Outcome.bind_eq_ok.1 h
    obtain ⟨text, htext, h⟩ := Outcome.bind_eq_ok.1 h
    cases h
    exact ⟨rfl, hf, htext⟩
  · rintro ⟨rfl, hf, htext⟩
    rw [ofExpr, hf, htext]
    rfl

/-- When a tree was compiled against an earlier state of a store, all trees without other symbols
are built or fail against a later one as they did against the earlier one. -/
theorem ofExpr_extends {f : CompiledFunction α} (h : CompiledFunction.ofExpr e vars p = .ok f)
    (hpq : p.Extends q) (hq : q.Unreserved)
    (hsymbols : ∀ name ∈ d.occurrences, name ∈ e.occurrences) :
    ofExpr d vars q = ofExpr d vars p := by
  rw [ofExpr, ofExpr, CompiledFunction.ofExpr_extends h hpq hq hsymbols]

end Base

/-! ## Derivatives -/

namespace Artifact

section

variable (derivative : Except (ExprError α) (Expr α)) (base : Base α) (vars : List String)
  (p : Parameters α) (stencil : Stencil) (widths : DifferenceSettings α)

/-- What a derivative of a base is built as. -/
inductive DerivativeOf : Artifact α → Prop where
  /-- The tree of the derivative, compiled, and its text. -/
  | symbolic {tree f text} (found : derivative = .ok tree)
      (compiled : CompiledFunction.ofExpr tree vars p = .ok f)
      (shader : tree.shader = .ok text) : DerivativeOf ⟨.compiled f, text⟩
  /-- The finite difference of the base, and the text of the tree of the stencil. -/
  | difference {cause text}
      (missing : (derivative.bind fun tree => ofExpr tree vars p) = .error cause)
      (shader : (stencil.tree base.tree vars widths.shaderStep).shader = .ok text) :
      DerivativeOf ⟨.difference base.function stencil widths.nativeStep, text⟩

end

variable {label : String} {derivative : Except (ExprError α) (Expr α)} {base : Base α}
  {stencil : Stencil} {widths : DifferenceSettings α} {artifact : Artifact α}

/-- An artifact of a tree is the compiled tree with its text. -/
theorem ofExpr_eq_ok : ofExpr e vars p = .ok artifact ↔
    ∃ f text, CompiledFunction.ofExpr e vars p = .ok f ∧ e.shader = .ok text ∧
      artifact = ⟨.compiled f, text⟩ := by
  constructor
  · intro h
    obtain ⟨base, hbase, rfl⟩ := Outcome.map_eq_ok.1 h
    obtain ⟨-, hf, htext⟩ := Base.ofExpr_eq_ok.1 hbase
    exact ⟨base.function, base.shader, hf, htext, rfl⟩
  · rintro ⟨f, text, hf, htext, rfl⟩
    have hbase : Base.ofExpr e vars p = .ok ⟨e, f, text⟩ := Base.ofExpr_eq_ok.2 ⟨rfl, hf, htext⟩
    rw [ofExpr, hbase]
    rfl

/-- A derivative is built, by either of the two ways, just when it is what a derivative of the base
is built as. -/
theorem ofDerivative_eq_ok :
    (ofDerivative label derivative base vars p stencil widths).outcome = .ok artifact ↔
      DerivativeOf derivative base vars p stencil widths artifact := by
  cases hfound : derivative.bind fun tree => ofExpr tree vars p with
  | ok made =>
    have houtcome :
        (ofDerivative label derivative base vars p stencil widths).outcome = .ok made := by
      rw [ofDerivative, hfound]
      rfl
    rw [houtcome]
    obtain ⟨tree, htree, hmade⟩ := Outcome.bind_eq_ok.1 hfound
    obtain ⟨f, text, hf, htext, rfl⟩ := ofExpr_eq_ok.1 hmade
    constructor
    · rintro ⟨⟩
      exact .symbolic htree hf htext
    · intro h
      cases h with
      | symbolic htree' hf' htext' =>
        cases htree.symm.trans htree'
        cases hf.symm.trans hf'
        cases htext.symm.trans htext'
        rfl
      | difference hmissing => cases hfound.symm.trans hmissing
  | error cause =>
    have houtcome : (ofDerivative label derivative base vars p stencil widths).outcome =
        ofStencil base vars stencil widths := by
      rw [ofDerivative, hfound]
      rfl
    rw [houtcome]
    constructor
    · intro h
      obtain ⟨text, htext, h⟩ := Outcome.bind_eq_ok.1 h
      cases h
      exact .difference hfound htext
    · intro h
      cases h with
      | symbolic htree hf htext =>
        have hmade := ofExpr_eq_ok.2 ⟨_, _, hf, htext, rfl⟩
        rw [htree] at hfound
        cases hfound.symm.trans hmade
      | difference _ htext =>
        rw [ofStencil, htext]
        rfl

/-- A derivative without symbols that its base does not have is built against a later state of the
store as it was against the earlier one. -/
theorem DerivativeOf.extends (h : DerivativeOf derivative base vars p stencil widths artifact)
    (hbase : CompiledFunction.ofExpr base.tree vars p = .ok base.function) (hpq : p.Extends q)
    (hq : q.Unreserved)
    (hsymbols : ∀ d, derivative = .ok d → ∀ name ∈ d.occurrences, name ∈ base.tree.occurrences) :
    DerivativeOf derivative base vars q stencil widths artifact := by
  cases h with
  | @symbolic tree f text hfound hf htext =>
    rw [← CompiledFunction.ofExpr_extends hbase hpq hq (hsymbols tree hfound)] at hf
    exact .symbolic hfound hf htext
  | difference hmissing htext =>
    have hsame : (derivative.bind fun tree => ofExpr tree vars q) =
        derivative.bind fun tree => ofExpr tree vars p :=
      Outcome.bind_congr_of_ok fun tree htree => by
        rw [ofExpr, ofExpr, Base.ofExpr_extends hbase hpq hq (hsymbols tree htree)]
    exact .difference (hsame.trans hmissing) htext

end Artifact

end SurfaceGeometry
