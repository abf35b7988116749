import SurfaceGeometry.Proofs.Number.Overflow
import SurfaceGeometry.Proofs.Printer.RoundTrip
import SurfaceGeometry.Proofs.Stencil
import SurfaceGeometry.Proofs.Surface.Graph
import SurfaceGeometry.Proofs.Surface.Revolution
import SurfaceGeometry.Proofs.Symbolic.Closure

/-!
# Builds with derivatives that are missing

The tree of a stencil is made of the base, which compiled and has a text, and of numbers: so it has
a text just when the number below is finite (`Stencil.exists_shader_tree_iff`), and a derivative is
built just when its own tree can be or that number is finite (`Artifact.exists_derivativeOf_iff`).
The width is finite in settings that are accepted, but twice the width or its square need not be.
With a width for which they are, a build fails for no derivative (`SurfaceSettings.builds_succeed`);
with a greater one it can (`SurfaceSettings.not_builds_succeed`).
-/

namespace SurfaceGeometry

/-! ## Finite constants of stencils -/

namespace Stencil

/-- What the difference is divided by. -/
def denominator {α : Type} [Scalar α] (s : Stencil) (h : α) : α :=
  match s with
  | first _ => 2 * h
  | second _ => h * h
  | mixed _ _ => 4 * h * h

variable {e : Expr Float} {vars : List String} {h : Float} {s : Stencil}

/-- A symbol shifted by a finite number has no constant that is not finite. -/
theorem finiteConstants_shiftedSymbol {name : String} {δ : Float}
    (hδ : Scalar.isFinite δ = true) : (shiftedSymbol name δ).FiniteConstants := by
  have hneg : Scalar.isFinite (-δ) = true := Double.isFinite_neg hδ
  unfold shiftedSymbol
  split
  · simpa using hneg
  · simpa using hδ

/-- Shifts by finite numbers leave a tree without constants that are not finite. -/
theorem finiteConstants_shiftTree (he : e.FiniteConstants) {shifts : List (Nat × Float)}
    (hshifts : ∀ s ∈ shifts, Scalar.isFinite s.2 = true) :
    (shiftTree vars shifts e).FiniteConstants := by
  induction shifts generalizing e with
  | nil => exact he
  | cons s shifts ih =>
    rw [shiftTree, List.foldl_cons]
    refine ih ?_ fun s hs => hshifts s (by simp [hs])
    split
    · exact Expr.hereditary_finiteConstants.substitute he
        (finiteConstants_shiftedSymbol (hshifts s (by simp)))
    · exact he

/-- Of the numbers in the tree of a stencil only the one below can be infinite. -/
theorem finiteConstants_tree_iff (he : e.FiniteConstants) (hh : Scalar.isFinite h = true) :
    (s.tree e vars h).FiniteConstants ↔ Scalar.isFinite (s.denominator h) = true := by
  have hneg : Scalar.isFinite (-h) = true := Double.isFinite_neg hh
  have hshift {shifts : List (Nat × Float)} (hshifts : ∀ s ∈ shifts, s.2 = h ∨ s.2 = -h) :
      (shiftTree vars shifts e).FiniteConstants :=
    finiteConstants_shiftTree he fun s hs => by rcases hshifts s hs with heq | heq <;> rwa [heq]
  cases s <;> simp [tree, denominator, hshift]

/-- The tree of a stencil of a base that compiles and has a text has a text just when the number
below is finite. -/
theorem exists_shader_tree_iff {names : List String} {text : String}
    (he : e.Compiles ⟨vars, names⟩) (htext : e.shader = .ok text) (hs : s.Fits vars.length)
    (hh : Scalar.isFinite h = true) :
    (∃ text, (s.tree e vars h).shader = .ok text) ↔ Scalar.isFinite (s.denominator h) = true :=
  (Expr.exists_shader_iff_finiteConstants (compiles_tree hs he)).trans
    (finiteConstants_tree_iff (Expr.finiteConstants_of_shader htext) hh)

end Stencil

/-! ## Derivatives -/

namespace Artifact

variable {derivative : Except (ExprError Float) (Expr Float)} {tree : Expr Float}
  {base : Base Float} {vars : List String} {p : Parameters Float} {stencil : Stencil}
  {widths : DifferenceSettings Float}

/-- A derivative of a base is built just when its tree can be compiled and translated, or the number
below in its stencil is finite. -/
theorem exists_derivativeOf_iff (hbase : Base.ofExpr tree vars p = .ok base)
    (hstencil : stencil.Fits vars.length) (hwidth : Scalar.isFinite widths.shaderStep = true) :
    (∃ artifact, DerivativeOf derivative base vars p stencil widths artifact) ↔
      (∃ artifact, (derivative.bind fun tree => ofExpr tree vars p) = .ok artifact) ∨
        Scalar.isFinite (stencil.denominator widths.shaderStep) = true := by
  obtain ⟨rfl, hf, htext⟩ := Base.ofExpr_eq_ok.1 hbase
  have htree := Stencil.exists_shader_tree_iff (CompiledFunction.compiles_of_ofExpr hf) htext
    hstencil hwidth
  constructor
  · rintro ⟨artifact, h⟩
    cases h with
    | symbolic hfound hcompiled hshader =>
      have hmade := ofExpr_eq_ok.2 ⟨_, _, hcompiled, hshader, rfl⟩
      exact .inl ⟨_, by rw [hfound]; exact hmade⟩
    | difference _ hshader => exact .inr (htree.1 ⟨_, hshader⟩)
  · intro h
    cases hmade : derivative.bind fun tree => ofExpr tree vars p with
    | ok artifact =>
      obtain ⟨tree, hfound, hmade⟩ := Outcome.bind_eq_ok.1 hmade
      obtain ⟨f, text, hcompiled, hshader, rfl⟩ := ofExpr_eq_ok.1 hmade
      exact ⟨_, .symbolic hfound hcompiled hshader⟩
    | error cause =>
      rw [hmade] at h
      obtain ⟨text, hshader⟩ := htree.2 (h.resolve_left (by rintro ⟨_, h⟩; cases h))
      exact ⟨_, .difference hmade hshader⟩

end Artifact

/-! ## Builds -/

/-- The width of the stencils of accepted settings is finite. -/
theorem SurfaceSettings.isFinite_shaderStep {settings : SurfaceSettings Float}
    (h : settings.fault? = none) : Scalar.isFinite settings.difference.shaderStep = true := by
  have hpositive : positive settings.difference.shaderStep = true := by
    unfold fault? at h
    grind
  exact (Bool.and_eq_true_iff.1 hpositive).1

section

variable {source : String} {tree : Expr Float} {base : Base Float} {p : Parameters Float}
  {settings : SurfaceSettings Float}

/-- The stencils of the partial derivatives are stencils for the two variables of a sheet. -/
theorem Partial.fits_of_stencil? {which : Partial} {stencil : Stencil}
    (h : which.stencil? = some stencil) : stencil.Fits GraphSheet.vars.length := by
  cases which <;> cases h <;> simp [Stencil.Fits, GraphSheet.vars]

/-- A sheet is built when its base is and all its derivatives can be. -/
theorem GraphSheet.exists_built (hparse : Expr.parse source = .ok tree)
    (hbase : Base.ofExpr tree vars p = .ok base)
    (hderivatives : ∀ (which : Partial) stencil, which.stencil? = some stencil →
      ∃ artifact, Artifact.DerivativeOf (which.tree tree) base vars p stencil settings.difference
        artifact) :
    ∃ sheet : GraphSheet Float, sheet.base = base ∧ sheet.Built source p settings := by
  obtain rfl := (Base.ofExpr_eq_ok.1 hbase).1
  obtain ⟨fx, hfx⟩ := hderivatives .fx _ rfl
  obtain ⟨fy, hfy⟩ := hderivatives .fy _ rfl
  obtain ⟨fxx, hfxx⟩ := hderivatives .fxx _ rfl
  obtain ⟨fxy, hfxy⟩ := hderivatives .fxy _ rfl
  obtain ⟨fyy, hfyy⟩ := hderivatives .fyy _ rfl
  refine ⟨⟨source, base, fx, fy, fxx, fxy, fyy⟩, rfl, rfl, hparse, hbase, ?_⟩
  intro which stencil hstencil
  cases which <;> cases hstencil <;> assumption

/-- When the base can be built, so can the sheet, unless some derivative neither has a tree that can
be compiled and translated nor a stencil with a finite number below. -/
theorem GraphSheet.exists_build_iff (hsettings : settings.fault? = none)
    (hparse : Expr.parse source = .ok tree) (hbase : Base.ofExpr tree vars p = .ok base) :
    (∃ sheet, (build source p settings).outcome = .ok sheet) ↔
      ∀ (which : Partial) stencil, which.stencil? = some stencil →
        (∃ artifact, ((which.tree tree).bind fun d => Artifact.ofExpr d vars p) = .ok artifact) ∨
          Scalar.isFinite (stencil.denominator settings.difference.shaderStep) = true := by
  have hfinite := settings.isFinite_shaderStep hsettings
  constructor
  · rintro ⟨sheet, hsheet⟩ which stencil hstencil
    have hbuilt := build_eq_ok.1 hsheet
    have htree : sheet.base.tree = tree := Except.ok.inj (hbuilt.parse_eq.symm.trans hparse)
    have hderivative := hbuilt.derivativeOf hstencil
    rw [htree] at hderivative
    exact (Artifact.exists_derivativeOf_iff hbuilt.base_eq (Partial.fits_of_stencil? hstencil)
      hfinite).1 ⟨_, hderivative⟩
  · intro h
    obtain ⟨sheet, -, hbuilt⟩ := exists_built hparse hbase fun which stencil hstencil =>
      (Artifact.exists_derivativeOf_iff hbase (Partial.fits_of_stencil? hstencil) hfinite).2
        (h which stencil hstencil)
    exact ⟨sheet, build_eq_ok.2 hbuilt⟩

/-- A profile function is built when its base is and both its derivatives can be. -/
theorem ProfileFunction.exists_built (hparse : Expr.parse source = .ok tree)
    (hbase : Base.ofExpr tree vars p = .ok base)
    (hfirst : ∃ artifact, Artifact.DerivativeOf (tree.differentiate "u") base vars p (.first 0)
      settings.difference artifact)
    (hsecond : ∃ artifact, Artifact.DerivativeOf ((tree.differentiate "u").bind
      (·.differentiate "u")) base vars p (.second 0) settings.difference artifact) :
    ∃ f : ProfileFunction Float, f.base = base ∧ f.Built source p settings := by
  obtain rfl := (Base.ofExpr_eq_ok.1 hbase).1
  obtain ⟨first, hfirst⟩ := hfirst
  obtain ⟨second, hsecond⟩ := hsecond
  exact ⟨⟨source, base, first, second⟩, rfl, rfl, hparse, hbase, hfirst, hsecond⟩

end

/-! ## A base without derivatives -/

/-- The tree of `max(x, y)`, none of whose derivatives has a rule. -/
def maximumTree : Expr Float := .call "max" [.symbol "x", .symbol "y"]

/-- The source that is read in this example, as a tree. -/
theorem parse_maximum : Expr.parse "max(x, y)" = .ok maximumTree := by
  have hmax : Text.IsName "max" := by
    refine ⟨'m', ['a', 'x'], rfl, Text.startsWord_of_isLower rfl, ?_, by decide⟩
    rw [List.forall_mem_cons, List.forall_mem_singleton]
    exact ⟨Text.isWordChar_of_isLower rfl, Text.isWordChar_of_isLower rfl⟩
  have hx : Text.IsName "x" := ⟨'x', [], rfl, Text.startsWord_of_isLower rfl, by simp, by decide⟩
  have hy : Text.IsName "y" := ⟨'y', [], rfl, Text.startsWord_of_isLower rfl, by simp, by decide⟩
  have hwritable : maximumTree.Writable NumberText.Spelled := by
    refine .call hmax (by simp) ?_
    rw [List.forall_mem_cons, List.forall_mem_singleton]
    exact ⟨.symbol hx, .symbol hy⟩
  exact Expr.parse_text_eq hwritable

/-- The larger of the two variables is a base of a sheet: it compiles and can be written, although
it has no derivative. -/
theorem exists_base_maximum :
    ∃ base, Base.ofExpr maximumTree GraphSheet.vars (.ofList []) = .ok base := by
  have hcompiles : maximumTree.Compiles ⟨GraphSheet.vars, []⟩ := ⟨_, rfl⟩
  have hfinite : maximumTree.FiniteConstants := by simp [maximumTree]
  obtain ⟨text, htext⟩ := (Expr.exists_shader_iff_finiteConstants hcompiles).2 hfinite
  exact ⟨⟨_, _, text⟩, Base.ofExpr_eq_ok.2 ⟨rfl, rfl, htext⟩⟩

/-! ## All builds -/

/-- With settings that are accepted, and a width of the stencils for which the numbers below are
finite, no derivative fails a build: whenever the source is read and the base is built, so is the
surface, with every derivative from its tree or, where there is none, from its stencil. -/
theorem SurfaceSettings.builds_succeed {settings : SurfaceSettings Float}
    (hsettings : settings.fault? = none)
    (hwidth : ∀ stencil : Stencil,
      Scalar.isFinite (stencil.denominator settings.difference.shaderStep) = true) :
    (∀ source tree base (p : Parameters Float), Expr.parse source = .ok tree →
      Base.ofExpr tree GraphSheet.vars p = .ok base →
      ∃ sheet, (GraphSheet.build source p settings).outcome = .ok sheet ∧ sheet.base = base ∧
        sheet.Built source p settings) ∧
    ∀ radius height r h baseR baseH (p : Parameters Float),
      Expr.parse radius = .ok r → Base.ofExpr r ProfileFunction.vars p = .ok baseR →
      Expr.parse height = .ok h → Base.ofExpr h ProfileFunction.vars p = .ok baseH →
      ∃ profile, (Profile.build radius height p settings).outcome = .ok profile ∧
        profile.radius.base = baseR ∧ profile.radius.Built radius p settings ∧
        profile.height.base = baseH ∧ profile.height.Built height p settings := by
  have hderivative {vars : List String} {p : Parameters Float} {tree : Expr Float}
      {base : Base Float} (hbase : Base.ofExpr tree vars p = .ok base)
      (derivative : Except (ExprError Float) (Expr Float)) {stencil : Stencil}
      (hstencil : stencil.Fits vars.length) :
      ∃ artifact, Artifact.DerivativeOf derivative base vars p stencil settings.difference
        artifact :=
    (Artifact.exists_derivativeOf_iff hbase hstencil (isFinite_shaderStep hsettings)).2
      (.inr (hwidth stencil))
  constructor
  · intro source tree base p hparse hbase
    obtain ⟨sheet, heq, hbuilt⟩ := GraphSheet.exists_built hparse hbase
      fun which stencil hstencil => hderivative hbase _ (Partial.fits_of_stencil? hstencil)
    exact ⟨sheet, GraphSheet.build_eq_ok.2 hbuilt, heq, hbuilt⟩
  · intro radius height r h baseR baseH p hr hbaseR hh hbaseH
    have hfits : (Stencil.first 0).Fits 1 ∧ (Stencil.second 0).Fits 1 :=
      ⟨Nat.zero_lt_one, Nat.zero_lt_one⟩
    obtain ⟨f, hf, hbuiltf⟩ := ProfileFunction.exists_built hr hbaseR
      (hderivative hbaseR _ hfits.1) (hderivative hbaseR _ hfits.2)
    obtain ⟨g, hg, hbuiltg⟩ := ProfileFunction.exists_built hh hbaseH
      (hderivative hbaseH _ hfits.1) (hderivative hbaseH _ hfits.2)
    refine ⟨⟨f, g⟩, ?_, hf, hbuiltf, hg, hbuiltg⟩
    exact Report.bind_eq_ok.2 ⟨f, ProfileFunction.build_eq_ok.2 hbuiltf,
      Report.bind_eq_ok.2 ⟨g, ProfileFunction.build_eq_ok.2 hbuiltg, rfl⟩⟩

/-- The graph of `max(x, y)`, with the settings of a surface that was given none. -/
theorem SurfaceSettings.builds_succeed_maximum :
    let settings : SurfaceSettings Float := .default
    settings.fault? = none ∧
      (∀ stencil : Stencil,
        Scalar.isFinite (stencil.denominator settings.difference.shaderStep) = true) ∧
      Expr.parse "max(x, y)" = .ok maximumTree ∧
      ∃ base sheet, Base.ofExpr maximumTree GraphSheet.vars (.ofList []) = .ok base ∧
        (GraphSheet.build "max(x, y)" (.ofList []) settings).outcome = .ok sheet ∧
        sheet.base = base := by
  intro settings
  have hsettings : settings.fault? = none := by decide +kernel
  have hwidth : ∀ stencil : Stencil,
      Scalar.isFinite (stencil.denominator settings.difference.shaderStep) = true := by
    intro stencil
    cases stencil <;> simp only [Stencil.denominator] <;> decide +kernel
  obtain ⟨base, hbase⟩ := exists_base_maximum
  obtain ⟨sheet, hsheet, heq, -⟩ :=
    (SurfaceSettings.builds_succeed hsettings hwidth).1 _ _ base _ parse_maximum hbase
  exact ⟨hsettings, hwidth, parse_maximum, base, sheet, hbase, hsheet, heq⟩

/-- With a width of `1e200`, which is accepted, the same graph is not built, for the square of the
width is infinite. -/
theorem SurfaceSettings.not_builds_succeed :
    let settings : SurfaceSettings Float :=
      { SurfaceSettings.default with difference := ⟨1e-5, 1e200⟩ }
    settings.fault? = none ∧ Expr.parse "max(x, y)" = .ok maximumTree ∧
      (∃ base, Base.ofExpr maximumTree GraphSheet.vars (.ofList []) = .ok base) ∧
      ¬∃ sheet, (GraphSheet.build "max(x, y)" (.ofList []) settings).outcome = .ok sheet := by
  intro settings
  have hsettings : settings.fault? = none := by decide +kernel
  refine ⟨hsettings, parse_maximum, exists_base_maximum, fun hbuilt => ?_⟩
  obtain ⟨base, hbase⟩ := exists_base_maximum
  have hderivative :=
    (GraphSheet.exists_build_iff hsettings parse_maximum hbase).1 hbuilt .fxx _ rfl
  rcases hderivative with ⟨artifact, hsymbolic⟩ | hfinite
  · cases hsymbolic
  · have hinfinite : Scalar.isFinite
        ((Stencil.second 0).denominator settings.difference.shaderStep) = false := by decide +kernel
    rw [hinfinite] at hfinite
    cases hfinite

end SurfaceGeometry
