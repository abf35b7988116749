import SurfaceGeometry.Proofs.Surface.Artifact
import SurfaceGeometry.Proofs.Surface.Shelved
import SurfaceGeometry.Surface.Graph

/-!
# Coherence of graph surfaces

What a sheet is built of is said once, by `GraphSheet.Built`: a sheet comes out of a build just when
it has the tree of the source, compiled and translated, and each of its partial derivatives is built
from that tree. Built against one state of a store, it is built against every later one in which no
name of a constant is stored (`GraphSheet.Built.extends`).

A call of a surface replaces the sheet by one that was built with the settings that the surface has
then, or leaves the surface as it is, so that at all times the sheet was built from its own source,
with the settings of now and against some earlier state of the store (`GraphSurface.Kept`). From
this follows all that is to be said of the surface (`GraphSurface.Coherent`).
-/

namespace SurfaceGeometry

variable {α : Type} [Scalar α]

/-! ## Sheets -/

namespace Partial

/-- The tree of a partial derivative of a tree, if it can be found. -/
def tree (e : Expr α) : Partial → Except (ExprError α) (Expr α)
  | f => .ok e
  | fx => e.differentiate "x"
  | fy => e.differentiate "y"
  | fxx => (e.differentiate "x").bind (·.differentiate "x")
  | fxy => (e.differentiate "x").bind (·.differentiate "y")
  | fyy => (e.differentiate "y").bind (·.differentiate "y")

/-- The finite difference in the place of a partial derivative. -/
def stencil? : Partial → Option Stencil
  | f => none
  | fx => some (.first 0)
  | fy => some (.first 1)
  | fxx => some (.second 0)
  | fxy => some (.mixed 0 1)
  | fyy => some (.second 1)

/-- A partial derivative has no symbols but those of the tree. -/
theorem occurrences_tree {e d : Expr α} {which : Partial} (h : which.tree e = .ok d) {name : String}
    (hname : name ∈ d.occurrences) : name ∈ e.occurrences := by
  cases which with
  | f =>
    cases h
    exact hname
  | fx | fy => exact Expr.occurrences_differentiate h hname
  | fxx | fxy | fyy =>
    obtain ⟨first, hfirst, hsecond⟩ := Outcome.bind_eq_ok.1 h
    exact Expr.occurrences_differentiate hfirst (Expr.occurrences_differentiate hsecond hname)

end Partial

variable [NumberText α]

namespace GraphSheet

/-- The sheet is what is built from a source. -/
structure Built (source : String) (p : Parameters α) (settings : SurfaceSettings α)
    (sheet : GraphSheet α) : Prop where
  source_eq : sheet.source = source
  parse_eq : Expr.parse source = .ok sheet.base.tree
  base_eq : Base.ofExpr sheet.base.tree vars p = .ok sheet.base
  derivativeOf {which stencil} (h : which.stencil? = some stencil) :
    Artifact.DerivativeOf (which.tree sheet.base.tree) sheet.base vars p stencil
      settings.difference (sheet.artifact which)

variable {source : String} {p q : Parameters α} {settings : SurfaceSettings α}
  {sheet : GraphSheet α}

/-- A sheet comes out of a build just when it is what is to be built. -/
theorem build_eq_ok :
    (build source p settings).outcome = .ok sheet ↔ Built source p settings sheet := by
  constructor
  · intro h
    obtain ⟨base, hbase, h⟩ := Report.bind_eq_ok.1 h
    obtain ⟨fx, hfx, h⟩ := Report.bind_eq_ok.1 h
    obtain ⟨fy, hfy, h⟩ := Report.bind_eq_ok.1 h
    obtain ⟨fxx, hfxx, h⟩ := Report.bind_eq_ok.1 h
    obtain ⟨fxy, hfxy, h⟩ := Report.bind_eq_ok.1 h
    obtain ⟨fyy, hfyy, h⟩ := Report.bind_eq_ok.1 h
    cases h
    obtain ⟨tree, htree, hbase⟩ := Outcome.bind_eq_ok.1 hbase
    obtain rfl : base.tree = tree := (Base.ofExpr_eq_ok.1 hbase).1
    refine ⟨rfl, htree, hbase, fun {which stencil} hstencil => ?_⟩
    cases which with
    | f => cases hstencil
    | fx =>
      cases hstencil
      exact Artifact.ofDerivative_eq_ok.1 hfx
    | fy =>
      cases hstencil
      exact Artifact.ofDerivative_eq_ok.1 hfy
    | fxx =>
      cases hstencil
      exact Artifact.ofDerivative_eq_ok.1 hfxx
    | fxy =>
      cases hstencil
      exact Artifact.ofDerivative_eq_ok.1 hfxy
    | fyy =>
      cases hstencil
      exact Artifact.ofDerivative_eq_ok.1 hfyy
  · intro h
    have hbase : (do Base.ofExpr (← Expr.parse source) vars p) = .ok sheet.base :=
      Outcome.bind_eq_ok.2 ⟨sheet.base.tree, h.parse_eq, h.base_eq⟩
    have hpartial (which : Partial) {stencil : Stencil} (hstencil : which.stencil? = some stencil) :
        (Artifact.ofDerivative which.name (which.tree sheet.base.tree) sheet.base vars p stencil
          settings.difference).outcome = .ok (sheet.artifact which) :=
      Artifact.ofDerivative_eq_ok.2 (h.derivativeOf hstencil)
    refine Report.bind_eq_ok.2 ⟨sheet.base, hbase, ?_⟩
    refine Report.bind_eq_ok.2 ⟨sheet.fx, hpartial .fx rfl, ?_⟩
    refine Report.bind_eq_ok.2 ⟨sheet.fy, hpartial .fy rfl, ?_⟩
    refine Report.bind_eq_ok.2 ⟨sheet.fxx, hpartial .fxx rfl, ?_⟩
    refine Report.bind_eq_ok.2 ⟨sheet.fxy, hpartial .fxy rfl, ?_⟩
    refine Report.bind_eq_ok.2 ⟨sheet.fyy, hpartial .fyy rfl, ?_⟩
    rw [← h.source_eq]
    rfl

/-- A sheet that was built against a state of a store is what is built against every later one that
has no name of a constant. -/
theorem Built.extends (h : Built source p settings sheet) (hpq : p.Extends q)
    (hq : q.Unreserved) : Built source q settings sheet := by
  have hbase := (Base.ofExpr_eq_ok.1 h.base_eq).2.1
  refine ⟨h.source_eq, h.parse_eq, ?_, fun hstencil => ?_⟩
  · rw [Base.ofExpr_extends hbase hpq hq fun name hname => hname]
    exact h.base_eq
  · exact (h.derivativeOf hstencil).extends hbase hpq hq fun d hd name hname =>
      Partial.occurrences_tree hd hname

end GraphSheet

/-! ## Surfaces -/

namespace GraphSurface

/-- What can be asked of a graph surface. -/
inductive Call (α : Type) where
  | rebuild (source : String)
  | setSettings (settings : SurfaceSettings α)
  | setDomain (domain : Domain α)
  | setParameter (name : String) (value : α)

/-- The surface behind a call, which is the same as before if the call fails. -/
def answer (s : GraphSurface α) : Call α → GraphSurface α
  | .rebuild source => Outcome.orKeep s (s.rebuild source).outcome
  | .setSettings settings => Outcome.orKeep s (s.setSettings settings).outcome
  | .setDomain domain => s.setDomain domain
  | .setParameter name value => (s.setParameter name value).2

/-- A graph surface as a holder of a handle to a store: how it answers a call, and what of the store
it may write. -/
def handling : Handling α (GraphSurface α) (Call α) where
  parameters s := s.parameters
  withParameters s p := { s with parameters := p }
  call := answer
  parameters_withParameters _ _ := rfl

/-! ### What is kept -/

/-- The settings are without fault, and the sheet was built with them, from its own source, against
some earlier state of the store. -/
structure Kept (s : GraphSurface α) : Prop where
  settings_valid : s.settings.fault? = none
  built : ∃ p : Parameters α, p.Extends s.parameters ∧
    s.sheet.Built s.sheet.source p s.settings

/-- A surface that comes out of a build was built with its own settings, against the store that it
was given. -/
theorem kept_of_build {source : String} {domain : Domain α} {p : Parameters α}
    {settings : SurfaceSettings α} {s : GraphSurface α}
    (h : (build source domain p settings).outcome = .ok s) : s.Kept ∧ s.parameters = p := by
  obtain ⟨_, hcheck, h⟩ := Report.bind_eq_ok.1 h
  obtain ⟨sheet, hsheet, h⟩ := Report.bind_eq_ok.1 h
  cases h
  have hbuilt := GraphSheet.build_eq_ok.1 (Report.mapError_eq_ok.1 hsheet)
  exact ⟨⟨SurfaceSettings.check_eq_ok.1 hcheck, p, .refl p, hbuilt.source_eq ▸ hbuilt⟩, rfl⟩

/-- Another source is built with the settings and the store of now. -/
theorem Kept.rebuild {s s' : GraphSurface α} {source : String} (h : s.Kept)
    (hs' : (s.rebuild source).outcome = .ok s') : s'.Kept := by
  obtain ⟨sheet, hsheet, hs'⟩ := Report.bind_eq_ok.1 hs'
  cases hs'
  have hbuilt := GraphSheet.build_eq_ok.1 (Report.mapError_eq_ok.1 hsheet)
  exact ⟨h.settings_valid, s.parameters, .refl _, hbuilt.source_eq ▸ hbuilt⟩

/-- New settings come with a sheet that was built with them. -/
theorem Kept.of_setSettings {s s' : GraphSurface α} {settings : SurfaceSettings α}
    (hs' : (s.setSettings settings).outcome = .ok s') : s'.Kept := by
  obtain ⟨_, hcheck, hs'⟩ := Report.bind_eq_ok.1 hs'
  obtain ⟨sheet, hsheet, hs'⟩ := Report.bind_eq_ok.1 hs'
  cases hs'
  have hbuilt := GraphSheet.build_eq_ok.1 (Report.mapError_eq_ok.1 hsheet)
  exact ⟨SurfaceSettings.check_eq_ok.1 hcheck, s.parameters, .refl _, hbuilt.source_eq ▸ hbuilt⟩

/-- A write to the store, by whomever, leaves the surface built against an earlier state of it. -/
theorem Kept.withParameters {s : GraphSurface α} (h : s.Kept) {q : Parameters α}
    (hq : s.parameters.Extends q) : Kept { s with parameters := q } := by
  obtain ⟨p, hp, hbuilt⟩ := h.built
  exact ⟨h.settings_valid, p, hp.trans hq, hbuilt⟩

/-- Whatever the call, the surface after it is kept, also where the call fails and nothing changes.
-/
theorem Kept.answer {s : GraphSurface α} (h : s.Kept) (call : Call α) : (s.answer call).Kept := by
  cases call with
  | rebuild source => exact Outcome.orKeep_of h fun _ => h.rebuild
  | setSettings settings => exact Outcome.orKeep_of h fun _ => .of_setSettings
  | setDomain domain => exact ⟨h.settings_valid, h.built⟩
  | setParameter name value =>
    show (s.setParameter name value).2.Kept
    unfold setParameter
    cases hset : s.parameters.set? name value with
    | none => exact h
    | some q => exact h.withParameters (Parameters.extends_set? hset)

/-! ### Coherence -/

/-- All parts of a surface belong together: the settings are without fault, the tree is that of the
expression, the function has its value, every partial derivative is the derivative of the tree or
its finite difference with the widths of the settings, and the whole is what would be built now. -/
structure Coherent (s : GraphSurface α) : Prop where
  settings_valid : s.settings.fault? = none
  parse_eq : Expr.parse s.sheet.source = .ok s.sheet.base.tree
  /-- The names are resolved as at the time of the build, and have the numbers of now. -/
  built : ∃ p : Parameters α, p.Extends s.parameters ∧
    (∀ x y, s.sheet.base.tree.value?
      (Scope.valueOf? ⟨GraphSheet.vars, p.names⟩ [x, y] s.parameters) = some (s.evaluate x y)) ∧
    s.sheet.base.tree.shader = .ok s.sheet.base.shader ∧
    ∀ which stencil, which.stencil? = some stencil →
      Artifact.DerivativeOf (which.tree s.sheet.base.tree) s.sheet.base GraphSheet.vars p stencil
        s.settings.difference (s.sheet.artifact which)
  /-- Unless a parameter has the name of a constant, the surface is the one that a build gives now.
  -/
  fresh (h : s.parameters.Unreserved) :
    (build s.sheet.source s.domain s.parameters s.settings).outcome = .ok s

/-- A surface that is kept is coherent: what was built against an earlier state of the store is what
would be built against the present one. -/
theorem Kept.coherent {s : GraphSurface α} (h : s.Kept) : s.Coherent := by
  obtain ⟨p, hp, hbuilt⟩ := h.built
  obtain ⟨-, hf, htext⟩ := Base.ofExpr_eq_ok.1 hbuilt.base_eq
  have hvalue (x y : α) := CompiledFunction.valueOf?_eq_call hf hp [x, y] rfl
  refine ⟨h.settings_valid, hbuilt.parse_eq,
    ⟨p, hp, hvalue, htext, fun which stencil hstencil => hbuilt.derivativeOf hstencil⟩,
    fun hunreserved => ?_⟩
  have hsheet := GraphSheet.build_eq_ok.2 (hbuilt.extends hp hunreserved)
  exact Report.bind_eq_ok.2 ⟨(), SurfaceSettings.check_eq_ok.2 h.settings_valid,
    Report.bind_eq_ok.2 ⟨s.sheet, Report.mapError_eq_ok.2 hsheet, rfl⟩⟩

end GraphSurface

end SurfaceGeometry
