import SurfaceGeometry.Proofs.Surface.Artifact
import SurfaceGeometry.Proofs.Surface.Shelved
import SurfaceGeometry.Surface.Revolution

/-!
# Coherence of surfaces of revolution

Both profile functions of a surface of revolution are at all times built from their own sources with
the settings of the surface, against the same earlier state of the store (`RevolutionSurface.Kept`),
because a call replaces both or neither. So each is coherent (`ProfileFunction.Coherent`), and the
surface is the one that a build gives now, unless a parameter has the name of a constant
(`RevolutionSurface.Coherent`).
-/

namespace SurfaceGeometry

variable {α : Type} [Scalar α] [NumberText α]

/-! ## Profile functions -/

namespace ProfileFunction

/-- The function is what is built from a source. -/
structure Built (source : String) (p : Parameters α) (settings : SurfaceSettings α)
    (f : ProfileFunction α) : Prop where
  source_eq : f.source = source
  parse_eq : Expr.parse source = .ok f.base.tree
  base_eq : Base.ofExpr f.base.tree vars p = .ok f.base
  first : Artifact.DerivativeOf (f.base.tree.differentiate "u") f.base vars p (.first 0)
    settings.difference f.first
  second : Artifact.DerivativeOf ((f.base.tree.differentiate "u").bind (·.differentiate "u")) f.base
    vars p (.second 0) settings.difference f.second

/-- All parts of a profile function belong together: its tree is that of the expression, it has the
value of the tree, and both derivatives are those of the tree or their finite differences. The names
are resolved as at the time of the build, and have the numbers of now. -/
structure Coherent (now : Parameters α) (settings : SurfaceSettings α) (f : ProfileFunction α) :
    Prop where
  parse_eq : Expr.parse f.source = .ok f.base.tree
  built : ∃ p : Parameters α, p.Extends now ∧
    (∀ u, f.base.tree.value? (Scope.valueOf? ⟨vars, p.names⟩ [u] now) =
      some (f.value now.values u)) ∧
    f.base.tree.shader = .ok f.base.shader ∧
    Artifact.DerivativeOf (f.base.tree.differentiate "u") f.base vars p (.first 0)
      settings.difference f.first ∧
    Artifact.DerivativeOf ((f.base.tree.differentiate "u").bind (·.differentiate "u")) f.base vars p
      (.second 0) settings.difference f.second

variable {name source : String} {p q : Parameters α} {settings : SurfaceSettings α}
  {f : ProfileFunction α}

/-- A function comes out of a build just when it is what is to be built. -/
theorem build_eq_ok :
    (build name source p settings).outcome = .ok f ↔ Built source p settings f := by
  constructor
  · intro h
    obtain ⟨base, hbase, h⟩ := Report.bind_eq_ok.1 h
    obtain ⟨first, hfirst, h⟩ := Report.bind_eq_ok.1 h
    obtain ⟨second, hsecond, h⟩ := Report.bind_eq_ok.1 h
    cases h
    obtain ⟨tree, htree, hbase⟩ := Outcome.bind_eq_ok.1 hbase
    obtain rfl : base.tree = tree := (Base.ofExpr_eq_ok.1 hbase).1
    exact ⟨rfl, htree, hbase, Artifact.ofDerivative_eq_ok.1 hfirst,
      Artifact.ofDerivative_eq_ok.1 hsecond⟩
  · intro h
    have hbase : (do Base.ofExpr (← Expr.parse source) vars p) = .ok f.base :=
      Outcome.bind_eq_ok.2 ⟨f.base.tree, h.parse_eq, h.base_eq⟩
    refine Report.bind_eq_ok.2 ⟨f.base, hbase, ?_⟩
    refine Report.bind_eq_ok.2 ⟨f.first, Artifact.ofDerivative_eq_ok.2 h.first, ?_⟩
    refine Report.bind_eq_ok.2 ⟨f.second, Artifact.ofDerivative_eq_ok.2 h.second, ?_⟩
    rw [← h.source_eq]
    rfl

/-- A function that was built against a state of a store is what is built against every later one
that has no name of a constant. -/
theorem Built.extends (h : Built source p settings f) (hpq : p.Extends q) (hq : q.Unreserved) :
    Built source q settings f := by
  have hbase := (Base.ofExpr_eq_ok.1 h.base_eq).2.1
  refine ⟨h.source_eq, h.parse_eq, ?_, h.first.extends hbase hpq hq fun d hd name hname => ?_,
    h.second.extends hbase hpq hq fun d hd name hname => ?_⟩
  · rw [Base.ofExpr_extends hbase hpq hq fun name hname => hname]
    exact h.base_eq
  · exact Expr.occurrences_differentiate hd hname
  · obtain ⟨first, hfirst, hsecond⟩ := Outcome.bind_eq_ok.1 hd
    exact Expr.occurrences_differentiate hfirst (Expr.occurrences_differentiate hsecond hname)

/-- A function that was built against one state of the store is coherent at every later one. -/
theorem Built.coherent (h : Built f.source p settings f) (hpq : p.Extends q) :
    Coherent q settings f := by
  obtain ⟨-, hf, htext⟩ := Base.ofExpr_eq_ok.1 h.base_eq
  have hvalue (u : α) := CompiledFunction.valueOf?_eq_call hf hpq [u] rfl
  exact ⟨h.parse_eq, p, hpq, hvalue, htext, h.first, h.second⟩

end ProfileFunction

/-! ## Surfaces -/

namespace RevolutionSurface

/-- What can be asked of a surface of revolution. -/
inductive Call (α : Type) where
  | rebuild (radius height : String)
  | setDomain (domain : Interval α)
  | setParameter (name : String) (value : α)

/-- The surface behind a call, which is the same as before if the call fails. -/
def answer (s : RevolutionSurface α) : Call α → RevolutionSurface α
  | .rebuild radius height => Outcome.orKeep s (s.rebuild radius height).outcome
  | .setDomain domain => Outcome.orKeep s (s.setDomain domain)
  | .setParameter name value => (s.setParameter name value).2

/-- A surface of revolution as a holder of a handle to a store: how it answers a call, and what of
the store it may write. -/
def handling : Handling α (RevolutionSurface α) (Call α) where
  parameters s := s.parameters
  withParameters s p := { s with parameters := p }
  call := answer
  parameters_withParameters _ _ := rfl

/-! ### What is kept -/

/-- Settings and range are without fault, and both functions were built from their own sources
against one earlier state of the store. -/
structure Kept (s : RevolutionSurface α) : Prop where
  settings_valid : s.settings.fault? = none
  domain_valid : checkDomain s.domain = .ok ()
  built : ∃ p : Parameters α, p.Extends s.parameters ∧
    s.profile.radius.Built s.profile.radius.source p s.settings ∧
    s.profile.height.Built s.profile.height.source p s.settings

/-- Both functions of a profile were built with the settings and the store of the profile. -/
theorem profile_built {radius height : String} {p : Parameters α} {settings : SurfaceSettings α}
    {profile : Profile α} (h : (Profile.build radius height p settings).outcome = .ok profile) :
    profile.radius.Built profile.radius.source p settings ∧
      profile.height.Built profile.height.source p settings := by
  obtain ⟨r, hr, h⟩ := Report.bind_eq_ok.1 h
  obtain ⟨t, ht, h⟩ := Report.bind_eq_ok.1 h
  cases h
  have hradius := ProfileFunction.build_eq_ok.1 hr
  have hheight := ProfileFunction.build_eq_ok.1 ht
  exact ⟨hradius.source_eq ▸ hradius, hheight.source_eq ▸ hheight⟩

/-- A surface that comes out of a build was built with its own settings, against the store that it
was given. -/
theorem kept_of_build {radius height : String} {domain : Interval α} {p : Parameters α}
    {settings : SurfaceSettings α} {s : RevolutionSurface α}
    (h : (build radius height domain p settings).outcome = .ok s) : s.Kept ∧ s.parameters = p := by
  obtain ⟨_, hcheck, h⟩ := Report.bind_eq_ok.1 h
  obtain ⟨_, hdomain, h⟩ := Report.bind_eq_ok.1 h
  obtain ⟨profile, hprofile, h⟩ := Report.bind_eq_ok.1 h
  cases h
  exact ⟨⟨SurfaceSettings.check_eq_ok.1 hcheck, hdomain, p, .refl p,
    profile_built (Report.mapError_eq_ok.1 hprofile)⟩, rfl⟩

/-- Another profile is built with the settings and the store of now. -/
theorem Kept.rebuild {s s' : RevolutionSurface α} {radius height : String} (h : s.Kept)
    (hs' : (s.rebuild radius height).outcome = .ok s') : s'.Kept := by
  obtain ⟨profile, hprofile, hs'⟩ := Report.bind_eq_ok.1 hs'
  cases hs'
  exact ⟨h.settings_valid, h.domain_valid, s.parameters, .refl _,
    profile_built (Report.mapError_eq_ok.1 hprofile)⟩

/-- The interval is not part of what is built, so to set it keeps the profile. -/
theorem Kept.setDomain {s s' : RevolutionSurface α} {domain : Interval α} (h : s.Kept)
    (hs' : s.setDomain domain = .ok s') : s'.Kept := by
  obtain ⟨_, hdomain, hs'⟩ := Outcome.bind_eq_ok.1 hs'
  cases hs'
  exact ⟨h.settings_valid, hdomain, h.built⟩

/-- A write to the store, by whomever, leaves the surface built against an earlier state of it. -/
theorem Kept.withParameters {s : RevolutionSurface α} (h : s.Kept) {q : Parameters α}
    (hq : s.parameters.Extends q) : Kept { s with parameters := q } := by
  obtain ⟨p, hp, hbuilt⟩ := h.built
  exact ⟨h.settings_valid, h.domain_valid, p, hp.trans hq, hbuilt⟩

/-- Whatever the call, the surface after it is kept, also where the call fails and nothing changes.
-/
theorem Kept.answer {s : RevolutionSurface α} (h : s.Kept) (call : Call α) :
    (s.answer call).Kept := by
  cases call with
  | rebuild radius height => exact Outcome.orKeep_of h fun _ => h.rebuild
  | setDomain domain => exact Outcome.orKeep_of h fun _ => h.setDomain
  | setParameter name value =>
    show (s.setParameter name value).2.Kept
    unfold setParameter
    cases hset : s.parameters.set? name value with
    | none => exact h
    | some q => exact h.withParameters (Parameters.extends_set? hset)

/-! ### Coherence -/

/-- All parts of a surface belong together: the settings are without fault, both functions are
coherent, and the whole is what would be built now. -/
structure Coherent (s : RevolutionSurface α) : Prop where
  settings_valid : s.settings.fault? = none
  radius : s.profile.radius.Coherent s.parameters s.settings
  height : s.profile.height.Coherent s.parameters s.settings
  /-- Unless a parameter has the name of a constant, the surface is the one that a build gives now.
  -/
  fresh (h : s.parameters.Unreserved) :
    (build s.profile.radius.source s.profile.height.source s.domain s.parameters
      s.settings).outcome = .ok s

/-- A surface that is kept is coherent: what was built against an earlier state of the store is what
would be built against the present one. -/
theorem Kept.coherent {s : RevolutionSurface α} (h : s.Kept) : s.Coherent := by
  obtain ⟨p, hp, hradius, hheight⟩ := h.built
  refine ⟨h.settings_valid, hradius.coherent hp, hheight.coherent hp, fun hunreserved => ?_⟩
  have hprofile : (Profile.build s.profile.radius.source s.profile.height.source s.parameters
      s.settings).outcome = .ok s.profile :=
    Report.bind_eq_ok.2 ⟨_, ProfileFunction.build_eq_ok.2 (hradius.extends hp hunreserved),
      Report.bind_eq_ok.2 ⟨_, ProfileFunction.build_eq_ok.2 (hheight.extends hp hunreserved), rfl⟩⟩
  exact Report.bind_eq_ok.2 ⟨(), SurfaceSettings.check_eq_ok.2 h.settings_valid,
    Report.bind_eq_ok.2 ⟨(), h.domain_valid,
      Report.bind_eq_ok.2 ⟨s.profile, Report.mapError_eq_ok.2 hprofile, rfl⟩⟩⟩

end RevolutionSurface

end SurfaceGeometry
