import SurfaceGeometry.Proofs.Surface.Graph
import SurfaceGeometry.Proofs.Surface.Revolution
import SurfaceGeometry.Scalar.Double

/-!
# Surfaces stay coherent

Behind every run, however long, of calls of a surface and of actions on the shelf of its parameters,
all parts of the surface belong together (`coherent_of_run`): those of a graph surface by
`GraphSurface.Coherent`, and those of a surface of revolution by `RevolutionSurface.Coherent`. The
run may have calls that fail and writes through other handles, and the parameters of the surface are
those that are on the shelf.
-/

namespace SurfaceGeometry

variable {α : Type} [Scalar α] [NumberText α]

/-- A surface that was built is coherent behind every run, and has the parameters that are on the
shelf. -/
theorem coherent_of_run :
    (∀ {source : String} {domain : Domain α} {settings : SurfaceSettings α} {shelf : Shelf α}
      {place : Nat} {p : Parameters α} {surface : GraphSurface α},
      shelf.stores[place]? = some p →
      (GraphSurface.build source domain p settings).outcome = .ok surface →
      ∀ events : List (Event α (GraphSurface.Call α)),
        (Shelved.run GraphSurface.handling ⟨shelf, place, surface⟩ events).Reads
          GraphSurface.handling ∧
        (Shelved.run GraphSurface.handling ⟨shelf, place, surface⟩ events).surface.Coherent) ∧
    ∀ {radius height : String} {domain : Interval α} {settings : SurfaceSettings α}
      {shelf : Shelf α} {place : Nat} {p : Parameters α} {surface : RevolutionSurface α},
      shelf.stores[place]? = some p →
      (RevolutionSurface.build radius height domain p settings).outcome = .ok surface →
      ∀ events : List (Event α (RevolutionSurface.Call α)),
        (Shelved.run RevolutionSurface.handling ⟨shelf, place, surface⟩ events).Reads
          RevolutionSurface.handling ∧
        (Shelved.run RevolutionSurface.handling
          ⟨shelf, place, surface⟩ events).surface.Coherent := by
  constructor
  · intro source domain settings shelf place p surface hp hbuild events
    obtain ⟨hkept, rfl⟩ := GraphSurface.kept_of_build hbuild
    have hrun := Shelved.run_keeps (k := GraphSurface.handling) (s := ⟨shelf, place, surface⟩)
      (fun _ call h => GraphSurface.Kept.answer h call)
      (fun _ _ h hq => GraphSurface.Kept.withParameters h hq) hp hkept events
    exact ⟨hrun.1, hrun.2.coherent⟩
  · intro radius height domain settings shelf place p surface hp hbuild events
    obtain ⟨hkept, rfl⟩ := RevolutionSurface.kept_of_build hbuild
    have hrun := Shelved.run_keeps (k := RevolutionSurface.handling) (s := ⟨shelf, place, surface⟩)
      (fun _ call h => RevolutionSurface.Kept.answer h call)
      (fun _ _ h hq => RevolutionSurface.Kept.withParameters h hq) hp hkept events
    exact ⟨hrun.1, hrun.2.coherent⟩

/-- The graph of `a * x * y + max(x, 0)`, one of whose derivatives is a finite difference, and the
profile `sin(u)`, `-cos(a * u)`, over a store that is shared and written to through the other handle
between a call that fails and one that does not. -/
theorem coherent_of_run_shared :
    let p : Parameters Float := .ofList [("a", 2)]
    let shelf : Shelf Float := Shelf.empty.add "p" p
    let writes {C : Type} : List (Event Float C) :=
      [.store (.share "p" "q"), .store (.insert "q" "b" 5), .store (.set "q" "a" 7)]
    ∃ (graph : GraphSurface Float) (revolution : RevolutionSurface Float),
      shelf.stores[0]? = some p ∧
      (GraphSurface.build "a * x * y + max(x, 0)" ⟨⟨-1, 1⟩, ⟨-1, 1⟩⟩ p .default).outcome =
        .ok graph ∧
      (RevolutionSurface.build "sin(u)" "-cos(a * u)" ⟨1, 2⟩ p .default).outcome =
        .ok revolution ∧
      (Shelved.run GraphSurface.handling ⟨shelf, 0, graph⟩ ([.call (.rebuild "x + (y")] ++ writes ++
        [.call (.rebuild "b * x")])).surface.Coherent ∧
      (Shelved.run RevolutionSurface.handling ⟨shelf, 0, revolution⟩
        ([.call (.setDomain ⟨2, 1⟩)] ++ writes ++
          [.call (.rebuild "b" "u")])).surface.Coherent := by
  intro p shelf writes
  have hp : shelf.stores[0]? = some p := rfl
  obtain ⟨graph, hgraph⟩ : ∃ graph,
      (GraphSurface.build "a * x * y + max(x, 0)" ⟨⟨-1, 1⟩, ⟨-1, 1⟩⟩ p .default).outcome =
        .ok graph := Outcome.isOk_iff.1 (by decide +kernel)
  obtain ⟨revolution, hrevolution⟩ : ∃ revolution,
      (RevolutionSurface.build "sin(u)" "-cos(a * u)" ⟨1, 2⟩ p .default).outcome =
        .ok revolution := Outcome.isOk_iff.1 (by decide +kernel)
  exact ⟨graph, revolution, hp, hgraph, hrevolution, (coherent_of_run.1 hp hgraph _).2,
    (coherent_of_run.2 hp hrevolution _).2⟩

end SurfaceGeometry
