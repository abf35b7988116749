import SurfaceGeometry.Proofs.Parameters.History

/-!
# Surfaces with shared parameters

A surface reads its parameters from a store that other handles may stand for too. A `Shelved`
surface is a surface together with the shelf and the place of that store on it. It changes by
events: a call of the surface, or an action on the shelf through whatever handle. A `Handling` says
how a kind of surface takes its calls and where it has its parameters; a call that fails leaves the
surface as it is.

What calls keep, and what the surface keeps when its store is written to, is kept by every run
(`Shelved.run_keeps`), and the surface has the parameters that are on the shelf all along.
-/

namespace SurfaceGeometry

/-- How the surfaces of a kind `S` are called, and where their parameters are. -/
structure Handling (α S C : Type) where
  parameters : S → Parameters α
  withParameters : S → Parameters α → S
  call : S → C → S
  parameters_withParameters (s p) : parameters (withParameters s p) = p

/-- Something that happens to a surface or to the store of its parameters. -/
inductive Event (α C : Type) where
  | call (c : C)
  | store (action : Shelf.Action α)

/-- A surface with the shelf that holds its parameters, and their place on it. -/
structure Shelved (α S : Type) where
  shelf : Shelf α
  place : Nat
  surface : S

namespace Shelved

variable {α S C : Type} (k : Handling α S C)

/-- The surface has the parameters that are at its place on the shelf. -/
def Reads (s : Shelved α S) : Prop :=
  s.shelf.stores[s.place]? = some (k.parameters s.surface)

/-- What is behind an event. The parameters that a call changes are put on the shelf, and after an
action on the shelf the surface has those that are there now. -/
def happen (s : Shelved α S) : Event α C → Shelved α S
  | .call c =>
    let surface := k.call s.surface c
    { s with shelf := s.shelf.replace s.place (k.parameters surface), surface }
  | .store action =>
    let shelf := s.shelf.act action
    match shelf.stores[s.place]? with
    | some p => { s with shelf, surface := k.withParameters s.surface p }
    | none => { s with shelf }

/-- What is behind a list of events. -/
def run (s : Shelved α S) (events : List (Event α C)) : Shelved α S :=
  events.foldl (happen k) s

variable {k} {Kept : S → Prop} {s : Shelved α S}

/-- What calls keep, and the surface when its store is extended, is kept by an event. -/
theorem happen_keeps (hcall : ∀ s c, Kept s → Kept (k.call s c))
    (hstore : ∀ s q, Kept s → (k.parameters s).Extends q → Kept (k.withParameters s q))
    (hreads : s.Reads k) (h : Kept s.surface) (event : Event α C) :
    (s.happen k event).Reads k ∧ Kept (s.happen k event).surface := by
  cases event with
  | call c =>
    have hlt := (List.getElem?_eq_some_iff.1 hreads).1
    exact ⟨by simp [Reads, happen, Shelf.replace, hlt], hcall s.surface c h⟩
  | store action =>
    obtain ⟨q, hq, hpq⟩ := Shelf.act_extends hreads action
    have hbehind : s.happen k (.store action) =
        ⟨s.shelf.act action, s.place, k.withParameters s.surface q⟩ := by
      simp [happen, hq]
    rw [hbehind]
    exact ⟨by rw [Reads, k.parameters_withParameters, hq], hstore s.surface q h hpq⟩

/-- What every event keeps, every run keeps. -/
theorem run_keeps (hcall : ∀ s c, Kept s → Kept (k.call s c))
    (hstore : ∀ s q, Kept s → (k.parameters s).Extends q → Kept (k.withParameters s q))
    (hreads : s.Reads k) (h : Kept s.surface) (events : List (Event α C)) :
    (s.run k events).Reads k ∧ Kept (s.run k events).surface := by
  induction events generalizing s with
  | nil => exact ⟨hreads, h⟩
  | cons event events ih =>
    obtain ⟨hreads', h'⟩ := happen_keeps hcall hstore hreads h event
    exact ih hreads' h'

end Shelved

end SurfaceGeometry
