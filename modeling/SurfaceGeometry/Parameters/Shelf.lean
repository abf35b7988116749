import SurfaceGeometry.Parameters.Basic

/-!
# Shared parameter stores

Several handles can stand for one store: what is written through one of them is read through all.
A `Shelf` holds the stores by their place and says which place each handle stands for.
-/

namespace SurfaceGeometry

/-- Stores, and the handles that stand for them. -/
structure Shelf (α : Type) where
  stores : List (Parameters α)
  handles : List (String × Nat)

namespace Shelf

variable {α : Type}

/-- The shelf without stores. -/
def empty : Shelf α := ⟨[], []⟩

/-- The place of the store that a handle stands for. -/
def place? (s : Shelf α) (handle : String) : Option Nat :=
  s.handles.lookup handle

/-- The store that a handle stands for. -/
def store? (s : Shelf α) (handle : String) : Option (Parameters α) :=
  (s.place? handle).bind (s.stores[·]?)

/-- Puts a new store on the shelf, for a handle that may have stood for another one. -/
def add (s : Shelf α) (handle : String) (store : Parameters α) : Shelf α :=
  ⟨s.stores ++ [store], (handle, s.stores.length) :: s.handles⟩

/-- Lets a handle stand for the store of another one. -/
def share? (s : Shelf α) (handle fresh : String) : Option (Shelf α) :=
  (s.place? handle).map fun place => { s with handles := (fresh, place) :: s.handles }

/-- Whether two handles stand for the same store. -/
def shares (s : Shelf α) (handle other : String) : Bool :=
  match s.place? handle, s.place? other with
  | some place, some place' => place == place'
  | _, _ => false

/-- Replaces the store at a place. -/
def replace (s : Shelf α) (place : Nat) (store : Parameters α) : Shelf α :=
  { s with stores := s.stores.set place store }

/-- Inserts a name into the store of a handle. -/
def insert (s : Shelf α) (handle name : String) (value : α) : Shelf α :=
  match s.place? handle, s.store? handle with
  | some place, some store => s.replace place (store.insert name value)
  | _, _ => s

/-- Gives a name of the store of a handle another number, and tells whether it was present. -/
def set (s : Shelf α) (handle name : String) (value : α) : Bool × Shelf α :=
  match s.place? handle, s.store? handle with
  | some place, some store =>
    match store.set? name value with
    | some next => (true, s.replace place next)
    | none => (false, s)
  | _, _ => (false, s)

end Shelf

end SurfaceGeometry
