import SurfaceGeometry.Scalar.Basic

/-!
# Parameters

A store of named numbers, in the order in which the names were first inserted. Names are pairwise
distinct, and a name is never removed, so the index of a name stays what it is.
-/

namespace SurfaceGeometry

/-- Named numbers in order of first insertion, each name once. -/
structure Parameters (α : Type) where
  entries : List (String × α)
  distinct : (entries.map Prod.fst).Nodup

namespace Parameters

variable {α : Type}

/-- The store without names. -/
def empty : Parameters α := ⟨[], List.nodup_nil⟩

instance : Inhabited (Parameters α) := ⟨empty⟩

/-- The names in order of first insertion. -/
def names (p : Parameters α) : List String := p.entries.map Prod.fst

/-- The numbers, in the order of the names. -/
def values (p : Parameters α) : List α := p.entries.map Prod.snd

/-- The number of names. -/
def size (p : Parameters α) : Nat := p.entries.length

/-- Whether there is no parameter. -/
def isEmpty (p : Parameters α) : Bool := p.entries.isEmpty

/-- Where a name stands in the order of first insertion. -/
def indexOf? (p : Parameters α) (name : String) : Option Nat :=
  p.names.findIdx? (· == name)

/-- Whether there is a parameter of that name. -/
def contains (p : Parameters α) (name : String) : Bool :=
  p.names.contains name

/-- The number of a name. -/
def get? (p : Parameters α) (name : String) : Option α :=
  p.entries.lookup name

/-- Gives a name another number wherever it stands in a list of entries. -/
def assign (name : String) (value : α) (entries : List (String × α)) : List (String × α) :=
  entries.map fun entry => if entry.1 = name then (name, value) else entry

/-- To assign a value does not change the names or their order. -/
theorem map_fst_assign (name : String) (value : α) (entries : List (String × α)) :
    (assign name value entries).map Prod.fst = entries.map Prod.fst := by
  induction entries with
  | nil => rfl
  | cons entry entries ih =>
    simp only [assign, List.map_cons] at ih ⊢
    rw [ih]
    split
    · rename_i h
      rw [h]
    · rfl

/-- Gives a name a number; a new name goes to the end. -/
def insert (p : Parameters α) (name : String) (value : α) : Parameters α :=
  if h : name ∈ p.entries.map Prod.fst then
    ⟨assign name value p.entries, (map_fst_assign name value p.entries).symm ▸ p.distinct⟩
  else
    ⟨p.entries ++ [(name, value)], by
      rw [List.map_append]
      exact List.nodup_append.2 ⟨p.distinct, by simp, fun a ha b hb hab => by
        simp only [List.map_cons, List.map_nil, List.mem_singleton] at hb
        exact h (hb ▸ hab ▸ ha)⟩⟩

/-- Gives a present name another number; the answer for a name that is not present is `none`. -/
def set? (p : Parameters α) (name : String) (value : α) : Option (Parameters α) :=
  if p.contains name then some (p.insert name value) else none

/-- The store with the given entries, inserted one after the other. -/
def ofList (entries : List (String × α)) : Parameters α :=
  entries.foldl (fun p entry => p.insert entry.1 entry.2) empty

end Parameters

end SurfaceGeometry
