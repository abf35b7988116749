import SurfaceGeometry.Parameters.Shelf

/-!
# The history of a store

A `Shelf` changes by actions: a store is added, a handle is shared, a name is inserted or set
through a handle. None of them takes a name away from a store or moves it, so the names of a store
at one time are a start of its names at every later time (`Parameters.Extends`). `Shelf.run_extends`
says that of a whole run, and `Parameters.Extends.get?_eq` draws the conclusion for code that was
compiled against the earlier store: the index under which a name was found then leads to its number
now.
-/

namespace SurfaceGeometry

variable {α : Type}

namespace Parameters

/-- The later store has the names of the earlier one at the same places, and perhaps more. -/
def Extends (earlier later : Parameters α) : Prop :=
  earlier.names <+: later.names

/-- A store extends itself. -/
theorem Extends.refl (p : Parameters α) : p.Extends p :=
  List.prefix_rfl

/-- What extends a later store extends the earlier one. -/
theorem Extends.trans {p q r : Parameters α} (h : p.Extends q) (h' : q.Extends r) : p.Extends r :=
  List.IsPrefix.trans h h'

/-- A write gives a present name another number, or puts a new name behind all others. -/
theorem extends_insert (p : Parameters α) (name : String) (value : α) :
    p.Extends (p.insert name value) := by
  unfold Extends insert
  split
  · simp [names, map_fst_assign]
  · simp [names]

/-- To set a name extends the store: if it succeeds, the name was there. -/
theorem extends_set? {p q : Parameters α} {name : String} {value : α}
    (h : p.set? name value = some q) : p.Extends q := by
  unfold set? at h
  split at h
  · cases h
    exact p.extends_insert name value
  · cases h

@[simp] theorem length_names (p : Parameters α) : p.names.length = p.entries.length := by
  simp [names]

@[simp] theorem length_values (p : Parameters α) : p.values.length = p.entries.length := by
  simp [values]

/-- In a list of entries with distinct names, the entry at an index is the one that is found under
its name. -/
theorem lookup_eq_of_getElem? {entries : List (String × α)} {name : String} {i : Nat}
    (hd : (entries.map Prod.fst).Nodup) (hi : (entries.map Prod.fst)[i]? = some name) :
    entries.lookup name = (entries.map Prod.snd)[i]? := by
  induction entries generalizing i with
  | nil => simp at hi
  | cons entry entries ih =>
    obtain ⟨other, value⟩ := entry
    rw [List.map_cons, List.nodup_cons] at hd
    cases i with
    | zero =>
      obtain rfl : other = name := by simpa using hi
      simp
    | succ i =>
      have hi' : (entries.map Prod.fst)[i]? = some name := by simpa using hi
      have hne : (name == other) = false :=
        beq_eq_false_iff_ne.2 fun h => hd.1 (h ▸ List.mem_of_getElem? hi')
      rw [List.lookup_cons, hne, List.map_cons, List.getElem?_cons_succ]
      exact ih hd.2 hi'

/-- An index of a name in an earlier store leads to the number of that name in the later one. -/
theorem Extends.get?_eq {p q : Parameters α} (h : p.Extends q) {name : String} {i : Nat}
    (hi : p.names[i]? = some name) : q.get? name = q.values[i]? := by
  obtain ⟨more, hmore⟩ := h
  have hlt : i < p.names.length := (List.getElem?_eq_some_iff.1 hi).1
  have hq : q.names[i]? = some name := by
    rw [← hmore, List.getElem?_append_left hlt]
    exact hi
  exact lookup_eq_of_getElem? q.distinct hq

/-- The slots of the names of an earlier store exist in the later one. -/
theorem Extends.length_values_le {p q : Parameters α} (h : p.Extends q) :
    p.names.length ≤ q.values.length := by
  have := h.length_le
  simpa only [length_names, length_values] using this

end Parameters

namespace Shelf

/-- What can be done to a shelf. A handle that is shared or written to without standing for a store
leaves the shelf as it is. -/
inductive Action (α : Type) where
  /-- Puts a new store on the shelf. -/
  | add (handle : String) (store : Parameters α)
  /-- Lets a fresh handle stand for the store of another one. -/
  | share (handle fresh : String)
  | insert (handle name : String) (value : α)
  | set (handle name : String) (value : α)

/-- The shelf behind an action. -/
def act (s : Shelf α) : Action α → Shelf α
  | .add handle store => s.add handle store
  | .share handle fresh => (s.share? handle fresh).getD s
  | .insert handle name value => s.insert handle name value
  | .set handle name value => (s.set handle name value).2

/-- The shelf behind a list of actions. -/
def run (s : Shelf α) (actions : List (Action α)) : Shelf α :=
  actions.foldl act s

/-- Writing an extension of a store over it keeps every place and extends what stands there. -/
theorem replace_extends {s : Shelf α} {place place' : Nat} {p old new : Parameters α}
    (hp : s.stores[place]? = some p) (hold : s.stores[place']? = some old)
    (hnew : old.Extends new) :
    ∃ q, (s.replace place' new).stores[place]? = some q ∧ p.Extends q := by
  unfold replace
  by_cases hne : place' = place
  · subst hne
    obtain rfl : p = old := by simpa [hp] using hold
    have hlt := (List.getElem?_eq_some_iff.1 hp).1
    exact ⟨new, by simp [hlt], hnew⟩
  · exact ⟨p, by simpa [List.getElem?_set_ne hne] using hp, .refl p⟩

/-- The store that a handle stands for is the one at its place. -/
theorem stores_of_store? {s : Shelf α} {handle : String} {place : Nat} {store : Parameters α}
    (hplace : s.place? handle = some place) (hstore : s.store? handle = some store) :
    s.stores[place]? = some store := by
  simpa [store?, hplace] using hstore

/-- One action keeps every store at its place and extends it. -/
theorem act_extends {s : Shelf α} {place : Nat} {p : Parameters α}
    (hp : s.stores[place]? = some p) (action : Action α) :
    ∃ q, (s.act action).stores[place]? = some q ∧ p.Extends q := by
  cases action with
  | add handle store =>
    have hlt := (List.getElem?_eq_some_iff.1 hp).1
    exact ⟨p, by simpa [act, add, List.getElem?_append_left hlt] using hp, .refl p⟩
  | share handle fresh =>
    refine ⟨p, ?_, .refl p⟩
    cases h : s.place? handle <;> simpa [act, share?, h] using hp
  | insert handle name value =>
    show ∃ q, (s.insert handle name value).stores[place]? = some q ∧ p.Extends q
    unfold insert
    split
    · next place' store hplace hstore =>
      exact replace_extends hp (stores_of_store? hplace hstore) (store.extends_insert name value)
    · exact ⟨p, hp, .refl p⟩
  | set handle name value =>
    show ∃ q, (s.set handle name value).2.stores[place]? = some q ∧ p.Extends q
    unfold set
    split
    · next place' store hplace hstore =>
      cases hset : store.set? name value with
      | none => exact ⟨p, by simpa [hset] using hp, .refl p⟩
      | some new =>
        simpa [hset] using replace_extends hp (stores_of_store? hplace hstore)
          (Parameters.extends_set? hset)
    · exact ⟨p, hp, .refl p⟩

/-- A run keeps every store at its place and extends it. -/
theorem run_extends {s : Shelf α} {place : Nat} {p : Parameters α}
    (hp : s.stores[place]? = some p) (actions : List (Action α)) :
    ∃ q, (s.run actions).stores[place]? = some q ∧ p.Extends q := by
  induction actions generalizing s p with
  | nil => exact ⟨p, hp, .refl p⟩
  | cons action actions ih =>
    obtain ⟨q, hq, hpq⟩ := act_extends hp action
    obtain ⟨r, hr, hqr⟩ := ih hq
    exact ⟨r, hr, hpq.trans hqr⟩

end Shelf

end SurfaceGeometry
