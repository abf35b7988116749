import SurfaceGeometry.Proofs.Parameters.Writes
import Mathlib.Data.Fintype.EquivFin
import Mathlib.Data.Set.Finite.Lemmas
import Mathlib.Logic.Function.Basic

/-!
# Stores that handles share

A `Chronicle` tells of operations on handles what a reader of their names alone would write down:
for every store that was made the writes to it, and for every handle the store that it descends from
by cloning. The shelf behind the operations is told by their chronicle (`Chronicle.Tells`), because
every operation keeps this (`Chronicle.Tells.act`). So two handles see each other's writes if and
only if they descend from one store, and each of them answers for that store as the writes to it
left it (`Shelf.shared_maps`).
-/

namespace SurfaceGeometry

variable {α : Type}

/-! ## Operations -/

/-- What is done with handles of parameter stores. -/
inductive Operation (α : Type) where
  /-- A handle for a new store without names. -/
  | make (handle : String)
  /-- A handle for a new store of entries. -/
  | makeFrom (handle : String) (entries : List (String × α))
  /-- Another handle for the store of a handle. -/
  | clone (handle fresh : String)
  | write (handle : String) (write : Write α)

/-- What an operation does to a shelf. -/
def Operation.action : Operation α → Shelf.Action α
  | make handle => .add handle .empty
  | makeFrom handle entries => .add handle (.ofList entries)
  | clone handle fresh => .share handle fresh
  | write handle (.insert name value) => .insert handle name value
  | write handle (.set name value) => .set handle name value

/-- The shelf behind operations on an empty one. -/
def Shelf.ofOperations (operations : List (Operation α)) : Shelf α :=
  Shelf.empty.run (operations.map Operation.action)

/-- What is inserted through one handle is read through the other. -/
def Shelf.Sees (s : Shelf α) (reader writer : String) : Prop :=
  ∀ name value, ((s.insert writer name value).store? reader).bind (·.get? name) = some value

/-! ## Chronicles -/

/-- The writes to every store, in the order in which the stores were made, and the store that each
handle descends from. -/
structure Chronicle (α : Type) where
  stores : List (List (Write α))
  origin : String → Option Nat

namespace Chronicle

/-- The chronicle of no operation. -/
def empty : Chronicle α := ⟨[], fun _ => none⟩

/-- A handle is made for a new store. -/
def begin (c : Chronicle α) (handle : String) (writes : List (Write α)) : Chronicle α :=
  ⟨c.stores ++ [writes], Function.update c.origin handle (some c.stores.length)⟩

/-- The chronicle behind one more operation. What is done through a handle that does not exist is
not done. -/
def record (c : Chronicle α) : Operation α → Chronicle α
  | .make handle => c.begin handle []
  | .makeFrom handle entries => c.begin handle (entries.map fun entry => .insert entry.1 entry.2)
  | .clone handle fresh =>
    match c.origin handle with
    | some k => { c with origin := Function.update c.origin fresh (some k) }
    | none => c
  | .write handle write =>
    match c.origin handle with
    | some k => { c with stores := c.stores.modify k (· ++ [write]) }
    | none => c

/-- The chronicle of operations. -/
def ofOperations (operations : List (Operation α)) : Chronicle α :=
  operations.foldl record empty

/-- The shelf has the stores of the chronicle, as the writes to them left them, and its handles
stand for those that they descend from. -/
structure Tells (c : Chronicle α) (s : Shelf α) : Prop where
  place?_eq (handle : String) : s.place? handle = c.origin handle
  length_eq : s.stores.length = c.stores.length
  origin_lt {handle : String} {k : Nat} : c.origin handle = some k → k < c.stores.length
  holds {k : Nat} {p : Parameters α} {writes : List (Write α)} :
    s.stores[k]? = some p → c.stores[k]? = some writes → p.Holds writes

namespace Tells

variable {c : Chronicle α} {s : Shelf α} {handle other : String} {k : Nat}

/-- The chronicle of no operation tells of the shelf without stores. -/
theorem empty : (empty : Chronicle α).Tells Shelf.empty where
  place?_eq _ := rfl
  length_eq := rfl
  origin_lt h := nomatch h
  holds h := nomatch h

/-- The store that a handle descends from is there. -/
theorem exists_store (h : c.Tells s) (horigin : c.origin handle = some k) :
    ∃ p writes, s.stores[k]? = some p ∧ s.store? handle = some p ∧ c.stores[k]? = some writes ∧
      p.Holds writes := by
  have hlt : k < c.stores.length := h.origin_lt horigin
  have hplace : s.place? handle = some k := (h.place?_eq handle).trans horigin
  obtain ⟨p, hp⟩ : ∃ p, s.stores[k]? = some p :=
    ⟨_, List.getElem?_eq_getElem (h.length_eq ▸ hlt)⟩
  have hwrites : c.stores[k]? = some c.stores[k] := List.getElem?_eq_getElem hlt
  exact ⟨p, _, hp, by rw [Shelf.store?, hplace]; exact hp, hwrites, h.holds hp hwrites⟩

/-! ### Every operation -/

/-- A handle that is put in front stands for its store, and the other handles stand for theirs. -/
theorem place?_cons (h : c.Tells s) (fresh : String) (k : Nat) (other : String) :
    List.lookup other ((fresh, k) :: s.handles) =
      Function.update c.origin fresh (some k) other := by
  rw [List.lookup_cons]
  by_cases hother : other = fresh
  · rw [hother, Function.update_self, beq_self_eq_true]
  · rw [Function.update_of_ne hother, beq_eq_false_iff_ne.2 hother]
    exact h.place?_eq other

/-- A handle that is made or shared stands for a store that there is, and so do the others. -/
theorem update_lt (h : c.Tells s) {fresh : String} {k k' count : Nat} (hk : k < count)
    (hcount : c.stores.length ≤ count)
    (hother : Function.update c.origin fresh (some k) other = some k') : k' < count := by
  by_cases hfresh : other = fresh
  · rw [hfresh, Function.update_self] at hother
    exact Option.some_inj.1 hother ▸ hk
  · rw [Function.update_of_ne hfresh] at hother
    exact (h.origin_lt hother).trans_le hcount

/-- A handle for a new store is told by beginning a new list of writes. -/
theorem add (h : c.Tells s) (handle : String) {p : Parameters α} {writes : List (Write α)}
    (hp : p.Holds writes) : (c.begin handle writes).Tells (s.add handle p) where
  place?_eq other := by
    rw [begin, ← h.length_eq]
    exact h.place?_cons handle s.stores.length other
  length_eq := by simp [Shelf.add, begin, h.length_eq]
  origin_lt horigin := by
    rw [begin, List.length_append, List.length_singleton]
    exact h.update_lt (Nat.lt_succ_self _) (Nat.le_succ _) horigin
  holds {k q writes'} hq hwrites' := by
    simp only [Shelf.add, begin, List.getElem?_append, h.length_eq] at hq hwrites'
    split at hq
    · next hlt =>
      rw [if_pos hlt] at hwrites'
      exact h.holds hq hwrites'
    · next hlt =>
      rw [if_neg hlt] at hwrites'
      rw [List.getElem?_singleton] at hq hwrites'
      split at hq
      · next hlast =>
        rw [if_pos hlast] at hwrites'
        cases hq
        cases hwrites'
        exact hp
      · cases hq

/-- A shared handle is told by giving it the same origin. -/
theorem clone (h : c.Tells s) (handle fresh : String) :
    (c.record (.clone handle fresh)).Tells (s.act (.share handle fresh)) := by
  rw [record, Shelf.act, Shelf.share?, h.place?_eq]
  cases horigin : c.origin handle with
  | none => exact h
  | some k =>
    exact ⟨h.place?_cons fresh k, h.length_eq, h.update_lt (h.origin_lt horigin) le_rfl, h.holds⟩

/-- To write over the store of a handle is told by one more write to it. -/
theorem replace (h : c.Tells s) {p : Parameters α} (hp : s.stores[k]? = some p) (w : Write α) :
    Tells { c with stores := c.stores.modify k (· ++ [w]) } (s.replace k (p.write w)) where
  place?_eq := h.place?_eq
  length_eq := by simp [Shelf.replace, h.length_eq]
  origin_lt horigin := by
    rw [List.length_modify]
    exact h.origin_lt horigin
  holds {j q writes} hq hwrites := by
    rw [List.getElem?_modify] at hwrites
    obtain ⟨before, hbefore, rfl⟩ := Option.map_eq_some_iff.1 hwrites
    by_cases hj : k = j
    · subst hj
      have hlt := (List.getElem?_eq_some_iff.1 hp).1
      obtain rfl : p.write w = q := by simpa [Shelf.replace, hlt] using hq
      rw [if_pos rfl]
      exact (h.holds hp hbefore).write w
    · rw [if_neg hj]
      rw [Shelf.replace, List.getElem?_set_ne hj] at hq
      exact h.holds hq hbefore

end Tells

end Chronicle

namespace Shelf

variable {s : Shelf α} {handle reader writer name : String} {k : Nat} {p q : Parameters α}
  {value : α}

/-! ## Writes through handles -/

/-- A handle stands for the store at its place. -/
theorem store?_eq (hplace : s.place? handle = some k) : s.store? handle = s.stores[k]? := by
  rw [store?, hplace]
  rfl

/-- Behind a replacement a handle stands for the store that was put in the place. -/
theorem store?_replace_self (hplace : s.place? handle = some k) (hp : s.stores[k]? = some p) :
    (s.replace k q).store? handle = some q := by
  have hlt := (List.getElem?_eq_some_iff.1 hp).1
  rw [store?_eq (s := s.replace k q) hplace, replace, List.getElem?_set_self hlt]

/-- A store that is written over is not one that another handle stands for. -/
theorem store?_replace_of_ne (hplace : s.place? handle ≠ some k) :
    (s.replace k q).store? handle = s.store? handle := by
  show (s.place? handle).bind ((s.stores.set k q)[·]?) = (s.place? handle).bind (s.stores[·]?)
  cases h : s.place? handle with
  | none => rfl
  | some k' =>
    have hne : k ≠ k' := fun heq => hplace (heq ▸ h)
    exact List.getElem?_set_ne hne

/-- To insert a name through a handle replaces the store that it stands for. -/
theorem insert_eq (hplace : s.place? handle = some k) (hp : s.stores[k]? = some p) :
    s.insert handle name value = s.replace k (p.insert name value) := by
  rw [insert, store?_eq hplace, hplace, hp]

/-- To set a name that is there replaces the store, and answers that it was there. -/
theorem set_of_mem (hplace : s.place? handle = some k) (hp : s.stores[k]? = some p)
    (hname : name ∈ p.names) :
    s.set handle name value = (true, s.replace k (p.insert name value)) := by
  simp only [set, store?_eq hplace, hplace, hp, Parameters.set?_of_mem hname]

/-- To set a name that is not there changes nothing, and answers that it was not there. -/
theorem set_of_not_mem (hplace : s.place? handle = some k) (hp : s.stores[k]? = some p)
    (hname : name ∉ p.names) : s.set handle name value = (false, s) := by
  simp only [set, store?_eq hplace, hplace, hp, Parameters.set?_of_not_mem hname]

/-- What a write through a handle does to the shelf. -/
theorem act_write (hplace : s.place? handle = some k) (hp : s.stores[k]? = some p) (w : Write α) :
    s.act (Operation.write handle w).action = s.replace k (p.write w) := by
  cases w with
  | insert name value => exact insert_eq hplace hp
  | set name value =>
    show (s.set handle name value).2 = _
    rw [Parameters.write]
    by_cases hname : name ∈ p.names
    · rw [set_of_mem hplace hp hname, Parameters.set?_of_mem hname]
      rfl
    · obtain ⟨hlt, hget⟩ := List.getElem?_eq_some_iff.1 hp
      have hkeep : s.stores.set k p = s.stores := by rw [← hget, List.set_getElem_self]
      rw [set_of_not_mem hplace hp hname, Parameters.set?_of_not_mem hname, Option.getD_none,
        replace, hkeep]

/-- A write through a handle that stands for nothing changes nothing. -/
theorem act_write_of_none (hplace : s.place? handle = none) (w : Write α) :
    s.act (Operation.write handle w).action = s := by
  cases w with
  | insert name value => simp only [Operation.action, act, insert, hplace]
  | set name value => simp only [Operation.action, act, set, hplace]

/-- No handle reads everything that is inserted through a handle which leaves its store as it is:
there is always a name that has not been inserted. -/
theorem not_sees_of_keeps [Inhabited α]
    (h : ∀ name value, (s.insert writer name value).store? reader = s.store? reader) :
    ¬s.Sees reader writer := by
  intro hsees
  cases hstore : s.store? reader with
  | none =>
    have hread := hsees "" default
    rw [h, hstore] at hread
    cases hread
  | some p =>
    obtain ⟨name, hname⟩ := Infinite.exists_notMem_finset p.names.toFinset
    have hread := hsees name default
    rw [h, hstore] at hread
    have hmem : name ∈ p.names := Parameters.get?_isSome_iff.1 (Option.isSome_of_eq_some hread)
    exact hname (List.mem_toFinset.2 hmem)

end Shelf

namespace Chronicle

variable {c : Chronicle α} {s : Shelf α} {handle reader writer : String}

/-- What an operation does is told by what it adds to the chronicle. -/
theorem Tells.act (h : c.Tells s) (operation : Operation α) :
    (c.record operation).Tells (s.act operation.action) := by
  cases operation with
  | make handle => exact h.add handle .empty
  | makeFrom handle entries => exact h.add handle (Parameters.holds_ofList entries)
  | clone handle fresh => exact h.clone handle fresh
  | write handle w =>
    cases horigin : c.origin handle with
    | some k =>
      obtain ⟨p, -, hp, -⟩ := h.exists_store horigin
      rw [Shelf.act_write ((h.place?_eq handle).trans horigin) hp, record, horigin]
      exact h.replace hp w
    | none =>
      rw [Shelf.act_write_of_none ((h.place?_eq handle).trans horigin), record, horigin]
      exact h

/-- A run of operations is told by the records of them, one after the other. -/
theorem Tells.run (h : c.Tells s) (operations : List (Operation α)) :
    (operations.foldl record c).Tells (s.run (operations.map Operation.action)) := by
  induction operations generalizing c s with
  | nil => exact h
  | cons operation operations ih => exact ih (h.act operation)

/-- Any operations on an empty shelf are told by their chronicle. -/
theorem tells_ofOperations (operations : List (Operation α)) :
    (ofOperations operations).Tells (Shelf.ofOperations operations) :=
  Tells.empty.run operations

/-- A handle keeps its store when it is written to through a handle that descends from another one.
-/
theorem Tells.store?_act_write (h : c.Tells s) (hne : c.origin reader ≠ c.origin writer)
    (w : Write α) :
    (s.act (Operation.write writer w).action).store? reader = s.store? reader := by
  cases horigin : c.origin writer with
  | none => rw [Shelf.act_write_of_none ((h.place?_eq writer).trans horigin)]
  | some k =>
    obtain ⟨p, -, hp, -⟩ := h.exists_store horigin
    rw [Shelf.act_write ((h.place?_eq writer).trans horigin) hp]
    refine Shelf.store?_replace_of_ne ?_
    rw [h.place?_eq, ← horigin]
    exact hne

/-- Handles see the writes of each other just if they descend from one store. The numbers have to be
inhabited, as nothing could be written otherwise. -/
theorem Tells.sees_iff [Inhabited α] (h : c.Tells s) :
    s.Sees reader writer ↔ ∃ k, c.origin reader = some k ∧ c.origin writer = some k := by
  constructor
  · intro hsees
    by_cases heq : c.origin reader = c.origin writer
    · cases hwriter : c.origin writer with
      | some k => exact ⟨k, heq.trans hwriter, rfl⟩
      | none =>
        refine absurd hsees (Shelf.not_sees_of_keeps fun name value => ?_)
        exact congrArg (Shelf.store? · reader)
          (Shelf.act_write_of_none ((h.place?_eq writer).trans hwriter) (.insert name value))
    · refine absurd hsees (Shelf.not_sees_of_keeps fun name value => ?_)
      exact h.store?_act_write heq (.insert name value)
  · rintro ⟨k, hreader, hwriter⟩ name value
    obtain ⟨p, -, hp, -⟩ := h.exists_store hwriter
    rw [Shelf.insert_eq ((h.place?_eq writer).trans hwriter) hp,
      Shelf.store?_replace_self ((h.place?_eq reader).trans hreader) hp, Option.bind_some,
      Parameters.get?_insert, if_pos rfl]

end Chronicle

/-! ## Maps that handles share -/

namespace Parameters

/-- The indices of names are their places in the order of first insertion. -/
theorem indexOf?_eq_some_iff {p : Parameters α} {name : String} {i : Nat} :
    p.indexOf? name = some i ↔ p.names[i]? = some name := by
  rw [indexOf?, List.findIdx?_eq_some_iff_getElem]
  constructor
  · rintro ⟨hlt, hname, -⟩
    rw [List.getElem?_eq_getElem hlt, beq_iff_eq.1 hname]
  · intro hi
    obtain ⟨hlt, hname⟩ := List.getElem?_eq_some_iff.1 hi
    refine ⟨hlt, beq_iff_eq.2 hname, fun j hj hother => ?_⟩
    have hnodup : p.names.Nodup := p.distinct
    have heq : p.names[j] = p.names[i] := (beq_iff_eq.1 hother).trans hname.symm
    exact absurd (hnodup.getElem_inj_iff.1 heq) hj.ne

/-- A name keeps its index in every later state of a store. -/
theorem Extends.indexOf?_eq_some {p q : Parameters α} (h : p.Extends q) {name : String} {i : Nat}
    (hi : p.indexOf? name = some i) : q.indexOf? name = some i := by
  obtain ⟨more, hmore⟩ := h
  rw [indexOf?_eq_some_iff] at hi ⊢
  rw [← hmore, List.getElem?_append_left (List.getElem?_eq_some_iff.1 hi).1, hi]

/-- The store is a map with an order: the names are distinct, each at its index in the order of
first insertion, with its number at the same place, which is the one that the last write to it left.
-/
structure IsMapOf (p : Parameters α) (writes : List (Write α)) : Prop extends p.Holds writes where
  nodup : p.names.Nodup
  indexOf?_iff (name : String) (i : Nat) : p.indexOf? name = some i ↔ p.names[i]? = some name
  length_eq : p.names.length = p.values.length
  get?_eq (i : Nat) (name : String) : p.names[i]? = some name → p.get? name = p.values[i]?

/-- A store that holds writes is the map that they make, with its names in the order of their first
insertion. -/
theorem Holds.isMapOf {p : Parameters α} {writes : List (Write α)} (h : p.Holds writes) :
    p.IsMapOf writes where
  toHolds := h
  nodup := p.distinct
  indexOf?_iff name i := indexOf?_eq_some_iff
  length_eq := by rw [length_names, length_values]
  get?_eq i name hi := (Extends.refl p).get?_eq hi

end Parameters

/-- Behind all operations, handles stand for maps that they share. Two of them see each other's
writes if and only if they descend from one store by cloning, and a write through a handle that
descends from another store changes nothing. A store is the map that the writes to it leave; to set
a name through a handle tells whether the name is there, and does nothing if it is not; and behind
whatever other operations the name has the index that it had. -/
theorem Shelf.shared_maps [Inhabited α] (operations : List (Operation α)) :
    let s := ofOperations operations
    let c := Chronicle.ofOperations operations
    (∀ reader writer,
      s.Sees reader writer ↔ ∃ k, c.origin reader = some k ∧ c.origin writer = some k) ∧
    (∀ reader writer, c.origin reader ≠ c.origin writer → ∀ w,
      (s.act (Operation.write writer w).action).store? reader = s.store? reader) ∧
    ∀ handle k, c.origin handle = some k → ∃ p writes,
      s.store? handle = some p ∧ c.stores[k]? = some writes ∧ p.IsMapOf writes ∧
      (∀ name value, ((s.set handle name value).1 = true ↔ name ∈ p.names) ∧
        (name ∉ p.names → (s.set handle name value).2 = s)) ∧
      ∀ name i, p.indexOf? name = some i → ∀ later other,
        (Chronicle.ofOperations (operations ++ later)).origin other = some k →
        ∃ q, (ofOperations (operations ++ later)).store? other = some q ∧
          q.indexOf? name = some i := by
  intro s c
  have htells : c.Tells s := Chronicle.tells_ofOperations operations
  refine ⟨fun reader writer => htells.sees_iff, fun reader writer hne w =>
    htells.store?_act_write hne w, fun handle k horigin => ?_⟩
  obtain ⟨p, writes, hp, hstore, hwrites, hholds⟩ := htells.exists_store horigin
  have hplace : s.place? handle = some k := (htells.place?_eq handle).trans horigin
  refine ⟨p, writes, hstore, hwrites, hholds.isMapOf, fun name value => ?_,
    fun name i hi later other hother => ?_⟩
  · by_cases hname : name ∈ p.names
    · rw [set_of_mem hplace hp hname]
      exact ⟨⟨fun _ => hname, fun _ => rfl⟩, fun habsent => absurd hname habsent⟩
    · rw [set_of_not_mem hplace hp hname]
      exact ⟨⟨fun hfalse => absurd hfalse Bool.false_ne_true, fun hmem => absurd hmem hname⟩,
        fun _ => rfl⟩
  · -- The other handle stands for the store at the same place, which has only been extended.
    have hlater : (Chronicle.ofOperations (operations ++ later)).Tells
        (ofOperations (operations ++ later)) := Chronicle.tells_ofOperations _
    obtain ⟨q, hq, hextends⟩ := run_extends hp (later.map Operation.action)
    have hrun : ofOperations (operations ++ later) = s.run (later.map Operation.action) := by
      rw [ofOperations, List.map_append, run, List.foldl_append]
      rfl
    refine ⟨q, ?_, hextends.indexOf?_eq_some hi⟩
    rw [store?_eq ((hlater.place?_eq other).trans hother), hrun]
    exact hq

/-- A store of one entry that is cloned and written to through both handles, and another store. -/
theorem Shelf.shared_maps_cloned :
    let operations : List (Operation Float) := [.makeFrom "p" [("a", 1)], .clone "p" "q",
      .write "q" (.insert "b" 2), .write "p" (.set "a" 3), .make "r", .write "r" (.set "a" 5)]
    let s := ofOperations operations
    let c := Chronicle.ofOperations operations
    c.origin "p" = some 0 ∧ c.origin "q" = some 0 ∧ c.origin "r" = some 1 ∧
      s.Sees "p" "q" ∧ ¬s.Sees "p" "r" ∧
      (∀ w, (s.act (Operation.write "r" w).action).store? "p" = s.store? "p") ∧
      ∃ p, s.store? "q" = some p ∧ p.names = ["a", "b"] ∧ p.get? "a" = some 3 ∧
        (∀ value, (s.set "q" "b" value).1 = true ∧ (s.set "q" "c" value).2 = s) ∧
        ∀ later other, (Chronicle.ofOperations (operations ++ later)).origin other = some 0 →
          ∃ q, (ofOperations (operations ++ later)).store? other = some q ∧
            q.indexOf? "b" = some 1 := by
  intro operations s c
  obtain ⟨hsees, hkeeps, hmaps⟩ := shared_maps operations
  have hp : c.origin "p" = some 0 := rfl
  have hq : c.origin "q" = some 0 := rfl
  have hr : c.origin "r" = some 1 := rfl
  have hapart : c.origin "p" ≠ c.origin "r" := by simp [hp, hr]
  refine ⟨hp, hq, hr, (hsees "p" "q").2 ⟨0, hp, hq⟩, fun h => ?_, hkeeps "p" "r" hapart, ?_⟩
  · obtain ⟨k, hk, hk'⟩ := (hsees "p" "r").1 h
    exact hapart (hk.trans hk'.symm)
  · obtain ⟨p, writes, hstore, hwrites, hmap, hset, hindex⟩ := hmaps "q" 0 hq
    obtain rfl : [.insert "a" 1, .insert "b" 2, .set "a" 3] = writes := Option.some_inj.1 hwrites
    have hnames : p.names = ["a", "b"] := hmap.names_eq.trans (by decide)
    have ha : p.get? "a" = some 3 := (hmap.get?_iff "a" 3).2
      ⟨[.insert "a" 1, .insert "b" 2], .set "a" 3, [], rfl, rfl, rfl, by simp, by decide⟩
    refine ⟨p, hstore, hnames, ha, fun value => ⟨?_, ?_⟩, hindex "b" 1 ?_⟩
    · exact (hset "b" value).1.2 (by simp [hnames])
    · exact (hset "c" value).2 (by simp [hnames])
    · exact (hmap.indexOf?_iff "b" 1).2 (by rw [hnames]; rfl)

end SurfaceGeometry
