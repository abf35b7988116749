import SurfaceGeometry.Proofs.Parameters.History
import Mathlib.Data.List.Induction

/-!
# The writes to a store

What a parameter store holds is told by the writes to it, the first one first (`Parameters.Holds`).
Its names are those that were inserted, in the order in which they were first inserted. The number
of a name is that of the last write to it, if this is an insertion or comes behind one
(`Write.Leaves`): to set a name that is not there does nothing. Every write keeps this
(`Parameters.Holds.write`), so a store that is made from a list of entries holds what inserting them
one by one leaves (`Parameters.holds_ofList`).
-/

namespace SurfaceGeometry

variable {α : Type}

/-- A write to a parameter store. -/
inductive Write (α : Type) where
  /-- Adds a name with a number, or gives a present one another number. -/
  | insert (name : String) (value : α)
  /-- Gives a present name another number. -/
  | set (name : String) (value : α)

namespace Write

/-- The name that is written to. -/
def name : Write α → String
  | insert name _ => name
  | set name _ => name

/-- The number that is written. -/
def value : Write α → α
  | insert _ value => value
  | set _ value => value

/-- The name that a write adds if it is not there. -/
def inserted? : Write α → Option String
  | insert name _ => some name
  | set _ _ => none

/-- The names that are inserted, one for each insertion. -/
def inserted (writes : List (Write α)) : List String :=
  writes.filterMap inserted?

/-- The last write to a name gives it the number, and it is an insertion or comes behind one. -/
def Leaves (writes : List (Write α)) (name : String) (value : α) : Prop :=
  ∃ before last after, writes = before ++ last :: after ∧ last.name = name ∧ last.value = value ∧
    (∀ write ∈ after, write.name ≠ name) ∧ name ∈ inserted (before ++ [last])

variable {writes : List (Write α)} {name : String} {value : α}

@[simp] theorem inserted_append (writes writes' : List (Write α)) :
    inserted (writes ++ writes') = inserted writes ++ inserted writes' :=
  List.filterMap_append

@[simp] theorem inserted_insert : inserted [insert name value] = [name] := rfl

@[simp] theorem inserted_set : inserted [set name value] = [] := rfl

/-- No write leaves no number. -/
theorem not_leaves_nil : ¬Leaves [] name value := by
  rintro ⟨before, last, after, h, -⟩
  exact absurd h (by simp)

/-- A write to a name replaces the number that the writes before it left. -/
theorem leaves_concat_self (write : Write α) (hname : write.name = name) :
    Leaves (writes ++ [write]) name value ↔
      write.value = value ∧ name ∈ inserted (writes ++ [write]) := by
  constructor
  · rintro ⟨before, last, after, h, -, hvalue, hafter, hinserted⟩
    rcases List.eq_nil_or_concat after with rfl | ⟨after, final, rfl⟩
    · obtain ⟨rfl, hlast⟩ := List.append_inj' h rfl
      obtain rfl : write = last := by simpa using hlast
      exact ⟨hvalue, hinserted⟩
    · have hsplit : writes ++ [write] = (before ++ last :: after) ++ [final] := by simpa using h
      obtain ⟨-, hfinal⟩ := List.append_inj' hsplit rfl
      obtain rfl : write = final := by simpa using hfinal
      exact absurd hname (hafter write (by simp))
  · rintro ⟨hvalue, hinserted⟩
    exact ⟨writes, write, [], rfl, hname, hvalue, by simp, hinserted⟩

/-- A write to another name leaves a number as it is. -/
theorem leaves_concat_of_ne (write : Write α) (hname : write.name ≠ name) :
    Leaves (writes ++ [write]) name value ↔ Leaves writes name value := by
  constructor
  · rintro ⟨before, last, after, h, hlast, hvalue, hafter, hinserted⟩
    rcases List.eq_nil_or_concat after with rfl | ⟨after, final, rfl⟩
    · obtain ⟨-, hwrite⟩ := List.append_inj' h rfl
      obtain rfl : write = last := by simpa using hwrite
      exact absurd hlast hname
    · have hsplit : writes ++ [write] = (before ++ last :: after) ++ [final] := by simpa using h
      obtain ⟨rfl, -⟩ := List.append_inj' hsplit rfl
      exact ⟨before, last, after, rfl, hlast, hvalue, fun w hw => hafter w (by simp [hw]),
        hinserted⟩
  · rintro ⟨before, last, after, rfl, hlast, hvalue, hafter, hinserted⟩
    refine ⟨before, last, after ++ [write], by simp, hlast, hvalue, ?_, hinserted⟩
    intro w hw
    rcases List.mem_append.1 hw with hw | hw
    · exact hafter w hw
    · rwa [List.mem_singleton.1 hw]

end Write

namespace Parameters

variable {p : Parameters α} {writes : List (Write α)} {name other : String} {value : α}

/-- The store behind a write. -/
def write (p : Parameters α) : Write α → Parameters α
  | .insert name value => p.insert name value
  | .set name value => (p.set? name value).getD p

/-! ## Entries behind an insertion -/

/-- A store contains the names that it lists. -/
theorem contains_iff : p.contains name = true ↔ name ∈ p.names :=
  List.contains_iff_mem

/-- To insert a name that is there gives its entry another number. -/
theorem entries_insert_of_mem (h : name ∈ p.names) (value : α) :
    (p.insert name value).entries = assign name value p.entries := by
  unfold insert
  exact congrArg entries (dif_pos h)

/-- To insert a name that is not there adds an entry behind the others. -/
theorem entries_insert_of_not_mem (h : name ∉ p.names) (value : α) :
    (p.insert name value).entries = p.entries ++ [(name, value)] := by
  unfold insert
  exact congrArg entries (dif_neg h)

/-- To insert a name that is there leaves the names as they are. -/
theorem names_insert_of_mem (h : name ∈ p.names) (value : α) :
    (p.insert name value).names = p.names := by
  rw [names, entries_insert_of_mem h, map_fst_assign]
  rfl

/-- To insert a name that is not there puts it behind the others. -/
theorem names_insert_of_not_mem (h : name ∉ p.names) (value : α) :
    (p.insert name value).names = p.names ++ [name] := by
  rw [names, entries_insert_of_not_mem h, List.map_append]
  rfl

/-- Only the number of the name changes. -/
theorem lookup_assign (name other : String) (value : α) (entries : List (String × α)) :
    (assign name value entries).lookup other =
      (entries.lookup other).map fun old => if name = other then value else old := by
  induction entries with
  | nil => rfl
  | cons entry entries ih =>
    obtain ⟨first, old⟩ := entry
    rw [assign, List.map_cons, ← assign]
    by_cases hfirst : first = name
    · subst hfirst
      rw [if_pos rfl, List.lookup_cons, List.lookup_cons]
      by_cases hother : other = first
      · simp [hother]
      · rw [beq_eq_false_iff_ne.2 hother]
        exact ih
    · rw [if_neg hfirst, List.lookup_cons, List.lookup_cons]
      by_cases hother : other = first
      · simp [hother, Ne.symm hfirst]
      · rw [beq_eq_false_iff_ne.2 hother]
        exact ih

/-- A name has a number just if it is listed. -/
theorem get?_isSome_iff : (p.get? name).isSome = true ↔ name ∈ p.names := by
  rw [get?, names, List.lookup_isSome_iff, List.mem_map]
  exact exists_congr fun entry => and_congr_right fun _ => beq_iff_eq.trans eq_comm

/-- Behind an insertion the name has the new number, and every other one has what it had. -/
theorem get?_insert (p : Parameters α) (name other : String) (value : α) :
    (p.insert name value).get? other = if name = other then some value else p.get? other := by
  by_cases hmem : name ∈ p.names
  · rw [get?, entries_insert_of_mem hmem, lookup_assign, ← get?]
    split
    · next hname =>
      obtain ⟨old, hold⟩ := Option.isSome_iff_exists.1 (get?_isSome_iff.2 (hname ▸ hmem))
      rw [hold]
      rfl
    · exact Option.map_id'
  · rw [get?, entries_insert_of_not_mem hmem, List.lookup_append, ← get?]
    split
    · next hname =>
      have hnone : p.get? other = none :=
        Option.not_isSome_iff_eq_none.1 (mt get?_isSome_iff.1 (hname ▸ hmem))
      simp [hnone, hname]
    · next hname =>
      have hlast : List.lookup other [(name, value)] = none := by
        simp [List.lookup_cons, beq_eq_false_iff_ne.2 (Ne.symm hname)]
      rw [hlast, Option.or_none]

/-- To set a name that is there is to insert it. -/
theorem set?_of_mem (h : name ∈ p.names) (value : α) :
    p.set? name value = some (p.insert name value) :=
  if_pos (contains_iff.2 h)

/-- To set a name that is not there fails. -/
theorem set?_of_not_mem (h : name ∉ p.names) (value : α) : p.set? name value = none :=
  if_neg (mt contains_iff.1 h)

/-! ## What the writes leave -/

/-- The store behind writes to the empty one: the inserted names in the order in which they were
first inserted, each with the number that the last write to it left. -/
structure Holds (p : Parameters α) (writes : List (Write α)) : Prop where
  names_eq : p.names = (Write.inserted writes).eraseDups
  get?_iff (name : String) (value : α) : p.get? name = some value ↔ Write.Leaves writes name value

namespace Holds

/-- The names of a store are those that were inserted. -/
theorem mem_names (h : p.Holds writes) : name ∈ p.names ↔ name ∈ Write.inserted writes := by
  rw [h.names_eq, List.mem_eraseDups]

/-- The empty store holds no writes. -/
theorem empty : (empty : Parameters α).Holds [] where
  names_eq := rfl
  get?_iff name value := by
    constructor
    · rintro ⟨⟩
    · intro h
      exact absurd h Write.not_leaves_nil

/-- An insertion into a store that holds writes is one more of them. -/
theorem insert (h : p.Holds writes) (name : String) (value : α) :
    (p.insert name value).Holds (writes ++ [.insert name value]) where
  names_eq := by
    rw [Write.inserted_append, Write.inserted_insert, List.eraseDups_append, ← h.names_eq]
    by_cases hmem : name ∈ p.names
    · have hold : [name].removeAll (Write.inserted writes) = [] := by
        simp [List.removeAll, h.mem_names.1 hmem]
      rw [names_insert_of_mem hmem, hold]
      simp
    · have hnew : [name].removeAll (Write.inserted writes) = [name] := by
        simp [List.removeAll, mt h.mem_names.2 hmem]
      rw [names_insert_of_not_mem hmem, hnew]
      rfl
  get?_iff other value' := by
    rw [get?_insert]
    by_cases hname : name = other
    · rw [if_pos hname, Write.leaves_concat_self (.insert name value) hname]
      simp [Write.value, hname]
    · rw [if_neg hname, Write.leaves_concat_of_ne (.insert name value) hname, h.get?_iff]

/-- To set a present name leaves what inserting it does, and to set another one leaves nothing. -/
theorem set (h : p.Holds writes) (name : String) (value : α) :
    (p.write (.set name value)).Holds (writes ++ [.set name value]) where
  names_eq := by
    rw [Write.inserted_append, Write.inserted_set, List.append_nil, ← h.names_eq, write]
    by_cases hmem : name ∈ p.names
    · rw [set?_of_mem hmem]
      exact names_insert_of_mem hmem value
    · rw [set?_of_not_mem hmem]
      rfl
  get?_iff other value' := by
    rw [write]
    by_cases hname : name = other
    · rw [Write.leaves_concat_self (.set name value) hname, Write.inserted_append,
        Write.inserted_set, List.append_nil, ← h.mem_names]
      by_cases hmem : name ∈ p.names
      · rw [set?_of_mem hmem, Option.getD_some, get?_insert, if_pos hname, Option.some_inj]
        exact ⟨fun hvalue => ⟨hvalue, hname ▸ hmem⟩, And.left⟩
      · have hnone : p.get? other = none :=
          Option.not_isSome_iff_eq_none.1 (mt get?_isSome_iff.1 (hname ▸ hmem))
        rw [set?_of_not_mem hmem, Option.getD_none, hnone]
        constructor
        · rintro ⟨⟩
        · rintro ⟨-, hpresent⟩
          exact absurd hpresent (hname ▸ hmem)
    · rw [Write.leaves_concat_of_ne (.set name value) hname, ← h.get?_iff]
      by_cases hmem : name ∈ p.names
      · rw [set?_of_mem hmem, Option.getD_some, get?_insert, if_neg hname]
      · rw [set?_of_not_mem hmem, Option.getD_none]

/-- Any write to a store that holds writes is one more of them; a name that is set without being
there leaves nothing. -/
theorem write (h : p.Holds writes) (w : Write α) : (p.write w).Holds (writes ++ [w]) := by
  cases w with
  | insert name value => exact h.insert name value
  | set name value => exact h.set name value

end Holds

/-- The store of a list of entries holds what inserting them one by one leaves. -/
theorem holds_ofList (entries : List (String × α)) :
    (ofList entries).Holds (entries.map fun entry => .insert entry.1 entry.2) := by
  induction entries using List.reverseRecOn with
  | nil => exact .empty
  | append_singleton entries entry ih =>
    rw [ofList, List.foldl_append, List.map_append]
    exact ih.insert entry.1 entry.2

end Parameters

end SurfaceGeometry
