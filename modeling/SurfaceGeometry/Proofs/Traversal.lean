import SurfaceGeometry.Expr.Basic
import SurfaceGeometry.Proofs.Outcome

/-!
# The first failure in a tree

The passes over a tree that can fail, the compiler and the differentiator, stop at the first part
that they have no rule for. `Expr.preorder` lists the parts of a tree, each before its own parts,
and `FirstFault` says of a list which failure is that of its first faulty member, whatever it is
that makes a member faulty. A pass is followed along the list by `Outcome.FailsAs`: a step in it
fails as its stretch of the list does, and steps that come one after the other fail as the stretches
put together (`Outcome.FailsAs.bind`).
-/

namespace SurfaceGeometry

/-! ## The parts of a tree -/

namespace Expr

variable {α : Type} {e part : Expr α} {name : String}

mutual

/-- The parts of a tree, itself the first, in the order in which they are met from left to right. -/
def preorder : Expr α → List (Expr α)
  | const value => [const value]
  | symbol name => [symbol name]
  | unary op operand => unary op operand :: operand.preorder
  | binary op left right => binary op left right :: (left.preorder ++ right.preorder)
  | call name args => call name args :: preorderAll args

/-- The parts of all trees of a list. -/
def preorderAll : List (Expr α) → List (Expr α)
  | [] => []
  | arg :: args => arg.preorder ++ preorderAll args

end

/-- The parts of a list of trees are those of each tree in turn. -/
theorem preorderAll_eq (args : List (Expr α)) : preorderAll args = args.flatMap preorder := by
  induction args with
  | nil => rfl
  | cons arg args ih => simp [preorderAll, ih]

/-- The symbols of a tree are those among its parts. -/
theorem symbol_mem_preorder : symbol name ∈ e.preorder ↔ name ∈ e.occurrences := by
  induction e with
  | const value => simp [preorder, occurrences]
  | symbol other => simp [preorder, occurrences]
  | unary op operand ih => simp [preorder, occurrences, ih]
  | binary op left right ihl ihr => simp [preorder, occurrences, ihl, ihr]
  | call function args ih =>
    simp only [preorder, occurrences, preorderAll_eq, occurrencesAll_eq, List.mem_cons,
      reduceCtorEq, false_or, List.mem_flatMap]
    exact exists_congr fun arg => and_congr_right fun harg => ih arg harg

/-- A symbol that occurs in a part occurs in the tree. -/
theorem dependsOn_of_mem_preorder (hpart : part ∈ e.preorder) (h : part.dependsOn name = true) :
    e.dependsOn name = true := by
  induction e with
  | const value | symbol other =>
    obtain rfl := List.mem_singleton.1 hpart
    exact h
  | unary op operand ih =>
    rcases List.mem_cons.1 hpart with rfl | hmem
    · exact h
    · exact ih hmem
  | binary op left right ihl ihr =>
    rcases List.mem_cons.1 hpart with rfl | hmem
    · exact h
    · rw [dependsOn, Bool.or_eq_true]
      exact (List.mem_append.1 hmem).imp ihl ihr
  | call function args ih =>
    rcases List.mem_cons.1 hpart with rfl | hmem
    · exact h
    · rw [preorderAll_eq, List.mem_flatMap] at hmem
      obtain ⟨arg, harg, hmem⟩ := hmem
      rw [dependsOn, anyDependsOn_eq, List.any_eq_true]
      exact ⟨arg, harg, ih arg harg hmem⟩

end Expr

/-! ## Calls -/

/-- A name can be called with a number of arguments: one of the two tables has it. -/
def Callable (name : String) (count : Nat) : Prop :=
  count = 1 ∧ (UnaryFunction.ofName? name).isSome = true ∨
    count = 2 ∧ (BinaryFunction.ofName? name).isSome = true

/-! ## The first fault -/

/-- The failure is that of the first member of the list that has one. -/
inductive FirstFault {β ε : Type} (faulty : β → ε → Prop) : List β → ε → Prop where
  | here {b bs e} (fault : faulty b e) : FirstFault faulty (b :: bs) e
  | there {b bs e} (sound : ∀ e, ¬faulty b e) (later : FirstFault faulty bs e) :
      FirstFault faulty (b :: bs) e

section
variable {β γ δ ε : Type} {faulty : β → ε → Prop} {b : β} {l m : List β} {e : ε}

/-- Where nothing is faulty, there is no first fault. -/
theorem not_firstFault_of_sound (h : ∀ b ∈ l, ∀ e, ¬faulty b e) : ¬FirstFault faulty l e := by
  intro hfault
  induction hfault with
  | here fault => exact h _ (List.mem_cons_self ..) _ fault
  | there _ _ ih => exact ih fun b hb => h b (List.mem_cons_of_mem _ hb)

/-- Some member is the first faulty one if any is faulty. -/
theorem exists_firstFault_iff : (∃ e, FirstFault faulty l e) ↔ ∃ b ∈ l, ∃ e, faulty b e := by
  constructor
  · rintro ⟨e, hfault⟩
    exact Classical.byContradiction fun hnone => not_firstFault_of_sound
      (fun b hb e he => hnone ⟨b, hb, e, he⟩) hfault
  · intro h
    induction l with
    | nil => obtain ⟨b, hb, -⟩ := h; cases hb
    | cons c l ih =>
      by_cases hc : ∃ e, faulty c e
      · obtain ⟨e, he⟩ := hc
        exact ⟨e, .here he⟩
      · obtain ⟨b, hb, hfault⟩ := h
        rcases List.mem_cons.1 hb with rfl | hb
        · exact absurd hfault hc
        · obtain ⟨e, he⟩ := ih ⟨b, hb, hfault⟩
          exact ⟨e, .there (fun e he => hc ⟨e, he⟩) he⟩

/-- What is not faulty can be left out in front. -/
theorem firstFault_cons_of_sound (h : ∀ e, ¬faulty b e) :
    FirstFault faulty (b :: l) e ↔ FirstFault faulty l e := by
  constructor
  · rintro (fault | ⟨-, later⟩)
    · exact absurd fault (h e)
    · exact later
  · exact .there h

/-- The first fault of two lists is in the first one, or that one has none. -/
theorem firstFault_append : FirstFault faulty (l ++ m) e ↔
    FirstFault faulty l e ∨ (∀ b ∈ l, ∀ e, ¬faulty b e) ∧ FirstFault faulty m e := by
  induction l with
  | nil =>
    constructor
    · exact fun h => .inr ⟨fun b hb => (nomatch hb), h⟩
    · rintro (h | ⟨-, h⟩)
      · cases h
      · exact h
  | cons b l ih =>
    rw [List.cons_append]
    constructor
    · rintro (fault | ⟨sound, later⟩)
      · exact .inl (.here fault)
      · rcases ih.1 later with h | ⟨hl, hm⟩
        · exact .inl (.there sound h)
        · exact .inr ⟨List.forall_mem_cons.2 ⟨sound, hl⟩, hm⟩
    · rintro ((fault | ⟨sound, later⟩) | ⟨hl, hm⟩)
      · exact .here fault
      · exact .there sound (ih.2 (.inl later))
      · obtain ⟨sound, hl⟩ := List.forall_mem_cons.1 hl
        exact .there sound (ih.2 (.inr ⟨hl, hm⟩))

/-! ## Steps that fail along a list -/

namespace Outcome

variable {x : Except ε γ} {f : γ → Except ε δ}

/-- The step fails with the first fault of the list, and if there is none it does not fail. -/
def FailsAs (faulty : β → ε → Prop) (l : List β) (x : Except ε γ) : Prop :=
  ∀ e, x = .error e ↔ FirstFault faulty l e

namespace FailsAs

/-- A step that succeeds fails as a list without faults. -/
theorem ok (h : ∀ b ∈ l, ∀ e, ¬faulty b e) (c : γ) : FailsAs faulty l (.ok c : Except ε γ) :=
  fun _ => ⟨fun herror => (nomatch herror), fun hfault => absurd hfault (not_firstFault_of_sound h)⟩

/-- A step that succeeds fails as the empty list. -/
theorem ok_nil (c : γ) : FailsAs faulty [] (.ok c : Except ε γ) :=
  .ok (by simp) c

/-- A step that fails at once, for the reason that the list begins with. -/
theorem error (hfault : faulty b e) (honly : ∀ e', faulty b e' → e' = e) :
    FailsAs faulty (b :: l) (.error e : Except ε γ) := by
  intro e'
  constructor
  · rintro ⟨⟩
    exact .here hfault
  · rintro (fault | ⟨sound, -⟩)
    · rw [honly e' fault]
    · exact absurd hfault (sound e)

/-- What is not faulty can be put in front. -/
theorem cons (hb : ∀ e, ¬faulty b e) (h : FailsAs faulty l x) : FailsAs faulty (b :: l) x :=
  fun e => (h e).trans (firstFault_cons_of_sound hb).symm

/-- A step that succeeded had no faults to find. -/
theorem sound_of_ok {c : γ} (h : FailsAs faulty l (.ok c : Except ε γ)) :
    ∀ b ∈ l, ∀ e, ¬faulty b e := by
  intro b hb e he
  obtain ⟨e', hfault⟩ := exists_firstFault_iff.2 ⟨b, hb, e, he⟩
  exact nomatch (h e').2 hfault

/-- Two steps fail with the first fault of the one list, or with that of the other if the first list
has none. -/
theorem bind_eq_error_iff {β' : Type} {faulty' : β' → ε → Prop} {m : List β'}
    (hx : FailsAs faulty l x) (hf : ∀ c, FailsAs faulty' m (f c)) :
    x >>= f = .error e ↔
      FirstFault faulty l e ∨ (∀ b ∈ l, ∀ e, ¬faulty b e) ∧ FirstFault faulty' m e := by
  cases x with
  | error e' =>
    have hfirst := (hx e').1 rfl
    rw [error_bind, ← hx e]
    constructor
    · rintro ⟨⟩
      exact .inl rfl
    · rintro (⟨⟨⟩⟩ | ⟨hsound, -⟩)
      · rfl
      · exact absurd hfirst (not_firstFault_of_sound hsound)
  | ok c =>
    have hsound := hx.sound_of_ok
    rw [ok_bind, hf c e]
    exact ⟨fun h => .inr ⟨hsound, h⟩,
      fun h => h.elim (fun h => absurd h (not_firstFault_of_sound hsound)) And.right⟩

/-- Two steps with faults of one kind fail as their lists do one after the other. -/
theorem bind (hx : FailsAs faulty l x) (hf : ∀ c, FailsAs faulty m (f c)) :
    FailsAs faulty (l ++ m) (x >>= f) :=
  fun _ => (hx.bind_eq_error_iff hf).trans firstFault_append.symm

/-- What is done with the result of a step cannot fail. -/
theorem map (hx : FailsAs faulty l x) (g : γ → δ) :
    FailsAs faulty l (x >>= fun c => .ok (g c)) := by
  have h := hx.bind fun c => FailsAs.ok_nil (g c)
  rwa [List.append_nil] at h

/-- A step fails for some reason just when something in the list is faulty for some reason. -/
theorem exists_error_iff (h : FailsAs faulty l x) :
    (∃ e, x = .error e) ↔ ∃ b ∈ l, ∃ e, faulty b e :=
  (exists_congr h).trans exists_firstFault_iff

end FailsAs

end Outcome

end

end SurfaceGeometry
