import Mathlib
import SurfaceGeometry.Proofs.Bytecode.Substitution
import SurfaceGeometry.Proofs.Exact.Reading
import SurfaceGeometry.Proofs.Exact.Real
import SurfaceGeometry.Proofs.Symbolic.Symbols

/-!
# The substitution lemma

A substitution puts the symbols of the new tree in the place of every occurrence of the symbol
(`Expr.occurrences_substitute`), and in exact arithmetic it gives the tree the value that it has
when the symbol has the value of the new tree (`Expr.value?_substitute_exact`). The symbol may occur
in the new tree, where it keeps the value that it has outside, because the new tree is not
substituted in. The new tree may be a constant, also in an exponent, since in exact arithmetic it
does not matter how a power is computed. The same is true of definedness: a tree has a value after
the substitution where it has one before, with the value of the new tree for the symbol, or with no
value for it where the new tree has none (`Expr.hasValue_substitute`).
-/

namespace SurfaceGeometry

namespace Expr

/-! ## Symbols -/

section
variable {α : Type} {name : String} {t r : Expr α}

/-- The list of occurrences, from left to right, with those of the new tree put in. -/
theorem occurrences_substitute (name : String) (r t : Expr α) :
    (t.substitute name r).occurrences =
      t.occurrences.flatMap fun other => if other = name then r.occurrences else [other] := by
  induction t with
  | const value => rw [substitute, occurrences, List.flatMap_nil]
  | symbol other =>
    rw [substitute, occurrences, List.flatMap_singleton]
    split <;> rfl
  | unary op operand ih => rw [substitute, occurrences, occurrences, ih]
  | binary op left right ihl ihr =>
    rw [substitute, occurrences, occurrences, ihl, ihr, List.flatMap_append]
  | call function args ih =>
    rw [substitute, substituteAll_eq, occurrences_call, occurrences_call, List.flatMap_map,
      List.flatMap_assoc]
    exact List.flatMap_congr ih

/-- The symbols of a substitution are those of the tree without the name, and those of the
replacement if the name was there. -/
theorem mem_occurrences_substitute {other : String} :
    other ∈ (t.substitute name r).occurrences ↔
      other ∈ t.occurrences ∧ other ≠ name ∨ name ∈ t.occurrences ∧ other ∈ r.occurrences := by
  rw [occurrences_substitute, List.mem_flatMap]
  constructor
  · rintro ⟨symbol, hsymbol, hother⟩
    split at hother
    · next heq => exact .inr ⟨heq ▸ hsymbol, hother⟩
    · next hne =>
      obtain rfl := List.mem_singleton.1 hother
      exact .inl ⟨hsymbol, hne⟩
  · rintro (⟨hother, hne⟩ | ⟨hname, hother⟩)
    · exact ⟨other, hother, by rw [if_neg hne]; exact List.mem_singleton_self other⟩
    · exact ⟨name, hname, by rwa [if_pos rfl]⟩

/-- A tree depends on a name just when the name occurs in it. -/
theorem dependsOn_iff : t.dependsOn name = true ↔ name ∈ t.occurrences := by
  induction t with
  | const value => simp [dependsOn, occurrences]
  | symbol other =>
    rw [dependsOn, occurrences, beq_iff_eq, List.mem_singleton]
    exact eq_comm
  | unary op operand ih => rw [dependsOn, occurrences, ih]
  | binary op left right ihl ihr =>
    rw [dependsOn, occurrences, Bool.or_eq_true, List.mem_append, ihl, ihr]
  | call function args ih =>
    rw [dependsOn, anyDependsOn_eq, occurrences_call, List.any_eq_true, List.mem_flatMap]
    exact exists_congr fun arg => and_congr_right (ih arg)

/-- Nothing is put into a tree in which the symbol does not occur. -/
theorem substitute_eq_self (h : name ∉ t.occurrences) : t.substitute name r = t := by
  induction t with
  | const value => rw [substitute]
  | symbol other =>
    rw [substitute, if_neg]
    rintro rfl
    exact h (List.mem_singleton_self other)
  | unary op operand ih => rw [substitute, ih h]
  | binary op left right ihl ihr =>
    rw [occurrences, List.mem_append, not_or] at h
    rw [substitute, ihl h.1, ihr h.2]
  | call function args ih =>
    rw [occurrences_call, List.mem_flatMap] at h
    rw [substitute, substituteAll_eq,
      List.map_congr_left fun arg harg => ih arg harg fun hname => h ⟨arg, harg, hname⟩,
      List.map_id']

/-- A name is put at its place in a sorted list, or is there already. -/
theorem pairwise_insertName {names : List String} (h : names.Pairwise (· < ·)) :
    (insertName name names).Pairwise (· < ·) := by
  induction names with
  | nil => exact List.pairwise_singleton _ _
  | cons other rest ih =>
    obtain ⟨hother, hrest⟩ := List.pairwise_cons.1 h
    rw [insertName]
    split
    · next hlt =>
      refine List.pairwise_cons.2 ⟨fun later hlater => ?_, h⟩
      rcases List.mem_cons.1 hlater with rfl | hlater
      · exact hlt
      · exact hlt.trans (hother later hlater)
    · split
      · exact h
      · next hge hne =>
        have hgt : other < name := lt_of_le_of_ne (not_lt.1 hge) (Ne.symm hne)
        refine List.pairwise_cons.2 ⟨fun later hlater => ?_, ih hrest⟩
        rcases mem_insertName.1 hlater with rfl | hlater
        · exact hgt
        · exact hother later hlater

/-- The symbols of a tree are sorted, each of them once. -/
theorem pairwise_symbols (e : Expr α) : e.symbols.Pairwise (· < ·) := by
  unfold symbols
  induction e.occurrences with
  | nil => exact List.Pairwise.nil
  | cons name rest ih => exact pairwise_insertName ih

/-- The symbols of a tree are listed in increasing order, each once. -/
theorem sort_toFinset_symbols (e : Expr α) : e.symbols.toFinset.sort = e.symbols := by
  have hsorted := pairwise_symbols e
  exact (List.toFinset_sort (· ≤ ·) (hsorted.imp ne_of_lt)).2 (hsorted.imp le_of_lt)

end

/-! ## Values -/

section
variable {K : Type} [Field K] [LinearOrder K] [ElementaryFunctions K] {D : Definedness K}
  {lookup : String → Option K} {name : String} {v : K}

/-- In exact arithmetic anything may be substituted, constants too. -/
theorem value?_substitute_exact (lookup : String → Option K) (name : String) (r t : Expr K) :
    (t.substitute name r).value? lookup =
      t.value? (Function.update lookup name (r.value? lookup)) := by
  refine value?_substitute_of (fun base exponent hbase hexponent => ?_) t
  rw [value?_pow, value?_pow, hbase, hexponent]

/-- A symbol has the value that is looked up for it, and no other. -/
theorem hasValue_symbol_iff : (symbol name).HasValue D lookup v ↔ lookup name = some v :=
  ⟨fun h => by cases h with | symbol h => exact h, .symbol⟩

/-- The value of an operation comes from that of the operand. It is defined wherever the operand is.
-/
theorem hasValue_unary_iff {op : UnaryOp} {e : Expr K} : (unary op e).HasValue D lookup v ↔
    ∃ a, e.HasValue D lookup a ∧ v = op.apply a :=
  ⟨HasValue.of_unary, fun ⟨_, h, hv⟩ => hv ▸ .unary h⟩

/-- The value of an operation comes from those of the operands, where it is defined. -/
theorem hasValue_binary_iff {op : BinaryOp} {l r : Expr K} : (binary op l r).HasValue D lookup v ↔
    ∃ a b, l.HasValue D lookup a ∧ r.HasValue D lookup b ∧ D.operator op a b ∧ v = op.apply a b :=
  ⟨HasValue.of_binary, fun ⟨_, _, hl, hr, hdefined, hv⟩ => hv ▸ .binary hl hr hdefined⟩

/-- A call has a value when it is one of the two kinds of calls that a table has. -/
theorem hasValue_call_iff {args : List (Expr K)} : (call name args).HasValue D lookup v ↔
    (∃ arg f a, args = [arg] ∧ UnaryFunction.ofName? name = some f ∧ arg.HasValue D lookup a ∧
      D.unary f a ∧ v = f.apply a) ∨
    ∃ first second f a b, args = [first, second] ∧ BinaryFunction.ofName? name = some f ∧
      first.HasValue D lookup a ∧ second.HasValue D lookup b ∧ D.binary f a b ∧
        v = f.apply a b := by
  constructor
  · intro h
    cases h with
    | call hf harg hdefined => exact .inl ⟨_, _, _, rfl, hf, harg, hdefined, rfl⟩
    | call₂ hf hfirst hsecond hdefined =>
      exact .inr ⟨_, _, _, _, _, rfl, hf, hfirst, hsecond, hdefined, rfl⟩
  · rintro (⟨arg, f, a, rfl, hf, harg, hdefined, rfl⟩ |
      ⟨first, second, f, a, b, rfl, hf, hfirst, hsecond, hdefined, rfl⟩)
    · exact .call hf harg hdefined
    · exact .call₂ hf hfirst hsecond hdefined

/-- A tree has at most one value, which is there or not. -/
theorem exists_value (D : Definedness K) (lookup : String → Option K) (e : Expr K) :
    ∃ value, ∀ b, e.HasValue D lookup b ↔ value = some b := by
  by_cases h : ∃ a, e.HasValue D lookup a
  · obtain ⟨a, ha⟩ := h
    refine ⟨some a, fun b => ⟨fun hb => congrArg some (ha.unique hb), fun heq => ?_⟩⟩
    exact Option.some_inj.1 heq ▸ ha
  · exact ⟨none, fun b => iff_of_false (fun hb => h ⟨b, hb⟩) (by simp)⟩

/-- With the value of the new tree for the symbol, or none where that has none, a tree has the same
values as after the substitution. -/
theorem hasValue_substitute {value : Option K} {r : Expr K}
    (hvalue : ∀ b, r.HasValue D lookup b ↔ value = some b) (t : Expr K) (v : K) :
    (t.substitute name r).HasValue D lookup v ↔
      t.HasValue D (Function.update lookup name value) v := by
  induction t generalizing v with
  | const c =>
    rw [substitute]
    exact ⟨fun h => h.of_const ▸ .const, fun h => h.of_const ▸ .const⟩
  | symbol other =>
    rw [substitute, hasValue_symbol_iff]
    split
    · next heq => rw [heq, Function.update_self, hvalue]
    · next hne => rw [Function.update_of_ne hne, hasValue_symbol_iff]
  | unary op operand ih =>
    rw [substitute, hasValue_unary_iff, hasValue_unary_iff]
    simp only [ih]
  | binary op left right ihl ihr =>
    rw [substitute, hasValue_binary_iff, hasValue_binary_iff]
    simp only [ihl, ihr]
  | call function args ih =>
    rw [substitute, substituteAll_eq, hasValue_call_iff, hasValue_call_iff]
    -- Only a call with one argument or with two has a value.
    rcases args with _ | ⟨first, _ | ⟨second, _ | ⟨third, further⟩⟩⟩
    · simp
    · simp [ih first]
    · simp [ih first, ih second]
    · simp

end

/-! ## Trees read exactly -/

/-- To write the same tree with other numbers and to substitute can be done in either order. -/
theorem map_substitute {α β : Type} (f : α → β) (name : String) (r t : Expr α) :
    (t.substitute name r).map f = (t.map f).substitute name (r.map f) := by
  induction t with
  | const value => rw [substitute, map, substitute]
  | symbol other =>
    rw [substitute, map, substitute]
    split <;> rfl
  | unary op operand ih => rw [substitute, map, map, substitute, ih]
  | binary op left right ihl ihr => rw [substitute, map, map, substitute, ihl, ihr]
  | call function args ih =>
    rw [substitute, map, map, substitute, substituteAll_eq, substituteAll_eq, mapAll_eq, mapAll_eq,
      List.map_map, List.map_map]
    exact congrArg (call function) (List.map_congr_left ih)

/-! ## The lemma -/

/-- The symbols of a tree after a substitution are those before without the one, and with those of
the new tree if it occurs; a tree in which it does not occur stays. Read in any exact arithmetic,
the tree has the value that it has when the symbol has the value of the new tree, and one is defined
where the other is. -/
theorem substitution_lemma {α : Type} (t r : Expr α) (name : String) :
    (t.substitute name r).symbols = (t.symbols.toFinset.erase name ∪
        if name ∈ t.symbols then r.symbols.toFinset else ∅).sort ∧
      (t.dependsOn name = true ↔ name ∈ t.symbols) ∧
      (t.dependsOn name = false → t.substitute name r = t) ∧
      ∀ {K : Type} [Field K] [LinearOrder K] [ElementaryFunctions K] (exact : α → K)
        (lookup : String → Option K),
        ((t.substitute name r).map exact).value? lookup =
            (t.map exact).value? (Function.update lookup name ((r.map exact).value? lookup)) ∧
          ∀ D : Definedness K, ∃ value, (∀ b, (r.map exact).HasValue D lookup b ↔ value = some b) ∧
            ∀ v, ((t.substitute name r).map exact).HasValue D lookup v ↔
              (t.map exact).HasValue D (Function.update lookup name value) v := by
  refine ⟨?_, dependsOn_iff.trans mem_symbols.symm, fun h => ?_,
    fun exact lookup => ⟨?_, fun D => ?_⟩⟩
  · rw [← sort_toFinset_symbols (t.substitute name r)]
    congr 1
    ext other
    rw [List.mem_toFinset, mem_symbols, mem_occurrences_substitute]
    by_cases hname : name ∈ t.symbols
    · simp [hname, mem_symbols.1 hname, mem_symbols, and_comm]
    · have hne : other ∈ t.occurrences → other ≠ name := by
        rintro hother rfl
        exact hname (mem_symbols.2 hother)
      simpa [hname, mt mem_symbols.2 hname, mem_symbols] using hne
  · exact substitute_eq_self (mt dependsOn_iff.2 (Bool.eq_false_iff.1 h))
  · rw [map_substitute, value?_substitute_exact]
  · obtain ⟨value, hvalue⟩ := exists_value D lookup (r.map exact)
    refine ⟨value, hvalue, fun v => ?_⟩
    rw [map_substitute, hasValue_substitute hvalue]

/-- In `x ^ n` the base may be moved, to `(x + h) ^ n`, and the exponent may become a constant;
nothing is put in for `h`, which does not occur. -/
theorem substitution_lemma_power :
    let power : Expr ℝ := .binary .pow (.symbol "x") (.symbol "n")
    let moved : Expr ℝ := .binary .add (.symbol "x") (.symbol "h")
    power.dependsOn "h" = false ∧ power.substitute "h" moved = power ∧
      (power.substitute "x" moved).symbols = ["h", "n", "x"] ∧
      ((power.substitute "n" (.const 2)).map id).HasValue .real (fun _ => some (-3))
        (Scalar.pow (-3) 2) := by
  intro power moved
  have hfree : power.dependsOn "h" = false := rfl
  obtain ⟨-, -, hself, -⟩ := substitution_lemma power moved "h"
  obtain ⟨-, -, -, hvalues⟩ := substitution_lemma power (.const 2) "n"
  obtain ⟨-, hdefined⟩ := hvalues id fun _ => some (-3)
  obtain ⟨value, hvalue, hiff⟩ := hdefined .real
  refine ⟨hfree, hself hfree, rfl, (hiff _).2 ?_⟩
  rw [(hvalue 2).1 .const]
  exact .pow (.symbol rfl) (.symbol rfl) (.inr (.inr ⟨2, by norm_num, by norm_num⟩))

end Expr

end SurfaceGeometry
