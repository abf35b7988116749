import SurfaceGeometry.Proofs.Bytecode.Names
import SurfaceGeometry.Proofs.Traversal

/-!
# When a tree does not compile

A tree is compiled unless a parameter is named like a constant, a symbol is resolved to nothing, or
a call is one that no table has. `Scope.Rejects` says which parts of a tree are at fault and how the
failure names them, without the order in which the compiler visits them: that order is the order of
`Expr.preorder`, although a call is looked up before its arguments are compiled and a literal
exponent is not compiled at all (`Expr.compile_failsAs`). The two together are
`CompiledFunction.ofExpr_eq_error_iff`.
-/

namespace SurfaceGeometry

variable {α : Type}

/-! ## Calls that no table has -/

namespace Arities

/-- The numbers of arguments that are listed. -/
def Lists : Arities → Nat → Prop
  | one, count => count = 1
  | two, count => count = 2
  | oneOrTwo, count => count = 1 ∨ count = 2

/-- Different arities list different numbers. -/
theorem eq_of_lists {arities arities' : Arities}
    (h : ∀ count, arities.Lists count ↔ arities'.Lists count) : arities = arities' := by
  have hone := h 1
  have htwo := h 2
  cases arities <;> cases arities' <;> simp_all [Lists]

/-- The arities that a table has for a name list the numbers of arguments with which it can be
called. -/
theorem lists_of_ofName? {name : String} {arities : Arities} (h : ofName? name = some arities)
    (count : Nat) : arities.Lists count ↔ Callable name count := by
  unfold ofName? at h
  unfold Callable
  split at h <;> cases h <;> simp_all [Lists]

/-- A name that is in no table cannot be called, whatever it is called with. -/
theorem not_callable_of_ofName? {name : String} (h : ofName? name = none) (count : Nat) :
    ¬Callable name count := by
  unfold ofName? at h
  unfold Callable
  split at h <;> simp_all

end Arities

/-! ## Parts at fault -/

variable [Scalar α]

/-- The part of a tree has no code of its own, and this is how the failure names it. -/
inductive Scope.Rejects (scope : Scope) : Expr α → ExprError α → Prop where
  /-- A symbol that is no variable, parameter or named constant. -/
  | symbol {name} (hvar : name ∉ scope.vars) (hparam : name ∉ scope.parameters)
      (hnamed : (Scalar.named? name : Option α) = none) :
      Rejects scope (.symbol name) (.unresolvedSymbol name)
  /-- A call of a name that can be called, but not with this number of arguments. -/
  | arity {name args arities} (refused : ¬Callable name args.length)
      (known : ∀ count, arities.Lists count ↔ Callable name count) :
      Rejects scope (.call name args) (.arity name arities args.length)
  /-- A call of a name that cannot be called at all. -/
  | unknown {name args} (unknown : ∀ count, ¬Callable name count) :
      Rejects scope (.call name args) (.unknownFunction name)

variable {scope : Scope} {name : String} {args : List (Expr α)} {error : ExprError α}

/-- A name is resolved to nothing if it is no variable, no parameter and no named constant: these
are the three lists that are looked through, in this order. -/
theorem Scope.resolve?_eq_none : (scope.resolve? name : Option (Instruction α)) = none ↔
    name ∉ scope.vars ∧ name ∉ scope.parameters ∧ (Scalar.named? name : Option α) = none := by
  rw [← lastIndexOf?_eq_none, ← lastIndexOf?_eq_none]
  unfold resolve?
  cases lastIndexOf? name scope.vars with
  | some i => simp
  | none =>
    cases lastIndexOf? name scope.parameters with
    | some i => simp
    | none => simp

namespace Scope.Rejects

/-- A call is rejected for its name and the number of its arguments, with one failure. -/
theorem ofCall (h : ¬Callable name args.length) :
    scope.Rejects (.call name args) (.ofCall name args.length) := by
  unfold ExprError.ofCall
  split
  · next arities hname => exact .arity h (Arities.lists_of_ofName? hname)
  · next hname => exact .unknown (Arities.not_callable_of_ofName? hname)

/-- A rejected call fails as its name and its number of arguments say, which is all that
`ExprError.ofCall` is given. -/
theorem eq_ofCall (h : scope.Rejects (.call name args) error) :
    error = .ofCall name args.length := by
  unfold ExprError.ofCall
  cases h with
  | @arity _ _ arities refused known =>
    cases hname : Arities.ofName? name with
    | some arities' =>
      have hsame : arities = arities' := Arities.eq_of_lists fun count =>
        (known count).trans (Arities.lists_of_ofName? hname count).symm
      rw [hsame]
    | none =>
      have hlisted : arities.Lists 1 ∨ arities.Lists 2 := by cases arities <;> simp [Arities.Lists]
      rcases hlisted with h | h
      · exact absurd ((known 1).1 h) (Arities.not_callable_of_ofName? hname 1)
      · exact absurd ((known 2).1 h) (Arities.not_callable_of_ofName? hname 2)
  | unknown unknown =>
    cases hname : Arities.ofName? name with
    | some arities =>
      have hlisted : arities.Lists 1 ∨ arities.Lists 2 := by cases arities <;> simp [Arities.Lists]
      rcases hlisted with h | h
      · exact absurd ((Arities.lists_of_ofName? hname 1).1 h) (unknown 1)
      · exact absurd ((Arities.lists_of_ofName? hname 2).1 h) (unknown 2)
    | none => rfl

/-- A rejected call is one that no table has. With `eq_ofCall` this is the converse of what `ofCall`
says of calls that cannot be made. -/
theorem refused (h : scope.Rejects (.call name args) error) : ¬Callable name args.length := by
  cases h with
  | arity refused _ => exact refused
  | unknown unknown => exact unknown _

end Scope.Rejects

/-! ## The compiler -/

namespace Expr

/-- A call that no table has fails before its arguments are looked at. -/
theorem compile_call_of_not_callable (scope : Scope) (h : ¬Callable name args.length) :
    (call name args).compile scope = .error (.ofCall name args.length) := by
  match args, h with
  | [], _ => rfl
  | [arg], h =>
    have hname : UnaryFunction.ofName? name = none := by
      simpa using fun hsome => h (.inl ⟨rfl, hsome⟩)
    rw [compile, hname]
    rfl
  | [first, second], h =>
    have hname : BinaryFunction.ofName? name = none := by
      simpa using fun hsome => h (.inr ⟨rfl, hsome⟩)
    rw [compile, hname]
    rfl
  | _ :: _ :: _ :: _, _ => rfl

/-- A tree is compiled along its parts. -/
theorem compile_failsAs (scope : Scope) (e : Expr α) :
    Outcome.FailsAs scope.Rejects e.preorder (e.compile scope) := by
  induction e with
  | const value => exact .cons (fun _ h => by cases h) (.ok_nil _)
  | symbol name =>
    rw [compile, preorder]
    split
    · next load hload =>
      refine .cons (fun error h => ?_) (.ok_nil _)
      cases h with
      | symbol hvar hparam hnamed =>
        rw [Scope.resolve?_eq_none.2 ⟨hvar, hparam, hnamed⟩] at hload
        cases hload
    · next hload =>
      obtain ⟨hvar, hparam, hnamed⟩ := Scope.resolve?_eq_none.1 hload
      refine .error (.symbol hvar hparam hnamed) fun error h => ?_
      cases h
      rfl
  | unary op operand ih => exact .cons (fun _ h => by cases h) (ih.map _)
  | binary op left right ihl ihr =>
    refine .cons (fun _ h => by cases h) ?_
    by_cases hop : op = .pow
    · subst hop
      refine ihl.bind fun codel => ?_
      cases hn : wholeExponent? right with
      | some n =>
        -- The exponent is not compiled, and as a constant it could not fail.
        obtain ⟨c, rfl⟩ := exists_const_of_wholeExponent? hn
        exact .cons (fun _ h => by cases h) (.ok_nil _)
      | none => exact ihr.map _
    · rw [compile]
      · exact ihl.bind fun codel => ihr.map _
      · exact hop
  | call name args ih =>
    by_cases hname : Callable name args.length
    · refine .cons (fun error h => h.refused hname) ?_
      rcases hname with ⟨hlength, hsome⟩ | ⟨hlength, hsome⟩
      · obtain ⟨arg, rfl⟩ := List.length_eq_one_iff.1 hlength
        obtain ⟨f, hf⟩ := Option.isSome_iff_exists.1 hsome
        rw [compile, hf, preorderAll_eq, List.flatMap_singleton]
        exact (ih arg (by simp)).map _
      · obtain ⟨first, second, rfl⟩ := List.length_eq_two.1 hlength
        obtain ⟨f, hf⟩ := Option.isSome_iff_exists.1 hsome
        have harg := (ih first (by simp)).bind fun codel => (ih second (by simp)).map
          fun coder => codel ++ coder ++ [Instruction.call2 f]
        rw [compile, hf]
        simpa [preorderAll] using harg
    · rw [compile_call_of_not_callable scope hname]
      exact .error (.ofCall hname) fun error h => h.eq_ofCall

end Expr

/-! ## Compiled functions -/

/-- The name is that of a constant, and no parameter may have it. -/
def Reserved (name : String) (error : ExprError α) : Prop :=
  (Scalar.named? name : Option α).isSome = true ∧ error = .reservedName name

/-- The first parameter with the name of a constant is at fault. -/
theorem find?_failsAs (names : List String) :
    Outcome.FailsAs (@Reserved α _) names
      (match names.find? fun name => (Scalar.named? name : Option α).isSome with
        | some name => .error (.reservedName name)
        | none => .ok ()) := by
  induction names with
  | nil => exact .ok_nil _
  | cons name names ih =>
    cases hname : (Scalar.named? name : Option α).isSome with
    | true =>
      rw [List.find?_cons_of_pos (by simpa using hname)]
      exact .error ⟨hname, rfl⟩ fun error h => h.2
    | false =>
      rw [List.find?_cons_of_neg (by simp [hname])]
      refine .cons (fun error h => ?_) ih
      rw [Reserved, hname] at h
      cases h.1

/-- A parameter is rejected just if its name is the name of a constant. -/
theorem exists_reserved_iff : (∃ error, @Reserved α _ name error) ↔
    (Scalar.named? name : Option α).isSome = true := by
  simp [Reserved]

/-- A tree has a part at fault if one of its symbols stands for nothing or one of its calls is in no
table. This says it without the failures and without the order of the parts. -/
theorem exists_rejects_iff {e : Expr α} :
    (∃ part ∈ e.preorder, ∃ error, scope.Rejects part error) ↔
      (∃ name ∈ e.symbols, name ∉ scope.vars ∧ name ∉ scope.parameters ∧
        (Scalar.named? name : Option α) = none) ∨
      ∃ name args, .call name args ∈ e.preorder ∧ ¬Callable name args.length := by
  constructor
  · rintro ⟨part, hpart, error, h⟩
    cases h with
    | @symbol name hvar hparam hnamed =>
      have hname : name ∈ e.symbols := Expr.mem_symbols.2 (Expr.symbol_mem_preorder.1 hpart)
      exact .inl ⟨name, hname, hvar, hparam, hnamed⟩
    | @arity name args _ refused _ => exact .inr ⟨name, args, hpart, refused⟩
    | @unknown name args unknown => exact .inr ⟨name, args, hpart, unknown _⟩
  · rintro (⟨name, hname, hvar, hparam, hnamed⟩ | ⟨name, args, hpart, hcall⟩)
    · exact ⟨.symbol name, Expr.symbol_mem_preorder.2 (Expr.mem_symbols.1 hname), _,
        .symbol hvar hparam hnamed⟩
    · exact ⟨.call name args, hpart, _, .ofCall hcall⟩

namespace CompiledFunction

/-- A tree fails to compile if a parameter is named like a constant, a symbol is no variable,
parameter or named constant, or a call is one that no table has, and for no other reason. The
failure is that of the first parameter, in the order of insertion, that is named like a constant,
and without one that of the first part of the tree, in the order from left to right, that is at
fault. -/
theorem ofExpr_eq_error_iff (e : Expr α) (vars : List String) (p : Parameters α) :
    (∀ error, ofExpr e vars p = .error error ↔
      FirstFault Reserved p.names error ∨
        p.Unreserved ∧ FirstFault (Scope.Rejects ⟨vars, p.names⟩) e.preorder error) ∧
    ((∃ error, ofExpr e vars p = .error error) ↔
      (∃ name ∈ p.names, (Scalar.named? name : Option α).isSome = true) ∨
      (∃ name ∈ e.symbols,
        name ∉ vars ∧ name ∉ p.names ∧ (Scalar.named? name : Option α) = none) ∨
      ∃ name args, .call name args ∈ e.preorder ∧ ¬Callable name args.length) := by
  have hsplit : ofExpr e vars p =
      (match p.names.find? fun name => (Scalar.named? name : Option α).isSome with
        | some name => .error (.reservedName name)
        | none => .ok ()) >>= fun _ => e.compile ⟨vars, p.names⟩ >>= fun code =>
          .ok ⟨code, vars.length⟩ := by
    unfold ofExpr
    cases p.names.find? fun name => (Scalar.named? name : Option α).isSome <;> rfl
  have hunreserved : (∀ name ∈ p.names, ∀ error, ¬@Reserved α _ name error) ↔ p.Unreserved := by
    refine forall₂_congr fun name _ => ?_
    rw [← not_exists, exists_reserved_iff, Bool.not_eq_true, Option.isSome_eq_false_iff,
      Option.isNone_iff_eq_none]
  have herror : ∀ error, ofExpr e vars p = .error error ↔
      FirstFault Reserved p.names error ∨
        p.Unreserved ∧ FirstFault (Scope.Rejects ⟨vars, p.names⟩) e.preorder error := by
    intro error
    rw [hsplit, (find?_failsAs p.names).bind_eq_error_iff fun _ =>
      (e.compile_failsAs ⟨vars, p.names⟩).map _, hunreserved]
  refine ⟨herror, ?_⟩
  have hreserved : (∃ error, FirstFault (@Reserved α _) p.names error) ↔
      ∃ name ∈ p.names, (Scalar.named? name : Option α).isSome = true :=
    exists_firstFault_iff.trans
      (exists_congr fun _ => and_congr_right fun _ => exists_reserved_iff)
  have hrejected := exists_firstFault_iff.trans (@exists_rejects_iff α _ ⟨vars, p.names⟩ e)
  simp only [herror, exists_or, exists_and_left, hreserved, hrejected]
  -- Where a parameter is reserved, nothing is said of the tree.
  by_cases hp : p.Unreserved
  · simp only [hp, true_and]
  · have hname : ∃ name ∈ p.names, (Scalar.named? name : Option α).isSome = true := by
      rw [← hunreserved] at hp
      simpa only [not_forall, not_not, exists_reserved_iff, exists_prop] using hp
    simp only [hname, true_or]

end CompiledFunction

end SurfaceGeometry
