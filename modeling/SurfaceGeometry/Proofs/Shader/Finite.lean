import SurfaceGeometry.Proofs.Shader.Coverage

/-!
# Trees of finite numbers

Of a tree that compiles nothing but a constant that is not finite stands in the way of its text
(`Expr.exists_shader_iff_finiteConstants`), so what is to be known of a tree that is made of others
is whether its constants are finite (`Expr.FiniteConstants`). The lemmas say this part by part.
-/

namespace SurfaceGeometry

namespace Expr

variable {α : Type} {u v : Expr α} {c : α} {name : String}

/-- The constants of a list of trees are those of its trees. -/
theorem literalsAll_eq (args : List (Expr α)) : literalsAll args = args.flatMap literals := by
  induction args with
  | nil => rfl
  | cons arg args ih => simp [literalsAll, ih]

/-- The constants of a call have a property just if those of its arguments have it. -/
theorem forall_literals_args {property : α → Prop} {args : List (Expr α)} :
    (∀ c ∈ (call name args).literals, property c) ↔
      ∀ arg ∈ args, ∀ c ∈ arg.literals, property c := by
  simp only [literals, literalsAll_eq, List.mem_flatMap]
  constructor
  · intro h arg harg c hc
    exact h c ⟨arg, harg, hc⟩
  · rintro h c ⟨arg, harg, hc⟩
    exact h arg harg c hc

variable [Scalar α]

/-- All constants of the tree are finite. -/
def FiniteConstants (e : Expr α) : Prop :=
  ∀ c ∈ e.literals, Scalar.isFinite c = true

@[simp] theorem finiteConstants_const :
    (const c).FiniteConstants ↔ Scalar.isFinite c = true := by
  simp [FiniteConstants, literals]

@[simp] theorem finiteConstants_symbol : (symbol name : Expr α).FiniteConstants := by
  simp [FiniteConstants, literals]

@[simp] theorem finiteConstants_unary {op : UnaryOp} :
    (unary op u).FiniteConstants ↔ u.FiniteConstants := Iff.rfl

@[simp] theorem finiteConstants_binary {op : BinaryOp} :
    (binary op u v).FiniteConstants ↔ u.FiniteConstants ∧ v.FiniteConstants :=
  forall_literals_binary

@[simp] theorem finiteConstants_call {args : List (Expr α)} :
    (call name args).FiniteConstants ↔ ∀ arg ∈ args, arg.FiniteConstants :=
  forall_literals_args

@[simp] theorem finiteConstants_add :
    (u + v).FiniteConstants ↔ u.FiniteConstants ∧ v.FiniteConstants :=
  finiteConstants_binary

@[simp] theorem finiteConstants_sub :
    (u - v).FiniteConstants ↔ u.FiniteConstants ∧ v.FiniteConstants :=
  finiteConstants_binary

@[simp] theorem finiteConstants_mul :
    (u * v).FiniteConstants ↔ u.FiniteConstants ∧ v.FiniteConstants :=
  finiteConstants_binary

@[simp] theorem finiteConstants_div :
    (u / v).FiniteConstants ↔ u.FiniteConstants ∧ v.FiniteConstants :=
  finiteConstants_binary

/-! ## Whole numbers -/

@[simp] theorem isFinite_zero : Scalar.isFinite (0 : Float) = true := rfl

@[simp] theorem isFinite_one : Scalar.isFinite (1 : Float) = true := rfl

@[simp] theorem isFinite_two : Scalar.isFinite (2 : Float) = true := rfl

/-! ## Texts -/

variable {e : Expr Float} {scope : Scope} {text : String}

/-- A tree that has a text compiles with its own symbols as variables. -/
theorem compiles_of_shader (h : e.shader = .ok text) : e.Compiles ⟨e.occurrences, []⟩ := by
  obtain ⟨t, ht, -⟩ := Outcome.map_eq_ok.1 h
  exact (Shader.translates_ofExpr ht).compiles fun name hname => Scope.exists_resolve? (.inl hname)

/-- A tree that has a text has finite constants only. -/
theorem finiteConstants_of_shader (h : e.shader = .ok text) : e.FiniteConstants := by
  obtain ⟨t, ht, -⟩ := Outcome.map_eq_ok.1 h
  exact (Shader.translates_ofExpr ht).isFinite

/-- A tree that compiles has a text if and only if all its constants are finite. -/
theorem exists_shader_iff_finiteConstants (h : e.Compiles scope) :
    (∃ text, e.shader = .ok text) ↔ e.FiniteConstants := by
  constructor
  · rintro ⟨text, htext⟩
    exact finiteConstants_of_shader htext
  · intro hfinite
    cases ht : Shader.Term.ofExpr e with
    | ok t => exact ⟨_, Outcome.map_eq_ok.2 ⟨t, ht, rfl⟩⟩
    | error error =>
      obtain ⟨c, hc, hinfinite, -⟩ := Shader.failsOnly_ofExpr h error ht
      rw [hfinite c hc] at hinfinite
      cases hinfinite

end Expr

end SurfaceGeometry
