import SurfaceGeometry.Proofs.Symbolic.DerivativeRules
import SurfaceGeometry.Proofs.Traversal

/-!
# When a tree has no derivative

`Expr.Undifferentiable` says of which parts of a tree there is no rule, with the failure that names
them: the logical operators, the greatest and the least of two values, and the calls that no table
has. A tree is differentiated unless one of them mentions the variable, and the failure is that of
the first one (`Expr.derivative_eq_error_iff`). What does not mention the variable is never looked
at, in which respect the differentiator differs from the order of `Expr.preorder`; but nothing there
could fail.
-/

namespace SurfaceGeometry

namespace Expr

variable {α : Type}

/-- There is no rule for the tree itself, whatever its parts are, and this is how the failure names
it. -/
inductive Undifferentiable : Expr α → ExprError α → Prop where
  | not (u : Expr α) : Undifferentiable (.unary .not u) (.notDifferentiable (.logical "not"))
  | logical {op : BinaryOp} (hop : op = .and ∨ op = .or) (u v : Expr α) :
      Undifferentiable (.binary op u v) (.notDifferentiable (.logical op.symbol))
  | extremum {name : String} (hname : name = "max" ∨ name = "min") (a b : Expr α) :
      Undifferentiable (.call name [a, b]) (.notDifferentiable (.extremum name))
  /-- A call with one or two arguments of a name that is not in the table. -/
  | unknown {name : String} {args : List (Expr α)} (hcount : args.length = 1 ∨ args.length = 2)
      (hname : ¬Callable name args.length) :
      Undifferentiable (.call name args) (.unknownFunction name)
  /-- A call with another number of arguments, for which there is no table. -/
  | count {name : String} {args : List (Expr α)} (hcount : ¬(args.length = 1 ∨ args.length = 2)) :
      Undifferentiable (.call name args) (.notDifferentiable (.callWith name args.length))

/-- A part of a tree stands in the way of the derivative: it mentions the variable. -/
def Breaks (var : String) (part : Expr α) (error : ExprError α) : Prop :=
  part.dependsOn var = true ∧ part.Undifferentiable error

/-- The functions without a derivative, by name. -/
theorem extremum_of_ofName? {name : String}
    (h : BinaryFunction.ofName? name = some .max ∨ BinaryFunction.ofName? name = some .min) :
    name = "max" ∨ name = "min" := by
  unfold BinaryFunction.ofName? at h
  split at h <;> simp_all

/-- Without a derivative, the maximum and the minimum still are functions of two arguments that
there are. -/
theorem callable_extremum {name : String} (h : name = "max" ∨ name = "min") : Callable name 2 := by
  rcases h with rfl | rfl <;> exact .inr ⟨rfl, rfl⟩

/-- A tree has one such failure. -/
theorem Undifferentiable.unique {e : Expr α} {error error' : ExprError α}
    (h : e.Undifferentiable error) (h' : e.Undifferentiable error') : error = error' := by
  cases h with
  | not => cases h'; rfl
  | logical => cases h'; rfl
  | extremum hname =>
    cases h' with
    | extremum => rfl
    | unknown _ habsent => exact absurd (callable_extremum hname) habsent
    | count hcount => exact absurd (.inr rfl) hcount
  | unknown hcount habsent =>
    cases h' with
    | extremum hname => exact absurd (callable_extremum hname) habsent
    | unknown => rfl
    | count hcount' => exact absurd hcount hcount'
  | count hcount =>
    cases h' with
    | extremum => exact absurd (.inr rfl) hcount
    | unknown hcount' => exact absurd hcount' hcount
    | count => rfl

/-- The trees without a rule. -/
theorem exists_undifferentiable_iff {e : Expr α} : (∃ error, e.Undifferentiable error) ↔
    (∃ u, e = .unary .not u) ∨ (∃ u v, e = .binary .and u v ∨ e = .binary .or u v) ∨
      (∃ a b, e = .call "max" [a, b] ∨ e = .call "min" [a, b]) ∨
      ∃ name args, e = .call name args ∧ ¬Callable name args.length := by
  constructor
  · rintro ⟨error, h⟩
    cases h with
    | not u => exact .inl ⟨u, rfl⟩
    | logical hop u v => exact .inr (.inl ⟨u, v, by rcases hop with rfl | rfl <;> simp⟩)
    | extremum hname a b =>
      exact .inr (.inr (.inl ⟨a, b, by rcases hname with rfl | rfl <;> simp⟩))
    | @unknown name args _ habsent => exact .inr (.inr (.inr ⟨name, args, rfl, habsent⟩))
    | @count name args hcount =>
      refine .inr (.inr (.inr ⟨name, args, rfl, fun hcallable => hcount ?_⟩))
      exact hcallable.imp And.left And.left
  · rintro (⟨u, rfl⟩ | ⟨u, v, rfl | rfl⟩ | ⟨a, b, rfl | rfl⟩ | ⟨name, args, rfl, habsent⟩)
    · exact ⟨_, .not u⟩
    · exact ⟨_, .logical (.inl rfl) u v⟩
    · exact ⟨_, .logical (.inr rfl) u v⟩
    · exact ⟨_, .extremum (.inl rfl) a b⟩
    · exact ⟨_, .extremum (.inr rfl) a b⟩
    · by_cases hcount : args.length = 1 ∨ args.length = 2
      · exact ⟨_, .unknown hcount habsent⟩
      · exact ⟨_, .count hcount⟩

/-! ## One node -/

section
variable {var : String} {name : String} {e : Expr α} {error : ExprError α}
open Outcome (FailsAs)

/-- Nothing breaks in a tree that does not mention the variable. -/
theorem not_breaks_of_not_dependsOn (h : e.dependsOn var = false) :
    ∀ part ∈ e.preorder, ∀ error, ¬Breaks var part error := by
  rintro part hpart error ⟨hmentions, -⟩
  rw [dependsOn_of_mem_preorder hpart hmentions] at h
  cases h

/-- A tree without a rule fails at once. -/
theorem failsAs_error (parts : List (Expr α)) (hmentions : e.dependsOn var = true)
    (h : e.Undifferentiable error) :
    FailsAs (Breaks var) (e :: parts) (.error error : Except (ExprError α) (Expr α)) :=
  .error ⟨hmentions, h⟩ fun _ h' => h'.2.unique h

variable [Scalar α]

/-- A tree without the variable has a derivative, and none of its parts breaks it. -/
theorem failsAs_of_not_dependsOn (h : e.dependsOn var = false) :
    FailsAs (Breaks var) e.preorder (e.derivative var) := by
  rw [derivative_of_not_dependsOn h]
  exact .ok (not_breaks_of_not_dependsOn h) _

/-- An operation fails as its operands do, one after the other. At the root nothing can be at fault.
-/
theorem binary_failsAs {op : BinaryOp} {u v : Expr α}
    (ihu : FailsAs (Breaks var) u.preorder (u.derivative var))
    (ihv : FailsAs (Breaks var) v.preorder (v.derivative var)) :
    FailsAs (Breaks var) (binary op u v).preorder ((binary op u v).derivative var) := by
  cases hdep : (binary op u v).dependsOn var with
  | false => exact failsAs_of_not_dependsOn hdep
  | true =>
    unfold derivative
    rw [if_pos hdep, preorder]
    by_cases hop : op = .and ∨ op = .or
    · have hfails := failsAs_error (u.preorder ++ v.preorder) hdep (.logical hop u v)
      rcases hop with rfl | rfl
      · exact hfails
      · exact hfails
    · refine .cons (fun error h => ?_) ?_
      · cases h.2
        contradiction
      · cases op with
        | add | sub | mul | div => exact ihu.bind fun du => ihv.map _
        | pow =>
          dsimp only
          split
          · next hfree =>
            have hv := @not_breaks_of_not_dependsOn α var v (by simpa using hfree)
            exact ihu.bind fun du => .ok hv _
          · split
            · next hfree =>
              have hu := @not_breaks_of_not_dependsOn α var u (by simpa using hfree)
              exact (FailsAs.ok hu ()).bind fun _ => ihv.map _
            · exact ihu.bind fun du => ihv.map _
        | and | or => simp at hop

/-- An operation on one tree fails as that tree does. -/
theorem unary_failsAs {op : UnaryOp} {u : Expr α}
    (ih : FailsAs (Breaks var) u.preorder (u.derivative var)) :
    FailsAs (Breaks var) (unary op u).preorder ((unary op u).derivative var) := by
  cases hdep : (unary op u).dependsOn var with
  | false => exact failsAs_of_not_dependsOn hdep
  | true =>
    unfold derivative
    rw [if_pos hdep, preorder]
    cases op with
    | neg => exact .cons (fun _ h => by cases h.2) (ih.map _)
    | not => exact failsAs_error _ hdep (.not u)

/-- A call is at fault itself if the function is unknown, has another number of arguments or has no
derivative. If it is none of these, it fails as its arguments do. -/
theorem call_failsAs {args : List (Expr α)}
    (ih : ∀ arg ∈ args, FailsAs (Breaks var) arg.preorder (arg.derivative var)) :
    FailsAs (Breaks var) (call name args).preorder ((call name args).derivative var) := by
  cases hdep : (call name args).dependsOn var with
  | false => exact failsAs_of_not_dependsOn hdep
  | true =>
    unfold derivative
    rcases args with _ | ⟨u, _ | ⟨v, _ | ⟨w, args⟩⟩⟩
    · simp only [if_pos hdep]
      exact failsAs_error _ hdep (.count (by simp))
    · simp only [preorder, preorderAll, List.append_nil, if_pos hdep]
      cases hf : UnaryFunction.ofName? name with
      | none => exact failsAs_error _ hdep (.unknown (.inl rfl) (by simp [Callable, hf]))
      | some f =>
        refine .cons (fun error h => ?_) ((ih u (by simp)).map _)
        cases h.2 with
        | unknown _ habsent => exact habsent (.inl ⟨rfl, by rw [hf]; rfl⟩)
        | count hcount => exact hcount (.inl rfl)
    · simp only [preorder, preorderAll, List.append_nil, if_pos hdep]
      cases hf : BinaryFunction.ofName? name with
      | none => exact failsAs_error _ hdep (.unknown (.inr rfl) (by simp [Callable, hf]))
      | some f =>
        cases f with
        | atan2 | log =>
          refine .cons (fun error h => ?_) ((ih u (by simp)).bind fun du => (ih v (by simp)).map _)
          cases h.2 with
          | extremum hname => rcases hname with rfl | rfl <;> cases hf
          | unknown _ habsent => exact habsent (.inr ⟨rfl, by rw [hf]; rfl⟩)
          | count hcount => exact hcount (.inr rfl)
        | max | min =>
          exact failsAs_error _ hdep (.extremum (extremum_of_ofName? (by simp [hf])) u v)
    · simp only [if_pos hdep]
      exact failsAs_error _ hdep (.count (by simp))

end

/-! ## Whole trees -/

/-- A derivative fails if some part of the tree for which there is no rule mentions the variable,
and for no other reason. The failure is that of the first such part in the order from left to right.
-/
theorem derivative_eq_error_iff [Scalar α] (var : String) (e : Expr α) :
    (∀ error, e.derivative var = .error error ↔ FirstFault (Breaks var) e.preorder error) ∧
    ((∃ error, e.derivative var = .error error) ↔
      ∃ part ∈ e.preorder, part.dependsOn var = true ∧
        ((∃ u, part = .unary .not u) ∨ (∃ u v, part = .binary .and u v ∨ part = .binary .or u v) ∨
          (∃ a b, part = .call "max" [a, b] ∨ part = .call "min" [a, b]) ∨
          ∃ name args, part = .call name args ∧ ¬Callable name args.length)) := by
  have hfails : Outcome.FailsAs (Breaks var) e.preorder (e.derivative var) := by
    induction e with
    | const value => exact failsAs_of_not_dependsOn rfl
    | symbol name => exact .cons (fun _ h => by cases h.2) (.ok_nil _)
    | unary op u ih => exact unary_failsAs ih
    | binary op u v ihu ihv => exact binary_failsAs ihu ihv
    | call name args ih => exact call_failsAs ih
  refine ⟨hfails, hfails.exists_error_iff.trans ?_⟩
  refine exists_congr fun part => and_congr_right fun _ => ?_
  rw [← exists_undifferentiable_iff]
  exact exists_and_left

end Expr

end SurfaceGeometry
