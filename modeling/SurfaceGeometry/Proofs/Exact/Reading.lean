import Mathlib
import SurfaceGeometry.Proofs.Bytecode.Simulation
import SurfaceGeometry.Proofs.Exact.Arithmetic

/-!
# Trees and code read exactly

A tree of doubles is read exactly by putting the number that a double is in the place of every
constant (`Expr.map`), and so is its code. The code of a tree read exactly is the code of the tree,
read exactly (`Expr.compile_exact`): which powers are computed by repeated squaring, and what the
named constants are, does not change. So what a compiled function computes in exact arithmetic is
the value of its tree (`CompiledFunction.call_exact`).
-/

namespace SurfaceGeometry

/-! ## Other constants -/

namespace Expr

variable {α β : Type}

mutual

/-- The tree with other constants. -/
def map (f : α → β) : Expr α → Expr β
  | const value => const (f value)
  | symbol name => symbol name
  | unary op operand => unary op (operand.map f)
  | binary op left right => binary op (left.map f) (right.map f)
  | call name args => call name (mapAll f args)

/-- The trees of a list with other constants. -/
def mapAll (f : α → β) : List (Expr α) → List (Expr β)
  | [] => []
  | arg :: args => arg.map f :: mapAll f args

end

/-- Constants are replaced argument by argument. -/
theorem mapAll_eq (f : α → β) (args : List (Expr α)) : mapAll f args = args.map (map f) := by
  induction args with
  | nil => rfl
  | cons arg args ih => rw [mapAll, ih, List.map_cons]

end Expr

/-- The instruction with another constant. -/
def Instruction.map {α β : Type} (f : α → β) : Instruction α → Instruction β
  | const value => const (f value)
  | argument index => argument index
  | parameter index => parameter index
  | unary op => unary op
  | binary op => binary op
  | powInt exponent => powInt exponent
  | call1 function => call1 function
  | call2 function => call2 function

/-- The function with other constants in its code. -/
def CompiledFunction.map {α β : Type} (f : α → β) (compiled : CompiledFunction α) :
    CompiledFunction β :=
  ⟨compiled.code.map (Instruction.map f), compiled.arity⟩

/-! ## Exact constants -/

variable (K : Type) [Field K] [LinearOrder K] [ElementaryFunctions K]

/-- The named constants are what the doubles of the library are. -/
theorem named?_exact (name : String) :
    (Scalar.named? name : Option K) = (Scalar.named? name : Option Float).map (Double.exact K) := by
  unfold Scalar.named?
  split <;> rfl

variable {scope : Scope}

/-- Names are resolved alike in doubles and in exact arithmetic; only a named constant becomes the
number that its double is. -/
theorem Scope.resolve?_exact (name : String) : (scope.resolve? name : Option (Instruction K)) =
    (scope.resolve? name : Option (Instruction Float)).map (Instruction.map (Double.exact K)) := by
  unfold Scope.resolve?
  rw [named?_exact]
  split
  · rfl
  · split
    · rfl
    · simp [Instruction.map, Function.comp_def]

namespace Expr

variable [IsStrictOrderedRing K]

/-- The exponents that powers are computed with by repeated squaring are the same. -/
theorem wholeExponent?_exact (exponent : Expr Float) :
    wholeExponent? (exponent.map (Double.exact K)) = wholeExponent? exponent := by
  cases exponent with
  | const x =>
    have hiff : ∀ n : Int, n.natAbs ≤ 64 →
        (Scalar.toInt? (Double.exact K x) = some n ↔ Scalar.toInt? x = some n) := by
      intro n hn
      have hexact : Scalar.toInt? (Double.exact K x) = some n ↔ Double.value x = n := by
        refine integer?_eq_some_iff.trans ?_
        unfold Double.exact
        exact_mod_cast Iff.rfl
      rw [hexact]
      cases hfinite : x.isFinite with
      | true => exact (Double.toInt?_eq_some_iff hfinite).symm
      | false =>
        have hnone : Scalar.toInt? x = none := by
          show Double.toInt? x = none
          rw [Double.toInt?, hfinite]
          rfl
        have hlarge := Double.abs_value_of_not_isFinite hfinite
        rw [hnone]
        refine iff_of_false (fun hvalue => ?_) (by simp)
        rw [hvalue] at hlarge
        have hlarge' : 64 < |n| := by exact_mod_cast hlarge
        rw [Int.abs_eq_natAbs] at hlarge'
        omega
    unfold wholeExponent?
    show (Scalar.toInt? (Double.exact K x)).filter _ = (Scalar.toInt? x).filter _
    ext n
    rw [Option.filter_eq_some_iff, Option.filter_eq_some_iff, decide_eq_true_eq]
    exact and_congr_left (hiff n)
  | symbol | unary | binary | call => rfl

/-- The code of a tree that is read exactly. -/
theorem compile_exact {e : Expr Float} {code : Bytecode Float} (h : e.compile scope = .ok code) :
    (e.map (Double.exact K)).compile scope = .ok (code.map (Instruction.map (Double.exact K))) := by
  induction e generalizing code with
  | const value =>
    cases h
    rfl
  | symbol name =>
    rw [compile] at h
    split at h
    · next load hload =>
      cases h
      rw [map, compile, Scope.resolve?_exact, hload]
      rfl
    · cases h
  | unary op operand ih =>
    obtain ⟨inner, hinner, h⟩ := Outcome.bind_eq_ok.1 h
    cases h
    rw [map, compile, ih hinner]
    simp [Instruction.map]
  | binary op left right ihleft ihright =>
    by_cases hop : op = .pow
    · subst hop
      obtain ⟨codel, hl, hright⟩ := compile_pow_eq_ok h
      rw [map, compile, ihleft hl, wholeExponent?_exact]
      obtain ⟨n, hn, rfl⟩ | ⟨hn, coder, hr, rfl⟩ := hright
      · rw [hn]
        simp [Instruction.map]
      · rw [hn, ihright hr]
        simp [Instruction.map]
    · obtain ⟨codel, coder, hl, hr, rfl⟩ := compile_binary_eq_ok hop h
      rw [map, compile]
      · rw [ihleft hl, ihright hr]
        simp [Instruction.map]
      · exact hop
  | call name args ih =>
    obtain ⟨arg, f, inner, rfl, hf, harg, rfl⟩ |
      ⟨first, second, f, codel, coder, rfl, hf, hl, hr, rfl⟩ := compile_call_eq_ok h
    · have harg' := ih arg (by simp) harg
      simp [map, mapAll, compile, hf, harg', Instruction.map]
    · have hl' := ih first (by simp) hl
      have hr' := ih second (by simp) hr
      simp [map, mapAll, compile, hf, hl', hr', Instruction.map]

end Expr

/-- In exact arithmetic a compiled function gives the value of its tree. -/
theorem CompiledFunction.call_exact [IsStrictOrderedRing K] {e : Expr Float} {vars : List String}
    {p : Parameters Float} {f : CompiledFunction Float} (hf : ofExpr e vars p = .ok f)
    {args params : List K} (hargs : args.length = vars.length)
    (hparams : params.length = p.names.length) :
    (e.map (Double.exact K)).value? (Scope.lookup ⟨vars, p.names⟩ args params) =
      some ((f.map (Double.exact K)).call params args) := by
  obtain ⟨hcode, harity⟩ := ofExpr_eq_ok hf
  obtain ⟨value, hvalue, hpush⟩ := Expr.pushes_compile
    (fun name load h => Scope.step?_lookup hargs hparams.ge h) (Expr.compile_exact K hcode)
  have hcall : (f.map (Double.exact K)).call params args = value := by
    have hlength : args.length = (f.map (Double.exact K)).arity := hargs.trans harity.symm
    rw [call, callOn, if_pos hlength]
    exact congrArg Prod.fst (executeOn_of_pushes hpush [])
  rw [hvalue, hcall]

end SurfaceGeometry
