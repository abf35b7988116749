import SurfaceGeometry.Proofs.Bytecode.Substitution
import SurfaceGeometry.Proofs.Exact.Arithmetic
import SurfaceGeometry.Proofs.Shader.Translation
import SurfaceGeometry.Proofs.Symbolic.Quantity

/-!
# Which trees have a text

The compiler and the translation into a shader have their tables of functions apart from each other,
and a power is translated by more cases than it is compiled by. They accept the same trees all the
same, but for the constants: a tree whose symbols are resolved has a text if and only if it compiles
and all its constants are finite (`Expr.exists_shader_iff`), and for a tree that compiles a constant
that is not finite is the only reason to have none.

A tree that has a text compiles because each rule of `Shader.Translates` has its counterpart in
`Expr.Compiles` (`Shader.Translates.compiles`). The other way round a translation can only fail
where it meets a number (`Shader.failsOnly_ofExpr`).
-/

namespace SurfaceGeometry

namespace Expr

variable {α : Type} [Scalar α] {scope : Scope} {left right : Expr α}

/-! ## Trees that compile -/

namespace Compiles

/-- A constant compiles. -/
theorem const (c : α) : (Expr.const c).Compiles scope := ⟨_, rfl⟩

/-- Where a prefix operator compiles, its operand does. -/
theorem of_unary {op : UnaryOp} (h : (Expr.unary op left).Compiles scope) :
    left.Compiles scope := by
  obtain ⟨code, h⟩ := h
  obtain ⟨inner, hinner, -⟩ := Outcome.bind_eq_ok.1 h
  exact ⟨inner, hinner⟩

/-- Both operands compile, also an exponent that is left out. -/
theorem of_binary {op : BinaryOp} (h : (Expr.binary op left right).Compiles scope) :
    left.Compiles scope ∧ right.Compiles scope := by
  obtain ⟨code, h⟩ := h
  by_cases hop : op = .pow
  · subst hop
    obtain ⟨codel, hl, ⟨n, hn, -⟩ | ⟨-, coder, hr, -⟩⟩ := compile_pow_eq_ok h
    · obtain ⟨c, rfl⟩ := exists_const_of_wholeExponent? hn
      exact ⟨⟨codel, hl⟩, .const c⟩
    · exact ⟨⟨codel, hl⟩, ⟨coder, hr⟩⟩
  · obtain ⟨codel, coder, hl, hr, -⟩ := compile_binary_eq_ok hop h
    exact ⟨⟨codel, hl⟩, ⟨coder, hr⟩⟩

end Compiles

end Expr

namespace Scope

variable {α : Type} [Scalar α]

/-- What the symbols of a tree can be resolved to. -/
theorem exists_resolve? {scope : Scope} {name : String}
    (h : name ∈ scope.vars ∨ name ∈ scope.parameters ∨
      (Scalar.named? name : Option α).isSome = true) :
    ∃ load : Instruction α, scope.resolve? name = some load := by
  unfold resolve?
  cases hvar : lastIndexOf? name scope.vars with
  | some i => exact ⟨_, rfl⟩
  | none =>
    cases hparam : lastIndexOf? name scope.parameters with
    | some i => exact ⟨_, rfl⟩
    | none =>
      rcases h with hmem | hmem | hnamed
      · exact absurd hmem (lastIndexOf?_eq_none.1 hvar)
      · exact absurd hmem (lastIndexOf?_eq_none.1 hparam)
      · obtain ⟨value, hvalue⟩ := Option.isSome_iff_exists.1 hnamed
        exact ⟨.const value, by rw [hvalue]; rfl⟩

end Scope

namespace Shader

open Outcome (FailsOnly)
open Term (ofNumber ofCall ofPower ofExpr ofExprs sharedUnary sharedBinary)

/-! ## The tables of functions -/

/-- The functions of one argument that a shader shares are in the table of the compiler. -/
theorem exists_ofName?_of_mem_sharedUnary {name : String} (h : name ∈ sharedUnary) :
    ∃ f, UnaryFunction.ofName? name = some f := by
  have hall : sharedUnary.all (fun name => (UnaryFunction.ofName? name).isSome) = true := by
    decide +kernel
  exact Option.isSome_iff_exists.1 (List.all_eq_true.1 hall name h)

/-- The functions of two arguments that a shader shares are in the table of the compiler. -/
theorem exists_ofName?_of_mem_sharedBinary {name : String} (h : name ∈ sharedBinary) :
    ∃ f, BinaryFunction.ofName? name = some f := by
  have hall : sharedBinary.all (fun name => (BinaryFunction.ofName? name).isSome) = true := by
    decide +kernel
  exact Option.isSome_iff_exists.1 (List.all_eq_true.1 hall name h)

/-- The functions of one argument that shaders have under another name or not at all. -/
theorem mem_sharedUnary_of_ofName? {name : String} {f : UnaryFunction}
    (h : UnaryFunction.ofName? name = some f) :
    (name = "log" ∨ name = "ln") ∨ name = "log10" ∨ name ∈ sharedUnary := by
  unfold UnaryFunction.ofName? at h
  split at h <;> first | decide | cases h

/-- The functions of two arguments in the table of the compiler are shared by a shader, but for the
logarithm and the arctangent, which it writes otherwise. -/
theorem mem_sharedBinary_of_ofName? {name : String} {f : BinaryFunction}
    (h : BinaryFunction.ofName? name = some f) :
    name = "log" ∨ name = "atan2" ∨ name ∈ sharedBinary := by
  unfold BinaryFunction.ofName? at h
  split at h <;> first | decide | cases h

/-! ## Trees that have a text -/

variable {e : Expr Float} {t : Term Float} {scope : Scope}

/-- The named constants are finite. -/
theorem isFinite_of_named? {name : String} {value : Float} (h : Scalar.named? name = some value) :
    Scalar.isFinite value = true := by
  have hall : Scalar.isFinite (Scalar.pi : Float) = true ∧
      Scalar.isFinite (Scalar.euler : Float) = true ∧
      Scalar.isFinite (Scalar.tau : Float) = true := by decide +kernel
  obtain ⟨hpi, heuler, htau⟩ := hall
  unfold Scalar.named? at h
  split at h <;> cases h <;> assumption

/-- A number that compares as equal to one of the exponents that powers are written out for is
finite. -/
theorem isFinite_of_beq {value : Float} {n : Nat} (hn : n ≤ 3)
    (h : (value == Float.ofNat n) = true) : Scalar.isFinite value = true :=
  (Double.value_eq_of_beq (Double.toInt?_ofNat n hn).2 h).1

/-- All constants of a tree that becomes a term are finite: an exponent that does not show in the
term is a small whole number. -/
theorem Translates.isFinite (h : Translates e t) : ∀ c ∈ e.literals, Scalar.isFinite c = true := by
  induction h with
  | const finite => simpa [Expr.literals] using finite
  | constant | name => simp [Expr.literals]
  | unary _ ih => exact ih
  | binary _ _ _ ihl ihr | pow _ _ ihl ihr => exact Expr.forall_literals_binary.2 ⟨ihl, ihr⟩
  | powZero zero _ ih =>
    refine Expr.forall_literals_binary.2 ⟨ih, ?_⟩
    simpa [Expr.literals] using isFinite_of_beq (Nat.zero_le 3) zero
  | powOne one _ ih =>
    refine Expr.forall_literals_binary.2 ⟨ih, ?_⟩
    simpa [Expr.literals] using isFinite_of_beq (by decide : 1 ≤ 3) one
  | powTwo two _ ih =>
    refine Expr.forall_literals_binary.2 ⟨ih, ?_⟩
    simpa [Expr.literals] using isFinite_of_beq (by decide : 2 ≤ 3) two
  | powThree three _ ih =>
    refine Expr.forall_literals_binary.2 ⟨ih, ?_⟩
    simpa [Expr.literals] using isFinite_of_beq (Nat.le_refl 3) three
  | ln _ _ ih | log10 _ _ ih | shared _ _ ih => exact Expr.forall_literals_call.2 ih
  | log _ _ ihl ihr | atan2 _ _ ihl ihr | sharedTwo _ _ _ ihl ihr =>
    exact Expr.forall_literals_call₂.2 ⟨ihl, ihr⟩

/-- A tree that becomes a term compiles if its symbols are resolved. -/
theorem Translates.compiles (h : Translates e t)
    (hsymbols : ∀ name ∈ e.occurrences,
      ∃ load : Instruction Float, scope.resolve? name = some load) :
    e.Compiles scope := by
  induction h with
  | const => exact .const _
  | @constant name _ _ _ | @name name _ =>
    obtain ⟨load, hload⟩ := hsymbols name (by simp [Expr.occurrences])
    exact ⟨[load], by rw [Expr.compile, hload]⟩
  | unary _ ih => exact (ih hsymbols).unary
  | binary _ _ _ ihl ihr | pow _ _ ihl ihr =>
    simp only [Expr.occurrences, List.forall_mem_append] at hsymbols
    exact (ihl hsymbols.1).binary (ihr hsymbols.2)
  | powZero _ _ ih | powOne _ _ ih | powTwo _ _ ih | powThree _ _ ih =>
    simp only [Expr.occurrences, List.append_nil] at hsymbols
    exact (ih hsymbols).binary (.const _)
  | ln hname _ ih =>
    simp only [Expr.occurrences, Expr.occurrencesAll, List.append_nil] at hsymbols
    rcases hname with rfl | rfl
    · exact .call rfl (ih hsymbols)
    · exact .call rfl (ih hsymbols)
  | log10 _ _ ih =>
    simp only [Expr.occurrences, Expr.occurrencesAll, List.append_nil] at hsymbols
    exact .call rfl (ih hsymbols)
  | shared hname _ ih =>
    simp only [Expr.occurrences, Expr.occurrencesAll, List.append_nil] at hsymbols
    obtain ⟨f, hf⟩ := exists_ofName?_of_mem_sharedUnary hname
    exact .call hf (ih hsymbols)
  | log _ _ ihl ihr | atan2 _ _ ihl ihr =>
    simp only [Expr.occurrences, Expr.occurrencesAll, List.append_nil, List.forall_mem_append]
      at hsymbols
    exact .call₂ rfl (ihl hsymbols.1) (ihr hsymbols.2)
  | sharedTwo hname _ _ ihl ihr =>
    simp only [Expr.occurrences, Expr.occurrencesAll, List.append_nil, List.forall_mem_append]
      at hsymbols
    obtain ⟨f, hf⟩ := exists_ofName?_of_mem_sharedBinary hname
    exact .call₂ hf (ihl hsymbols.1) (ihr hsymbols.2)

/-! ## Trees that have none -/

/-- The failure to write a constant of the tree that is not finite. -/
def NotFinite (e : Expr Float) (error : ExprError Float) : Prop :=
  ∃ c ∈ e.literals, Scalar.isFinite c = false ∧ error = .nonFiniteConstant c

/-- A constant of a part is one of the whole tree. -/
theorem NotFinite.mono {sub : Expr Float} {error : ExprError Float} (h : NotFinite sub error)
    (hsub : ∀ c ∈ sub.literals, c ∈ e.literals) : NotFinite e error := by
  obtain ⟨c, hc, hrest⟩ := h
  exact ⟨c, hsub c hc, hrest⟩

/-- A number cannot be written only if it is not finite. -/
theorem failsOnly_ofNumber (c : Float) : FailsOnly (NotFinite (.const c)) (ofNumber c) := by
  unfold ofNumber
  split
  · exact .ok _
  · next hc => exact .error ⟨c, by simp [Expr.literals], by simpa using hc, rfl⟩

/-- A finite number is written. -/
theorem exists_ofNumber {c : Float} (h : Scalar.isFinite c = true) :
    ofNumber c = .ok (.literal c) :=
  if_pos h

/-- A power fails only where its exponent does. -/
theorem failsOnly_ofPower {p : ExprError Float → Prop} (base : Term Float) (literal? : Option Float)
    {exponent : Except (ExprError Float) (Term Float)} (h : FailsOnly p exponent) :
    FailsOnly p (ofPower base literal? exponent) := by
  have hgeneral : FailsOnly p (do return Term.call "pow" [base, ← exponent]) :=
    h.bind fun _ => .ok _
  unfold ofPower
  cases literal? with
  | none => exact hgeneral
  | some n =>
    dsimp only
    repeat' split
    all_goals first | exact .ok _ | exact hgeneral

/-- A call with one argument is translated behind its argument. -/
theorem ofExpr_call (name : String) (arg : Expr Float) :
    ofExpr (.call name [arg]) = ofExpr arg >>= fun t => ofCall name [t] := by
  rw [ofExpr, ofExprs, ofExprs]
  cases ofExpr arg <;> rfl

/-- A call with two arguments is translated behind its arguments, the first one first. -/
theorem ofExpr_call₂ (name : String) (first second : Expr Float) :
    ofExpr (.call name [first, second]) =
      ofExpr first >>= fun t => ofExpr second >>= fun u => ofCall name [t, u] := by
  rw [ofExpr, ofExprs, ofExprs, ofExprs]
  cases ofExpr first <;> cases ofExpr second <;> rfl

/-- Every function of one argument is one that shaders have. -/
theorem exists_ofCall {name : String} {f : UnaryFunction} (hf : UnaryFunction.ofName? name = some f)
    (x : Term Float) : ∃ t, ofCall name [x] = .ok t := by
  have hten : Scalar.isFinite (Scalar.lnTen : Float) = true := by decide +kernel
  unfold ofCall
  dsimp only
  rw [exists_ofNumber hten]
  repeat' split
  · exact ⟨_, rfl⟩
  · exact ⟨_, rfl⟩
  · exact ⟨_, rfl⟩
  · next hlog hten hshared =>
    rcases mem_sharedUnary_of_ofName? hf with h | h | h
    · exact absurd h hlog
    · exact absurd h hten
    · exact absurd h hshared

/-- A function of two arguments has a term whatever the terms of its arguments are. -/
theorem exists_ofCall₂ {name : String} {f : BinaryFunction}
    (hf : BinaryFunction.ofName? name = some f) (x y : Term Float) :
    ∃ t, ofCall name [x, y] = .ok t := by
  unfold ofCall
  dsimp only
  repeat' split
  · exact ⟨_, rfl⟩
  · exact ⟨_, rfl⟩
  · exact ⟨_, rfl⟩
  · next hlog hatan hshared =>
    rcases mem_sharedBinary_of_ofName? hf with h | h | h
    · exact absurd h hlog
    · exact absurd h hatan
    · exact absurd h hshared

/-- What succeeds has no failure to speak of. -/
theorem failsOnly_of_eq_ok {p : ExprError Float → Prop} {β : Type}
    {x : Except (ExprError Float) β} (h : ∃ t, x = .ok t) : FailsOnly p x := by
  obtain ⟨t, rfl⟩ := h
  exact .ok t

/-- A tree that compiles fails to become a term only for a constant that is not finite. -/
theorem failsOnly_ofExpr (h : e.Compiles scope) : FailsOnly (NotFinite e) (ofExpr e) := by
  induction e with
  | const c =>
    rw [ofExpr]
    exact failsOnly_ofNumber c
  | symbol name =>
    rw [ofExpr]
    split
    · next value hnamed => exact failsOnly_of_eq_ok ⟨_, exists_ofNumber (isFinite_of_named? hnamed)⟩
    · exact .ok _
  | unary op operand ih =>
    rw [ofExpr]
    exact (ih h.of_unary).bind fun _ => .ok _
  | binary op left right ihl ihr =>
    obtain ⟨hl, hr⟩ := h.of_binary
    have hleft : FailsOnly (NotFinite (.binary op left right)) (ofExpr left) :=
      (ihl hl).mono fun _ hn => hn.mono fun c hc => by simp [Expr.literals, hc]
    have hright : FailsOnly (NotFinite (.binary op left right)) (ofExpr right) :=
      (ihr hr).mono fun _ hn => hn.mono fun c hc => by simp [Expr.literals, hc]
    rw [ofExpr]
    split
    · exact hleft.bind fun _ => hright.bind fun _ => .ok _
    · exact hleft.bind fun base => failsOnly_ofPower base _ hright
  | call name args ih =>
    obtain ⟨code, h⟩ := h
    obtain ⟨arg, f, inner, rfl, hf, harg, -⟩ |
      ⟨first, second, f, left, right, rfl, hf, hl, hr, -⟩ := Expr.compile_call_eq_ok h
    -- The functions that compile are those that the shader has, so only the arguments can fail.
    · have hinner : FailsOnly (NotFinite (.call name [arg])) (ofExpr arg) :=
        (ih arg (by simp) ⟨inner, harg⟩).mono fun _ hn => hn.mono fun c hc => by
          simp [Expr.literals, Expr.literalsAll, hc]
      rw [ofExpr_call]
      exact hinner.bind fun t => failsOnly_of_eq_ok (exists_ofCall hf t)
    · have hfirst : FailsOnly (NotFinite (.call name [first, second])) (ofExpr first) :=
        (ih first (by simp) ⟨left, hl⟩).mono fun _ hn => hn.mono fun c hc => by
          simp [Expr.literals, Expr.literalsAll, hc]
      have hsecond : FailsOnly (NotFinite (.call name [first, second])) (ofExpr second) :=
        (ih second (by simp) ⟨right, hr⟩).mono fun _ hn => hn.mono fun c hc => by
          simp [Expr.literals, Expr.literalsAll, hc]
      rw [ofExpr_call₂]
      exact hfirst.bind fun t => hsecond.bind fun u => failsOnly_of_eq_ok (exists_ofCall₂ hf t u)

end Shader

/-! ## The two together -/

namespace CompiledFunction

variable {e : Expr Float} {vars : List String} {p : Parameters Float} {f : CompiledFunction Float}

/-- A function that was compiled has a tree that compiles. -/
theorem compiles_of_ofExpr (h : ofExpr e vars p = .ok f) : e.Compiles ⟨vars, p.names⟩ :=
  ⟨f.code, (ofExpr_eq_ok h).1⟩

end CompiledFunction

/-- The compiler and the translation into a shader accept the same trees, but for the constants. If
the symbols of a tree are resolved and no parameter is named like a constant, then the tree has a
text if and only if it compiles and all its constants are finite; and a tree that compiles has no
text only because of a constant that is not finite, which the failure names. -/
theorem Expr.exists_shader_iff (e : Expr Float) (vars : List String) (p : Parameters Float) :
    ((∀ name ∈ e.symbols,
        name ∈ vars ∨ name ∈ p.names ∨ (Scalar.named? name : Option Float).isSome = true) →
      p.Unreserved →
      ((∃ text, e.shader = .ok text) ↔
        (∃ f, CompiledFunction.ofExpr e vars p = .ok f) ∧
          ∀ c ∈ e.literals, Scalar.isFinite c = true)) ∧
    ∀ f error, CompiledFunction.ofExpr e vars p = .ok f → e.shader = .error error →
      ∃ c ∈ e.literals, Scalar.isFinite c = false ∧ error = .nonFiniteConstant c := by
  have hfails : ∀ f error, CompiledFunction.ofExpr e vars p = .ok f → e.shader = .error error →
      ∃ c ∈ e.literals, Scalar.isFinite c = false ∧ error = .nonFiniteConstant c := by
    intro f error hf herror
    refine Shader.failsOnly_ofExpr (CompiledFunction.compiles_of_ofExpr hf) error ?_
    cases ht : Shader.Term.ofExpr e with
    | ok t =>
      rw [shader, ht] at herror
      cases herror
    | error error' =>
      rw [shader, ht] at herror
      cases herror
      rfl
  refine ⟨fun hsymbols hp => ⟨?_, ?_⟩, hfails⟩
  · rintro ⟨text, htext⟩
    obtain ⟨t, ht, -⟩ := Outcome.map_eq_ok.1 htext
    have htranslates := Shader.translates_ofExpr ht
    refine ⟨?_, htranslates.isFinite⟩
    obtain ⟨code, hcode⟩ : e.Compiles ⟨vars, p.names⟩ :=
      htranslates.compiles fun name hname =>
        Scope.exists_resolve? (hsymbols name (mem_symbols.2 hname))
    exact ⟨⟨code, vars.length⟩, by rw [CompiledFunction.ofExpr_of_unreserved hp, hcode]; rfl⟩
  · rintro ⟨⟨f, hf⟩, hfinite⟩
    cases hshader : e.shader with
    | ok text => exact ⟨text, rfl⟩
    | error error =>
      obtain ⟨c, hc, hinfinite, -⟩ := hfails f error hf hshader
      rw [hfinite c hc] at hinfinite
      cases hinfinite

/-- The formula `x ^ 2 + log(a, pi)` of a variable and a parameter has a text. With an infinite
number in the place of `pi` it compiles and has none. -/
theorem Expr.exists_shader_iff_infinite :
    let e (base : Expr Float) : Expr Float :=
      .binary .add (.binary .pow (.symbol "x") (.const 2)) (.call "log" [.symbol "a", base])
    let p : Parameters Float := .ofList [("a", 2)]
    let infinite : Float := 1 / 0
    (∀ name ∈ (e (.symbol "pi")).symbols,
        name ∈ ["x"] ∨ name ∈ p.names ∨ (Scalar.named? name : Option Float).isSome = true) ∧
      p.Unreserved ∧ (∃ text, (e (.symbol "pi")).shader = .ok text) ∧
      (∃ f, CompiledFunction.ofExpr (e (.const infinite)) ["x"] p = .ok f) ∧
      (e (.const infinite)).shader = .error (.nonFiniteConstant infinite) ∧
      ∃ c ∈ (e (.const infinite)).literals, Scalar.isFinite c = false ∧
        (.nonFiniteConstant infinite : ExprError Float) = .nonFiniteConstant c := by
  intro e p infinite
  have hsymbols : ∀ name ∈ (e (.symbol "pi")).symbols,
      name ∈ ["x"] ∨ name ∈ p.names ∨ (Scalar.named? name : Option Float).isSome = true := by
    decide +kernel
  have hp : p.Unreserved := by
    intro name hmem
    rw [List.mem_singleton.1 hmem]
    rfl
  have hfinite : ∀ c ∈ (e (.symbol "pi")).literals, Scalar.isFinite c = true := by
    have hall : (e (.symbol "pi")).literals.all Scalar.isFinite = true := by decide +kernel
    exact List.all_eq_true.1 hall
  have hf : ∃ f, CompiledFunction.ofExpr (e (.const infinite)) ["x"] p = .ok f := ⟨_, rfl⟩
  have hconst : Shader.Term.ofExpr (.const infinite) = .error (.nonFiniteConstant infinite) := by
    rw [Shader.Term.ofExpr]
    exact if_neg (by decide +kernel)
  have hcall : Shader.Term.ofExpr (.call "log" [.symbol "a", .const infinite]) =
      .error (.nonFiniteConstant infinite) := by
    rw [Shader.ofExpr_call₂, hconst]
    rfl
  have hsum : Shader.Term.ofExpr (e (.const infinite)) = .error (.nonFiniteConstant infinite) := by
    rw [Shader.Term.ofExpr, hcall]
    rfl
  have herror : (e (.const infinite)).shader = .error (.nonFiniteConstant infinite) := by
    rw [shader, hsum]
    rfl
  have htext := (exists_shader_iff (e (.symbol "pi")) ["x"] p).1 hsymbols hp
  refine ⟨hsymbols, hp, htext.2 ⟨⟨_, rfl⟩, hfinite⟩, hf, herror, ?_⟩
  obtain ⟨f, hf⟩ := hf
  exact (exists_shader_iff (e (.const infinite)) ["x"] p).2 f _ hf herror

end SurfaceGeometry
