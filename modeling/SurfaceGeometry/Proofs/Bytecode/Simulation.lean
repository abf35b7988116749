import SurfaceGeometry.Bytecode.Compiler
import SurfaceGeometry.Proofs.Outcome
import SurfaceGeometry.Proofs.Parameters.History
import SurfaceGeometry.Scalar.Double

/-!
# Compiled code computes the tree

The code of a tree pushes the value of the tree on whatever stack it is run with, and never misses a
slot or an operand (`Expr.pushes_compile`). The value is that of `Expr.value?`, which evaluates the
tree directly; what the names stand for in it is said by `Scope.valueOf?` from the lists of names,
the arguments and the store as it is now, without the slots that the code uses.

`CompiledFunction.callOn_ofExpr` puts this together with the history of the store: compiled against
one state of a store, a function computes its tree at every later state of it.
-/

namespace SurfaceGeometry

variable {α : Type}

/-! ## Places of names -/

/-- A search for a name fails only in lists without it. -/
theorem lastIndexOf?_eq_none {name : String} {names : List String} :
    lastIndexOf? name names = none ↔ name ∉ names := by
  induction names with
  | nil => simp [lastIndexOf?]
  | cons other rest ih =>
    rw [lastIndexOf?]
    cases h : lastIndexOf? name rest with
    | some i =>
      have : name ∈ rest := by simpa [h] using ih
      simp [this]
    | none =>
      have : name ∉ rest := ih.1 h
      simp [this, eq_comm]

/-- A name stands at the place where it is found. -/
theorem getElem?_of_lastIndexOf? {name : String} {names : List String} {i : Nat}
    (h : lastIndexOf? name names = some i) : names[i]? = some name := by
  induction names generalizing i with
  | nil => cases h
  | cons other rest ih =>
    rw [lastIndexOf?] at h
    split at h
    · next j hj =>
      cases h
      simpa using ih hj
    · split at h
      · next heq =>
        cases h
        simp [heq]
      · cases h

/-- Among pairs of names and numbers the last place of a name holds the number that a search from
the end finds. -/
theorem lookup_reverse_zip {name : String} {names : List String} {numbers : List α}
    (h : numbers.length = names.length) :
    (names.zip numbers).reverse.lookup name =
      (lastIndexOf? name names).bind fun i => numbers[i]? := by
  induction names generalizing numbers with
  | nil => simp [lastIndexOf?]
  | cons other rest ih =>
    match numbers, h with
    | number :: numbers, h =>
      have ih := @ih numbers (by simpa using h)
      rw [List.zip_cons_cons, List.reverse_cons, List.lookup_append, ih, lastIndexOf?]
      cases hi : lastIndexOf? name rest with
      | some i =>
        have hlt : i < numbers.length := by
          have := (List.getElem?_eq_some_iff.1 (getElem?_of_lastIndexOf? hi)).1
          simp only [List.length_cons] at h
          omega
        simp [hlt]
      | none =>
        by_cases heq : other = name
        · simp [heq]
        · have hne : (name == other) = false := beq_eq_false_iff_ne.2 (Ne.symm heq)
          simp [heq, List.lookup_cons, hne]

/-! ## What names stand for -/

namespace Scope

variable [Scalar α]

/-- The number that a name stands for: for a variable its argument, and for one of two variables of
one name the argument of the last; for any other name that was a parameter at compile time its
number in the store as it is now; for a name that is neither, the named constant. -/
def valueOf? (scope : Scope) (args : List α) (store : Parameters α) (name : String) : Option α :=
  match (scope.vars.zip args).reverse.lookup name with
  | some value => some value
  | none => if name ∈ scope.parameters then store.get? name else Scalar.named? name

/-- The instruction that a name is resolved to pushes the number that the name is looked up as. -/
theorem step?_lookup {scope : Scope} {args params : List α} {name : String} {load : Instruction α}
    (hargs : args.length = scope.vars.length) (hparams : scope.parameters.length ≤ params.length)
    (h : scope.resolve? name = some load) :
    ∃ value, scope.lookup args params name = some value ∧
      ∀ stack, load.step? args params stack = some (value :: stack) := by
  unfold resolve? at h
  unfold lookup
  split at h
  · next i hi =>
    cases h
    have hlt : i < args.length := by
      have := (List.getElem?_eq_some_iff.1 (getElem?_of_lastIndexOf? hi)).1
      omega
    exact ⟨args[i], by simp [hlt], fun stack => by simp [Instruction.step?, hlt]⟩
  · next hvar =>
    split at h
    · next i hi =>
      cases h
      have hlt : i < params.length := by
        have := (List.getElem?_eq_some_iff.1 (getElem?_of_lastIndexOf? hi)).1
        omega
      exact ⟨params[i], by simp [hlt], fun stack => by simp [Instruction.step?, hlt]⟩
    · next hparam =>
      obtain ⟨value, hvalue, rfl⟩ := Option.map_eq_some_iff.1 h
      exact ⟨value, hvalue, fun stack => rfl⟩

/-- What a name stands for is what is found in the slots that the code uses, also when the store has
been written to since. -/
theorem valueOf?_eq_lookup {scope : Scope} {p q : Parameters α} {args : List α}
    (hargs : args.length = scope.vars.length) (hparams : scope.parameters = p.names)
    (hpq : p.Extends q) (name : String) :
    scope.valueOf? args q name = scope.lookup args q.values name := by
  unfold lookup
  rw [valueOf?, lookup_reverse_zip hargs]
  cases hvar : lastIndexOf? name scope.vars with
  | some i =>
    have hlt : i < args.length := by
      have := (List.getElem?_eq_some_iff.1 (getElem?_of_lastIndexOf? hvar)).1
      omega
    simp [hlt]
  | none =>
    cases hparam : lastIndexOf? name scope.parameters with
    | some i =>
      have hmem : name ∈ scope.parameters := List.mem_of_getElem? (getElem?_of_lastIndexOf? hparam)
      rw [hparams] at hparam
      simp [hmem, hpq.get?_eq (getElem?_of_lastIndexOf? hparam)]
    | none =>
      have hmem : name ∉ scope.parameters := lastIndexOf?_eq_none.1 hparam
      simp [hmem]

end Scope

/-! ## Running code -/

/-- Where the slot and the operands are there, both steps of the machine are the same. -/
theorem Instruction.step_of_step? [Scalar α] {args params : List α} {op : Instruction α}
    {stack stack' : List α} (h : op.step? args params stack = some stack') :
    op.step args params stack = stack' := by
  unfold step? at h
  split at h
  case h_2 index _ | h_3 index _ =>
    obtain ⟨value, hvalue, rfl⟩ := Option.map_eq_some_iff.1 h
    simp [step, List.getD_eq_getElem?_getD, hvalue]
  case h_9 => cases h
  all_goals
    cases h
    rfl

namespace Bytecode

variable [Scalar α]

/-- A run that never misses anything is the run of the machine. -/
theorem run_of_run? {args params : List α} {code : Bytecode α} {stack stack' : List α}
    (h : code.run? args params stack = some stack') : code.run args params stack = stack' := by
  induction code generalizing stack with
  | nil => simpa [run?, run] using h
  | cons op code ih =>
    simp only [run?, List.foldlM_cons, Option.bind_eq_bind, Option.bind_eq_some_iff] at h
    obtain ⟨next, hstep, hrest⟩ := h
    have hnext : op.step args params stack = next := Instruction.step_of_step? hstep
    simp only [run, List.foldl_cons, hnext]
    exact ih hrest

/-- Code that pushes a number on every stack and never misses a slot or an operand. -/
def Pushes (args params : List α) (code : Bytecode α) (value : α) : Prop :=
  ∀ stack, code.run? args params stack = some (value :: stack)

variable {args params : List α}

/-- Code of a single instruction that puts a value on every stack pushes that value. -/
theorem Pushes.single {op : Instruction α} {value : α}
    (h : ∀ stack, op.step? args params stack = some (value :: stack)) :
    Pushes args params [op] value := by
  intro stack
  simp [run?, h]

/-- An operation on the topmost number, behind code that pushes it. -/
theorem Pushes.one {code : Bytecode α} {op : Instruction α} {a value : α}
    (hcode : Pushes args params code a)
    (hop : ∀ stack, op.step? args params (a :: stack) = some (value :: stack)) :
    Pushes args params (code ++ [op]) value := by
  intro stack
  have hrun : code.foldlM (fun stack op => op.step? args params stack) stack
      = some (a :: stack) := hcode stack
  simp [run?, hrun, hop]

/-- An operation on the two topmost numbers, behind code that pushes them, the right one last. -/
theorem Pushes.two {left right : Bytecode α} {op : Instruction α} {a b value : α}
    (hleft : Pushes args params left a) (hright : Pushes args params right b)
    (hop : ∀ stack, op.step? args params (b :: a :: stack) = some (value :: stack)) :
    Pushes args params (left ++ right ++ [op]) value := by
  intro stack
  have hrunl : left.foldlM (fun stack op => op.step? args params stack) stack
      = some (a :: stack) := hleft stack
  have hrunr : right.foldlM (fun stack op => op.step? args params stack) (a :: stack)
      = some (b :: a :: stack) := hright (a :: stack)
  simp [run?, hrunl, hrunr, hop]

end Bytecode

/-! ## Trees -/

namespace Expr

variable [Scalar α] {scope : Scope}

/-- What there is to know of a successful compilation of a power: a whole literal exponent is put
into the instruction, any other one is compiled. -/
theorem compile_pow_eq_ok {base exponent : Expr α} {code : Bytecode α}
    (h : (binary .pow base exponent).compile scope = .ok code) :
    ∃ left, base.compile scope = .ok left ∧
      ((∃ n, wholeExponent? exponent = some n ∧ code = left ++ [.powInt n]) ∨
        wholeExponent? exponent = none ∧ ∃ right, exponent.compile scope = .ok right ∧
          code = left ++ right ++ [.binary .pow]) := by
  rw [compile] at h
  obtain ⟨left, hleft, h⟩ := Outcome.bind_eq_ok.1 h
  refine ⟨left, hleft, ?_⟩
  cases hn : wholeExponent? exponent with
  | some n =>
    rw [hn] at h
    cases h
    exact .inl ⟨n, rfl, rfl⟩
  | none =>
    rw [hn] at h
    obtain ⟨right, hright, h⟩ := Outcome.bind_eq_ok.1 h
    cases h
    exact .inr ⟨rfl, right, hright, rfl⟩

/-- A successful compilation of an operator that is no power. -/
theorem compile_binary_eq_ok {op : BinaryOp} {left right : Expr α} {code : Bytecode α}
    (hop : op ≠ .pow) (h : (binary op left right).compile scope = .ok code) :
    ∃ codel coder, left.compile scope = .ok codel ∧ right.compile scope = .ok coder ∧
      code = codel ++ coder ++ [.binary op] := by
  rw [compile] at h
  · obtain ⟨codel, hl, h⟩ := Outcome.bind_eq_ok.1 h
    obtain ⟨coder, hr, h⟩ := Outcome.bind_eq_ok.1 h
    cases h
    exact ⟨codel, coder, hl, hr, rfl⟩
  · exact hop

/-- A successful compilation of a call: one or two arguments, and a name that is in the table for
that number of them. -/
theorem compile_call_eq_ok {name : String} {args : List (Expr α)} {code : Bytecode α}
    (h : (call name args).compile scope = .ok code) :
    (∃ arg f inner, args = [arg] ∧ UnaryFunction.ofName? name = some f ∧
      arg.compile scope = .ok inner ∧ code = inner ++ [.call1 f]) ∨
    ∃ first second f left right, args = [first, second] ∧
      BinaryFunction.ofName? name = some f ∧ first.compile scope = .ok left ∧
      second.compile scope = .ok right ∧ code = left ++ right ++ [.call2 f] := by
  match args, h with
  | [], h => cases h
  | [arg], h =>
    rw [compile] at h
    split at h
    · next f hf =>
      obtain ⟨inner, harg, h⟩ := Outcome.bind_eq_ok.1 h
      cases h
      exact .inl ⟨arg, f, inner, rfl, hf, harg, rfl⟩
    · cases h
  | [first, second], h =>
    rw [compile] at h
    split at h
    · next f hf =>
      obtain ⟨left, hl, h⟩ := Outcome.bind_eq_ok.1 h
      obtain ⟨right, hr, h⟩ := Outcome.bind_eq_ok.1 h
      cases h
      exact .inr ⟨first, second, f, left, right, rfl, hf, hl, hr, rfl⟩
    · cases h
  | _ :: _ :: _ :: _, h => cases h

/-- The code of a tree pushes the value of the tree, whenever the instructions of its names push
what the names stand for. -/
theorem pushes_compile {args params : List α} {lookup : String → Option α}
    (hload : ∀ name load, scope.resolve? name = some load → ∃ value, lookup name = some value ∧
      ∀ stack, load.step? args params stack = some (value :: stack))
    {e : Expr α} {code : Bytecode α} (h : e.compile scope = .ok code) :
    ∃ value, e.value? lookup = some value ∧ Bytecode.Pushes args params code value := by
  induction e generalizing code with
  | const value =>
    cases h
    exact ⟨value, rfl, .single fun stack => rfl⟩
  | symbol name =>
    rw [compile] at h
    split at h
    · next load hres =>
      cases h
      obtain ⟨value, hvalue, hstep⟩ := hload name load hres
      exact ⟨value, by rw [value?, hvalue], .single hstep⟩
    · cases h
  | unary op operand ih =>
    obtain ⟨inner, hinner, h⟩ := Outcome.bind_eq_ok.1 h
    cases h
    obtain ⟨a, ha, hpush⟩ := ih hinner
    exact ⟨op.apply a, by simp [value?, ha], hpush.one fun stack => rfl⟩
  | binary op left right ihl ihr =>
    -- A power with a whole exponent is an instruction of its own, and pushes no exponent.
    by_cases hop : op = .pow
    · subst hop
      obtain ⟨codel, hl, ⟨n, hn, rfl⟩ | ⟨hn, coder, hr, rfl⟩⟩ := compile_pow_eq_ok h
      · obtain ⟨a, ha, hpush⟩ := ihl hl
        exact ⟨Scalar.powInt a n, by simp [value?, hn, ha], hpush.one fun stack => rfl⟩
      · obtain ⟨a, ha, hpusha⟩ := ihl hl
        obtain ⟨b, hb, hpushb⟩ := ihr hr
        exact ⟨Scalar.pow a b, by simp [value?, hn, ha, hb], hpusha.two hpushb fun stack => rfl⟩
    · obtain ⟨codel, coder, hl, hr, rfl⟩ := compile_binary_eq_ok hop h
      obtain ⟨a, ha, hpusha⟩ := ihl hl
      obtain ⟨b, hb, hpushb⟩ := ihr hr
      refine ⟨op.apply a b, ?_, hpusha.two hpushb fun stack => rfl⟩
      rw [value?]
      · simp [ha, hb]
      · exact hop
  | call name args ih =>
    obtain ⟨arg, f, inner, rfl, hf, harg, rfl⟩ |
      ⟨first, second, f, left, right, rfl, hf, hl, hr, rfl⟩ := compile_call_eq_ok h
    · obtain ⟨a, ha, hpush⟩ := ih arg (by simp) harg
      exact ⟨f.apply a, by simp [value?, values?, ha, hf], hpush.one fun stack => rfl⟩
    · obtain ⟨a, ha, hpusha⟩ := ih first (by simp) hl
      obtain ⟨b, hb, hpushb⟩ := ih second (by simp) hr
      exact ⟨f.apply a b, by simp [value?, values?, ha, hb, hf],
        hpusha.two hpushb fun stack => rfl⟩

end Expr

/-! ## Compiled functions -/

namespace CompiledFunction

variable [Scalar α]

/-- What there is to know of a successful compilation against a store. -/
theorem ofExpr_eq_ok {e : Expr α} {vars : List String} {p : Parameters α}
    {f : CompiledFunction α} (h : ofExpr e vars p = .ok f) :
    e.compile ⟨vars, p.names⟩ = .ok f.code ∧ f.arity = vars.length := by
  unfold ofExpr at h
  split at h
  · cases h
  · obtain ⟨code, hcode, h⟩ := Outcome.bind_eq_ok.1 h
    cases h
    exact ⟨hcode, rfl⟩

/-- Code that pushes a number gives it on every stack of earlier runs, and nothing lies below. -/
theorem executeOn_of_pushes {args params : List α} {code : Bytecode α} {value : α}
    (h : code.Pushes args params value) (stack : List α) :
    code.executeOn args params stack = (value, []) := by
  simp [Bytecode.executeOn, Bytecode.run_of_run? (h [])]

/-- A function compiled against a store computes its tree, whatever has been done to the shelf
since: at every list of arguments of the right length it gives the value of the tree for the
variables at these arguments and the parameters as they are now. The run never misses a slot or an
operand, and the stack, whatever earlier calls left on it, is empty behind the call. -/
theorem callOn_ofExpr {e : Expr α} {vars : List String} {s : Shelf α} {place : Nat}
    {p : Parameters α} {f : CompiledFunction α} (hp : s.stores[place]? = some p)
    (hf : ofExpr e vars p = .ok f) (actions : List (Shelf.Action α)) :
    ∃ q, (s.run actions).stores[place]? = some q ∧
      ∀ args : List α, args.length = vars.length →
        ∃ value, e.value? (Scope.valueOf? ⟨vars, p.names⟩ args q) = some value ∧
          f.code.run? args q.values [] = some [value] ∧
          ∀ stack, f.callOn q.values args stack = (value, []) := by
  obtain ⟨hcode, harity⟩ := ofExpr_eq_ok hf
  obtain ⟨q, hq, hpq⟩ := Shelf.run_extends hp actions
  refine ⟨q, hq, fun args hargs => ?_⟩
  obtain ⟨value, hvalue, hpush⟩ := Expr.pushes_compile
    (fun name load h => Scope.step?_lookup hargs hpq.length_values_le h) hcode
  rw [← funext (Scope.valueOf?_eq_lookup hargs rfl hpq)] at hvalue
  refine ⟨value, hvalue, hpush [], fun stack => ?_⟩
  rw [callOn, if_pos (hargs.trans harity.symm)]
  exact executeOn_of_pushes hpush stack

/-- The formula `a * x ^ 3 + e` over a store in which `x` is a parameter too: the store is shared, a
name is inserted through the new handle and `a` is set through it. -/
theorem callOn_ofExpr_shared :
    let p : Parameters Float := .ofList [("x", 1), ("a", 2)]
    let s : Shelf Float := Shelf.empty.add "p" p
    let actions : List (Shelf.Action Float) :=
      [.share "p" "q", .insert "q" "b" 5, .set "q" "a" 7]
    let cubed : Expr Float := .binary .pow (.symbol "x") (.const 3)
    let e : Expr Float := .binary .add (.binary .mul (.symbol "a") cubed) (.symbol "e")
    let f : CompiledFunction Float := ⟨[.parameter 1, .argument 0, .powInt 3, .binary .mul,
      .const Scalar.euler, .binary .add], 1⟩
    s.stores[0]? = some p ∧ ofExpr e ["x"] p = .ok f ∧
      ∃ q, (s.run actions).stores[0]? = some q ∧
        ∀ args : List Float, args.length = ["x"].length →
          ∃ value, e.value? (Scope.valueOf? ⟨["x"], p.names⟩ args q) = some value ∧
            f.code.run? args q.values [] = some [value] ∧
            ∀ stack, f.callOn q.values args stack = (value, []) := by
  intro p s actions cubed e f
  have hp : s.stores[0]? = some p := rfl
  have hf : ofExpr e ["x"] p = .ok f := rfl
  exact ⟨hp, hf, callOn_ofExpr hp hf actions⟩

end CompiledFunction

end SurfaceGeometry
