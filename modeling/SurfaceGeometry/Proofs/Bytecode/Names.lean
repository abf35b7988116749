import SurfaceGeometry.Proofs.Bytecode.Simulation
import Mathlib.Data.List.Nodup

/-!
# Names of compiled trees

Compilation asks of the lists of names only what the symbols of the tree are resolved to
(`Expr.compile_congr`), and where it succeeds, every symbol is resolved
(`Expr.resolve?_of_compile`). So a function that was compiled against a store comes out the same
against a later state of it, unless a name was inserted that is the name of a constant
(`CompiledFunction.ofExpr_extends`); and the same is true of every tree with no other symbols,
whether it compiles or not. What the function gives is the value of the tree, with the numbers of
whatever later state of the store (`CompiledFunction.valueOf?_eq_call`).
-/

namespace SurfaceGeometry

variable {α : Type}

/-- Where names are not repeated, a name is found at the place where it stands. -/
theorem lastIndexOf?_of_nodup {names : List String} {name : String} {i : Nat}
    (hnames : names.Nodup) (hi : names[i]? = some name) : lastIndexOf? name names = some i := by
  cases hlast : lastIndexOf? name names with
  | none => exact absurd (List.mem_of_getElem? hi) (lastIndexOf?_eq_none.1 hlast)
  | some j =>
    have hj := getElem?_of_lastIndexOf? hlast
    obtain ⟨hlti, heqi⟩ := List.getElem?_eq_some_iff.1 hi
    obtain ⟨hltj, heqj⟩ := List.getElem?_eq_some_iff.1 hj
    rw [(hnames.getElem_inj_iff).1 (heqj.trans heqi.symm)]

variable [Scalar α]

/-- No parameter has the name of a constant. -/
def Parameters.Unreserved (p : Parameters α) : Prop :=
  ∀ name ∈ p.names, (Scalar.named? name : Option α) = none

namespace Scope

/-- What a name was resolved to, it still is against a later state of the store. -/
theorem resolve?_extends {p q : Parameters α} {vars : List String} {name : String}
    {load : Instruction α} (hpq : p.Extends q) (hq : q.Unreserved)
    (h : resolve? ⟨vars, p.names⟩ name = some load) :
    resolve? ⟨vars, q.names⟩ name = some load := by
  unfold resolve? at h ⊢
  split at h
  · next i hi =>
    rw [hi]
    exact h
  · next hvar =>
    rw [hvar]
    split at h
    · next i hi =>
      obtain ⟨more, hmore⟩ := hpq
      have hlt := (List.getElem?_eq_some_iff.1 (getElem?_of_lastIndexOf? hi)).1
      have hqi : q.names[i]? = some name := by
        rw [← hmore, List.getElem?_append_left hlt]
        exact getElem?_of_lastIndexOf? hi
      have hlast : lastIndexOf? name q.names = some i := lastIndexOf?_of_nodup q.distinct hqi
      rw [hlast]
      exact h
    · next hparam =>
      obtain ⟨value, hvalue, -⟩ := Option.map_eq_some_iff.1 h
      have hmem : name ∉ q.names := fun hmem => by
        rw [hq name hmem] at hvalue
        cases hvalue
      rw [lastIndexOf?_eq_none.2 hmem]
      exact h

end Scope

namespace Expr

variable {e : Expr α} {scope scope' : Scope}

/-- Compilation depends on the names only through what the symbols of the tree are resolved to. -/
theorem compile_congr
    (h : ∀ name ∈ e.occurrences, (scope.resolve? name : Option (Instruction α)) =
      scope'.resolve? name) : e.compile scope = e.compile scope' := by
  induction e with
  | const value => rfl
  | symbol name => rw [compile, compile, h name (by simp [occurrences])]
  | unary op operand ih => rw [compile, compile, ih h]
  | binary op left right ihl ihr =>
    have hl := ihl fun name hname => h name (by simp [occurrences, hname])
    have hr := ihr fun name hname => h name (by simp [occurrences, hname])
    by_cases hop : op = .pow
    · subst hop
      rw [compile, compile, hl, hr]
    · rw [compile, compile, hl, hr]
      · exact hop
      · exact hop
  | call name args ih =>
    have hargs : ∀ arg ∈ args, arg.compile scope = arg.compile scope' := fun arg harg =>
      ih arg harg fun name hname =>
        h name (by simpa [occurrences, occurrencesAll_eq] using ⟨arg, harg, hname⟩)
    obtain _ | ⟨first, _ | ⟨second, _ | ⟨third, rest⟩⟩⟩ := args
    · rfl
    · rw [compile, compile, hargs first (by simp)]
    · rw [compile, compile, hargs first (by simp), hargs second (by simp)]
    · rfl

/-- A whole exponent is a constant. -/
theorem exists_const_of_wholeExponent? {e : Expr α} {n : Int} (h : wholeExponent? e = some n) :
    ∃ c, e = const c := by
  cases e with
  | const c => exact ⟨c, rfl⟩
  | symbol | unary | binary | call => cases h

/-- Where a tree compiles, its symbols are resolved. -/
theorem resolve?_of_compile {code : Bytecode α} (h : e.compile scope = .ok code) {name : String}
    (hname : name ∈ e.occurrences) : ∃ load : Instruction α, scope.resolve? name = some load := by
  induction e generalizing code with
  | const value => cases hname
  | symbol other =>
    obtain rfl : name = other := by simpa [occurrences] using hname
    rw [compile] at h
    split at h
    · next load hload => exact ⟨load, hload⟩
    · cases h
  | unary op operand ih =>
    obtain ⟨inner, hinner, -⟩ := Outcome.bind_eq_ok.1 h
    exact ih hinner hname
  | binary op left right ihl ihr =>
    by_cases hop : op = .pow
    · subst hop
      obtain ⟨codel, hl, ⟨n, hn, -⟩ | ⟨-, coder, hr, -⟩⟩ := compile_pow_eq_ok h
      · obtain ⟨c, rfl⟩ := exists_const_of_wholeExponent? hn
        exact ihl hl (by simpa [occurrences] using hname)
      · exact (List.mem_append.1 hname).elim (ihl hl) (ihr hr)
    · obtain ⟨codel, coder, hl, hr, -⟩ := compile_binary_eq_ok hop h
      exact (List.mem_append.1 hname).elim (ihl hl) (ihr hr)
  | call function args ih =>
    obtain ⟨arg, f, inner, rfl, -, harg, -⟩ | ⟨first, second, f, codel, coder, rfl, -, hl, hr, -⟩ :=
      compile_call_eq_ok h
    · exact ih arg (by simp) harg (by simpa [occurrences, occurrencesAll] using hname)
    · have hmem : name ∈ first.occurrences ∨ name ∈ second.occurrences := by
        simpa [occurrences, occurrencesAll] using hname
      exact hmem.elim (ih first (by simp) hl) (ih second (by simp) hr)

end Expr

namespace CompiledFunction

variable {e d : Expr α} {vars : List String} {p q : Parameters α} {f : CompiledFunction α}

/-- No parameter of a function that was compiled is named like a constant. -/
theorem free_of_ofExpr (h : ofExpr e vars p = .ok f) : p.Unreserved := by
  unfold ofExpr at h
  split at h
  · cases h
  · next hfind =>
    intro name hname
    have hsome := List.find?_eq_none.1 hfind name hname
    simpa using hsome

/-- With no parameter that is named like a constant, a tree is compiled if it has code: the check of
the parameters, which comes first, is passed. -/
theorem ofExpr_of_unreserved (hp : p.Unreserved) (e : Expr α) (vars : List String) :
    ofExpr e vars p = (e.compile ⟨vars, p.names⟩).map (⟨·, vars.length⟩) := by
  have hfind : (p.names.find? fun name => (Scalar.named? name : Option α).isSome) = none :=
    List.find?_eq_none.2 fun name hname => by simp [hp name hname]
  unfold ofExpr
  rw [hfind]
  cases e.compile ⟨vars, p.names⟩ <;> rfl

/-- Over a store with which one tree was compiled, every tree can be whose code there is. -/
theorem exists_ofExpr (h : ofExpr e vars p = .ok f)
    (hd : ∃ code, d.compile ⟨vars, p.names⟩ = .ok code) :
    ∃ g, ofExpr d vars p = .ok g := by
  obtain ⟨code, hcode⟩ := hd
  exact ⟨⟨code, vars.length⟩, by rw [ofExpr_of_unreserved (free_of_ofExpr h), hcode]; rfl⟩

/-- When a tree was compiled against an earlier state of a store, all trees without other symbols
compile or fail against a later one as they did against the earlier one. -/
theorem ofExpr_extends (h : ofExpr e vars p = .ok f) (hpq : p.Extends q) (hq : q.Unreserved)
    (hsymbols : ∀ name ∈ d.occurrences, name ∈ e.occurrences) :
    ofExpr d vars q = ofExpr d vars p := by
  rw [ofExpr_of_unreserved hq, ofExpr_of_unreserved (free_of_ofExpr h)]
  refine congrArg _ (Expr.compile_congr fun name hname => ?_)
  obtain ⟨load, hload⟩ := Expr.resolve?_of_compile (ofExpr_eq_ok h).1 (hsymbols name hname)
  rw [hload]
  exact Scope.resolve?_extends hpq hq hload

/-! ## Values -/

/-- The call of a compiled function is the value of its tree. -/
theorem value?_eq_call (h : ofExpr e vars p = .ok f) {params args : List α}
    (hparams : p.names.length ≤ params.length) (hargs : args.length = vars.length) :
    e.value? (Scope.lookup ⟨vars, p.names⟩ args params) = some (f.call params args) := by
  obtain ⟨hcode, harity⟩ := ofExpr_eq_ok h
  obtain ⟨value, hvalue, hpush⟩ := Expr.pushes_compile
    (fun name load h => Scope.step?_lookup hargs hparams h) hcode
  rw [hvalue, call, callOn, if_pos (hargs.trans harity.symm), executeOn_of_pushes hpush]

/-- With the numbers of a later state of the store, too. -/
theorem valueOf?_eq_call (h : ofExpr e vars p = .ok f) (hpq : p.Extends q) (args : List α)
    (hargs : args.length = vars.length) :
    e.value? (Scope.valueOf? ⟨vars, p.names⟩ args q) = some (f.call q.values args) := by
  rw [funext (Scope.valueOf?_eq_lookup hargs rfl hpq)]
  exact value?_eq_call h hpq.length_values_le hargs

end CompiledFunction

end SurfaceGeometry
