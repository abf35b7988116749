import SurfaceGeometry.Proofs.Outcome
import SurfaceGeometry.Proofs.Shader.Text
import Mathlib.Data.List.Forall2

/-!
# Trees and terms of a shader

`Shader.Translates e t` has one rule for each way in which a tree becomes a term of a shader, and a
successful translation is one of them (`Shader.translates_ofExpr`). The text of a term that a tree
with words as names was translated to is read as the term with its signs and products spelled out
(`Shader.Term.tree`, `Shader.Translates.spells`).
-/

namespace SurfaceGeometry

namespace Shader

open Term (ofNumber ofCall ofPower ofExpr ofExprs innerOp? prefixOp sharedUnary sharedBinary)

variable {α : Type} [Scalar α]

/-- A tree becomes a term of a shader. -/
inductive Translates : Expr α → Term α → Prop where
  | const {value} (finite : Scalar.isFinite value = true) :
      Translates (.const value) (.literal value)
  /-- A named constant is written out. -/
  | constant {name value} (named : Scalar.named? name = some value)
      (finite : Scalar.isFinite value = true) : Translates (.symbol name) (.literal value)
  | name {name} (free : (Scalar.named? name : Option α) = none) :
      Translates (.symbol name) (.name name)
  | unary {op operand t} (h : Translates operand t) :
      Translates (.unary op operand) (.prefixed (prefixOp op) t)
  | binary {op inner left right t u} (operator : innerOp? op = some inner)
      (hleft : Translates left t) (hright : Translates right u) :
      Translates (.binary op left right) (.operation inner t u)
  | powZero {base value t} (zero : (value == 0) = true) (h : Translates base t) :
      Translates (.binary .pow base (.const value)) (.literal 1)
  | powOne {base value t} (one : (value == 1) = true) (h : Translates base t) :
      Translates (.binary .pow base (.const value)) t
  | powTwo {base value t} (two : (value == 2) = true) (h : Translates base t) :
      Translates (.binary .pow base (.const value)) (.operation .mul t t)
  | powThree {base value t} (three : (value == 3) = true) (h : Translates base t) :
      Translates (.binary .pow base (.const value)) (.cube t)
  | pow {base exponent t u} (hbase : Translates base t) (hexponent : Translates exponent u) :
      Translates (.binary .pow base exponent) (.call "pow" [t, u])
  | ln {name arg t} (hname : name = "log" ∨ name = "ln") (h : Translates arg t) :
      Translates (.call name [arg]) (.call "log" [t])
  | log10 {arg t} (finite : Scalar.isFinite (Scalar.lnTen : α) = true) (h : Translates arg t) :
      Translates (.call "log10" [arg]) (.operation .div (.call "log" [t]) (.literal Scalar.lnTen))
  | shared {name arg t} (hname : name ∈ sharedUnary) (h : Translates arg t) :
      Translates (.call name [arg]) (.call name [t])
  /-- The logarithm to a base is a quotient. -/
  | log {arg base t u} (harg : Translates arg t) (hbase : Translates base u) :
      Translates (.call "log" [arg, base]) (.operation .div (.call "log" [t]) (.call "log" [u]))
  | atan2 {first second t u} (hfirst : Translates first t) (hsecond : Translates second u) :
      Translates (.call "atan2" [first, second]) (.call "atan" [t, u])
  | sharedTwo {name first second t u} (hname : name ∈ sharedBinary) (hfirst : Translates first t)
      (hsecond : Translates second u) : Translates (.call name [first, second]) (.call name [t, u])

/-! ## Successful translations -/

/-- Only finite numbers are written, as literals. -/
theorem ofNumber_eq_ok {value : α} {t : Term α} (h : ofNumber value = .ok t) :
    Scalar.isFinite value = true ∧ t = .literal value := by
  unfold ofNumber at h
  split at h
  · next hfinite =>
    cases h
    exact ⟨hfinite, rfl⟩
  · cases h

/-- Arguments are translated one by one. -/
theorem translates_ofExprs {args : List (Expr α)} {terms : List (Term α)}
    (hargs : ∀ arg ∈ args, ∀ t, ofExpr arg = .ok t → Translates arg t)
    (h : ofExprs args = .ok terms) : List.Forall₂ Translates args terms := by
  induction args generalizing terms with
  | nil =>
    cases h
    exact .nil
  | cons arg args ih =>
    rw [ofExprs] at h
    obtain ⟨t, ht, h⟩ := Outcome.bind_eq_ok.1 h
    obtain ⟨rest, hrest, h⟩ := Outcome.bind_eq_ok.1 h
    cases h
    exact .cons (hargs arg (List.mem_cons_self ..) t ht)
      (ih (fun arg hmem => hargs arg (List.mem_cons_of_mem _ hmem)) hrest)

/-- A power becomes one of five terms. -/
theorem translates_ofPower {base exponent : Expr α} {t u : Term α} (hbase : Translates base t)
    (hexponent : ∀ u, ofExpr exponent = .ok u → Translates exponent u)
    (h : ofPower t exponent.constant? (ofExpr exponent) = .ok u) :
    Translates (.binary .pow base exponent) u := by
  have hgeneral : ∀ u, (do return .call "pow" [t, ← ofExpr exponent] :
      Except (ExprError α) (Term α)) = .ok u → Translates (.binary .pow base exponent) u := by
    intro u h
    obtain ⟨power, hpower, h⟩ := Outcome.bind_eq_ok.1 h
    cases h
    exact .pow hbase (hexponent power hpower)
  cases exponent with
  | const value =>
    unfold ofPower at h
    dsimp only [Expr.constant?] at h
    split at h
    · next hzero =>
      cases h
      exact .powZero hzero hbase
    · split at h
      · next hone =>
        cases h
        exact .powOne hone hbase
      · split at h
        · next htwo =>
          cases h
          exact .powTwo htwo hbase
        · split at h
          · next hthree =>
            cases h
            exact .powThree hthree hbase
          · exact hgeneral u h
  | symbol | unary | binary | call => exact hgeneral u h

/-- A call becomes a call or a quotient. -/
theorem translates_ofCall {name : String} {args : List (Expr α)} {terms : List (Term α)}
    {u : Term α} (hargs : List.Forall₂ Translates args terms) (h : ofCall name terms = .ok u) :
    Translates (.call name args) u := by
  match args, terms, hargs with
  | [], [], _ => cases h
  | [arg], [t], .cons harg _ =>
    rw [ofCall] at h
    split at h
    · next hname =>
      cases h
      exact .ln hname harg
    · split at h
      · next hname =>
        obtain ⟨ten, hten, h⟩ := Outcome.bind_eq_ok.1 h
        obtain ⟨hfinite, rfl⟩ := ofNumber_eq_ok hten
        cases h
        subst hname
        exact .log10 hfinite harg
      · split at h
        · next hname =>
          cases h
          exact .shared hname harg
        · cases h
  | [first, second], [t, u], .cons hfirst (.cons hsecond _) =>
    rw [ofCall] at h
    split at h
    · next hname =>
      cases h
      subst hname
      exact .log hfirst hsecond
    · split at h
      · next hname =>
        cases h
        subst hname
        exact .atan2 hfirst hsecond
      · split at h
        · next hname =>
          cases h
          exact .sharedTwo hname hfirst hsecond
        · cases h
  | _ :: _ :: _ :: _, _ :: _ :: _ :: _, _ => cases h

/-- What a tree is translated to. -/
theorem translates_ofExpr {e : Expr α} {t : Term α} (h : ofExpr e = .ok t) : Translates e t := by
  induction e generalizing t with
  | const value =>
    rw [ofExpr] at h
    obtain ⟨hfinite, rfl⟩ := ofNumber_eq_ok h
    exact .const hfinite
  | symbol name =>
    rw [ofExpr] at h
    split at h
    · next value hnamed =>
      obtain ⟨hfinite, rfl⟩ := ofNumber_eq_ok h
      exact .constant hnamed hfinite
    · next hfree =>
      cases h
      exact .name hfree
  | unary op operand ih =>
    rw [ofExpr] at h
    obtain ⟨inner, hinner, h⟩ := Outcome.bind_eq_ok.1 h
    cases h
    exact .unary (ih hinner)
  | binary op left right ihleft ihright =>
    rw [ofExpr] at h
    split at h
    · next inner hop =>
      obtain ⟨first, hfirst, h⟩ := Outcome.bind_eq_ok.1 h
      obtain ⟨second, hsecond, h⟩ := Outcome.bind_eq_ok.1 h
      cases h
      exact .binary hop (ihleft hfirst) (ihright hsecond)
    · next hop =>
      obtain ⟨base, hbase, h⟩ := Outcome.bind_eq_ok.1 h
      have hpow : op = .pow := by
        cases op <;> first | rfl | cases hop
      subst hpow
      exact translates_ofPower (ihleft hbase) (fun u hu => ihright hu) h
  | call name args ih =>
    rw [ofExpr] at h
    obtain ⟨terms, hterms, h⟩ := Outcome.bind_eq_ok.1 h
    exact translates_ofCall (translates_ofExprs (fun arg hmem t ht => ih arg hmem ht) hterms) h

/-! ## Texts of terms -/

mutual

/-- What the text of a term is read as. -/
def Term.tree : Term α → Expr α
  | .literal value => literalTree value
  | .name text => .symbol text
  | .prefixed op operand => .unary op.toUnary operand.tree
  | .operation op left right => .binary op.toBinary left.tree right.tree
  | .cube base => .binary .mul (.binary .mul base.tree base.tree) base.tree
  | .call function args => .call function (treeAll args)

/-- What the texts of the terms of a list are read as. -/
def Term.treeAll : List (Term α) → List (Expr α)
  | [] => []
  | arg :: args => arg.tree :: treeAll args

end

/-- Whether a text consists of small letters, one at least. -/
def isLowerWord (text : String) : Bool :=
  !text.toList.isEmpty && text.toList.all Text.isLower

/-- A text of small letters is a word. -/
theorem isWord_of_isLowerWord {text : String} (h : isLowerWord text = true) : Text.IsWord text := by
  simp only [isLowerWord, Bool.and_eq_true, Bool.not_eq_true', List.isEmpty_eq_false_iff,
    List.all_eq_true] at h
  obtain ⟨c, cs, htext⟩ := List.exists_cons_of_ne_nil h.1
  rw [htext] at h
  refine ⟨c, cs, ?_, Text.startsWord_of_isLower (h.2 c (List.mem_cons_self ..)), fun d hd =>
    Text.isWordChar_of_isLower (h.2 d (List.mem_cons_of_mem _ hd))⟩
  rw [← htext, String.ofList_toList]

/-- The names of the functions that a shader shares are words. -/
theorem isWord_of_mem_shared {name : String} (h : name ∈ sharedUnary ∨ name ∈ sharedBinary) :
    Text.IsWord name := by
  have hall : (sharedUnary ++ sharedBinary).all isLowerWord = true := by decide +kernel
  exact isWord_of_isLowerWord (List.all_eq_true.1 hall name (List.mem_append.2 h))

/-- The text of a term is read as the term, if numbers are legible and names are words. -/
theorem Translates.spells [NumberText α] {e : Expr α} {t : Term α} (h : Translates e t)
    (hnumbers : ∀ value : α, Scalar.isFinite value = true → Legible (Scalar.abs value))
    (hone : Scalar.isFinite (1 : α) = true) (hnames : ∀ name ∈ e.occurrences, Text.IsWord name) :
    Spells t.text t.tree := by
  have hpow : Text.IsWord "pow" := isWord_of_isLowerWord (by decide +kernel)
  have hlog : Text.IsWord "log" := isWord_of_isLowerWord (by decide +kernel)
  have hatan : Text.IsWord "atan" := isWord_of_isLowerWord (by decide +kernel)
  induction h with
  | const finite | constant _ finite => exact spells_literal (hnumbers _ finite)
  | @name name _ => exact spells_name (hnames name (by simp [Expr.occurrences]))
  | unary _ ih => exact (ih hnames).prefixed _
  | binary _ _ _ ihleft ihright =>
    simp only [Expr.occurrences, List.forall_mem_append] at hnames
    exact (ihleft hnames.1).operation (ihright hnames.2) _
  | powZero => exact spells_literal (hnumbers 1 hone)
  | powOne _ _ ih =>
    simp only [Expr.occurrences, List.append_nil] at hnames
    exact ih hnames
  | powTwo _ _ ih =>
    simp only [Expr.occurrences, List.append_nil] at hnames
    exact (ih hnames).operation (ih hnames) .mul
  | powThree _ _ ih =>
    simp only [Expr.occurrences, List.append_nil] at hnames
    exact (ih hnames).cube
  | pow _ _ ihbase ihexponent =>
    simp only [Expr.occurrences, List.forall_mem_append] at hnames
    exact (ihbase hnames.1).call₂ (ihexponent hnames.2) hpow
  | ln _ _ ih =>
    simp only [Expr.occurrences, Expr.occurrencesAll, List.append_nil] at hnames
    exact (ih hnames).call hlog
  | log10 finite _ ih =>
    simp only [Expr.occurrences, Expr.occurrencesAll, List.append_nil] at hnames
    exact ((ih hnames).call hlog).operation (spells_literal (hnumbers _ finite)) .div
  | shared hname _ ih =>
    simp only [Expr.occurrences, Expr.occurrencesAll, List.append_nil] at hnames
    exact (ih hnames).call (isWord_of_mem_shared (.inl hname))
  | log _ _ iharg ihbase =>
    simp only [Expr.occurrences, Expr.occurrencesAll, List.append_nil, List.forall_mem_append]
      at hnames
    exact ((iharg hnames.1).call hlog).operation ((ihbase hnames.2).call hlog) .div
  | atan2 _ _ ihfirst ihsecond =>
    simp only [Expr.occurrences, Expr.occurrencesAll, List.append_nil, List.forall_mem_append]
      at hnames
    exact (ihfirst hnames.1).call₂ (ihsecond hnames.2) hatan
  | sharedTwo hname _ _ ihfirst ihsecond =>
    simp only [Expr.occurrences, Expr.occurrencesAll, List.append_nil, List.forall_mem_append]
      at hnames
    exact (ihfirst hnames.1).call₂ (ihsecond hnames.2) (isWord_of_mem_shared (.inr hname))

end Shader

end SurfaceGeometry
