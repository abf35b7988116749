import SurfaceGeometry.Proofs.Shader.Scanning

/-!
# What the text of a term is read as

`Shader.Spells text e` says that a text, in front of whatever does not go on with it, is read as the
operand `e` of an operator. There is one lemma for each way in which terms are put together, and
with them the text of a term is read as `Shader.Term.tree` says (`Shader.Translates.spells`).
-/

namespace SurfaceGeometry

namespace Shader

open Token (Apart apart_nil apart_blank apart_open apart_close apart_comma)

variable {α : Type}

section

variable {kinds : List (TokenKind α)} {e : Expr α}

/-- An operand is an expression of every level of chains, and an operand of it. -/
theorem Forms.chain (h : Forms .signed kinds e) (level : BinaryLevel) :
    Forms (.chain level) kinds e ∧ Forms level.operand kinds e := by
  have hproduct : Forms (.chain .product) kinds e := .operand h
  have hsum : Forms (.chain .sum) kinds e := .operand hproduct
  have hconjunction : Forms (.chain .conjunction) kinds e := .operand hsum
  cases level with
  | product => exact ⟨hproduct, h⟩
  | sum => exact ⟨hsum, hproduct⟩
  | conjunction => exact ⟨hconjunction, hsum⟩
  | disjunction => exact ⟨.operand hconjunction, hconjunction⟩

/-- A chain of any level is an expression. -/
theorem Forms.whole {level : BinaryLevel} (h : Forms (.chain level) kinds e) :
    Forms (.chain .disjunction) kinds e := by
  cases level with
  | product => exact .operand (.operand (.operand h))
  | sum => exact .operand (.operand h)
  | conjunction => exact .operand h
  | disjunction => exact h

end

/-! ## Operators -/

/-- The operator of the expression language. -/
def PrefixOp.toUnary : PrefixOp → UnaryOp
  | minus => .neg
  | negation => .not

/-- The operator of the expression language. -/
def InnerOp.toBinary : InnerOp → BinaryOp
  | add => .add
  | sub => .sub
  | mul => .mul
  | div => .div
  | conjunction => .and
  | disjunction => .or

/-- The level at which an operator stands between its operands. -/
def InnerOp.level : InnerOp → BinaryLevel
  | add | sub => .sum
  | mul | div => .product
  | conjunction => .conjunction
  | disjunction => .disjunction

/-- An operator of the shader stands at its level of the grammar. -/
theorem InnerOp.operator? (op : InnerOp) :
    op.level.operator? (.ofBinary op.toBinary : TokenKind α) = some op.toBinary := by
  cases op <;> rfl

variable [Scalar α]

/-- A text is scanned to tokens in front of whatever does not go on with it. -/
def Writes (text : String) (kinds : List (TokenKind α)) : Prop :=
  ∀ rest ks, Apart rest → scan rest = some ks → scan (text.toList ++ rest) = some (kinds ++ ks)

/-- A text is read as an operand, and starts with no equality sign, which would make another sign of
the one in front of it. -/
structure Spells (text : String) (e : Expr α) : Prop where
  written : ∃ kinds, Writes text kinds ∧ Forms .signed kinds e
  head : ∃ c ∈ text.toList.head?, c ≠ '='

/-- A whole text that is read as an operand is an expression. -/
theorem Spells.reads {text : String} {e : Expr α} (h : Spells text e) : Reads text e := by
  obtain ⟨kinds, hwrites, hforms⟩ := h.written
  have hscan := hwrites [] [] apart_nil scan_nil
  rw [List.append_nil, List.append_nil] at hscan
  exact ⟨kinds, hscan, (hforms.chain .disjunction).1⟩

/-! ## Signs -/

/-- An opening bracket is scanned. -/
theorem scan_open {rest : List Char} {ks : List (TokenKind α)} (h : scan rest = some ks) :
    scan ('(' :: rest) = some (.openParen :: ks) :=
  scan_char rfl (fun d _ => by simp [pairs]) h

/-- A closing bracket is scanned. -/
theorem scan_close {rest : List Char} {ks : List (TokenKind α)} (h : scan rest = some ks) :
    scan (')' :: rest) = some (.closeParen :: ks) :=
  scan_char rfl (fun d _ => by simp [pairs]) h

/-- A comma is scanned. -/
theorem scan_comma {rest : List Char} {ks : List (TokenKind α)} (h : scan rest = some ks) :
    scan (',' :: rest) = some (.comma :: ks) :=
  scan_char rfl (fun d _ => by simp [pairs]) h

/-- A binary operator with its blanks. -/
theorem scan_inner (op : InnerOp) {rest : List Char} {ks : List (TokenKind α)}
    (h : scan rest = some ks) :
    scan ((" " ++ op.text ++ " ").toList ++ rest) = some (.ofBinary op.toBinary :: ks) := by
  have hblank := scan_blank h
  have hpair : ∀ c, ∀ d ∈ (' ' :: rest).head?, (c, d) ∉ pairs := by
    rintro c _ ⟨⟩
    simp [pairs]
  cases op with
  | add => exact scan_blank (scan_char (c := '+') rfl (hpair _) hblank)
  | sub => exact scan_blank (scan_char (c := '-') rfl (hpair _) hblank)
  | mul => exact scan_blank (scan_char (c := '*') rfl (hpair _) hblank)
  | div => exact scan_blank (scan_char (c := '/') rfl (hpair _) hblank)
  | conjunction =>
    exact scan_blank
      (scan_pair (c := '&') (d := '&') (by simp [signs]) (by simp [pairs]) rfl hblank)
  | disjunction =>
    exact scan_blank
      (scan_pair (c := '|') (d := '|') (by simp [signs]) (by simp [pairs]) rfl hblank)

/-! ## Texts -/

/-- A word is written as the token of a name. -/
theorem writes_name {name : String} (h : Text.IsWord name) :
    Writes name [(.identifier name : TokenKind α)] := by
  obtain ⟨c, cs, rfl, hstart, hword⟩ := h
  intro rest ks hrest hscan
  rw [String.toList_ofList]
  exact scan_word hstart hword hrest hscan

omit [Scalar α] in
/-- A word does not start with an equality sign. -/
theorem head_of_isWord {name : String} (h : Text.IsWord name) :
    ∃ c ∈ name.toList.head?, c ≠ '=' := by
  obtain ⟨c, cs, rfl, hstart, -⟩ := h
  refine ⟨c, by simp, ?_⟩
  rintro rfl
  rw [show Text.startsWord '=' = false by decide +kernel] at hstart
  cases hstart

/-- A word spells a symbol. -/
theorem spells_name {name : String} (h : Text.IsWord name) : Spells name (.symbol name : Expr α) :=
  ⟨⟨_, writes_name h, .unsigned (.name name)⟩, head_of_isWord h⟩

/-- A text in brackets is written with the tokens of the brackets. -/
theorem Writes.bracketed {text : String} {kinds : List (TokenKind α)} (h : Writes text kinds) :
    Writes ("(" ++ text ++ ")") (.openParen :: (kinds ++ [.closeParen])) := by
  intro rest ks _ hscan
  have hinner := h _ _ apart_close (scan_close hscan)
  simpa [String.toList_append] using scan_open hinner

/-- Two texts with an operator between them. -/
theorem Writes.inner {left right : String} {lefts rights : List (TokenKind α)}
    (hleft : Writes left lefts) (hright : Writes right rights) (op : InnerOp) :
    Writes (left ++ (" " ++ op.text ++ " ") ++ right)
      (lefts ++ .ofBinary op.toBinary :: rights) := by
  intro rest ks hrest hscan
  have hop := scan_inner op (hright rest ks hrest hscan)
  have hall := hleft _ _ (by cases op <;> exact apart_blank) hop
  simpa [String.toList_append] using hall

/-- A whole expression in brackets is an operand. -/
theorem spells_bracketed {text : String} {kinds : List (TokenKind α)} {e : Expr α}
    (hwrites : Writes text kinds) (hforms : Forms (.chain .disjunction) kinds e) :
    Spells ("(" ++ text ++ ")") e :=
  ⟨⟨_, hwrites.bracketed, .unsigned (.bracketed hforms)⟩, '(', by simp [String.toList_append],
    by decide⟩

/-- A text in brackets spells the same tree. -/
theorem Spells.bracketed {text : String} {e : Expr α} (h : Spells text e) :
    Spells ("(" ++ text ++ ")") e := by
  obtain ⟨kinds, hwrites, hforms⟩ := h.written
  exact spells_bracketed hwrites (hforms.chain .disjunction).1

/-- A prefix operator in front of an operand with whose first character it makes no other sign. -/
theorem Spells.after {text : String} {e : Expr α} (h : Spells text e) (op : PrefixOp)
    (hhead : ∀ c ∈ text.toList.head?, c ≠ '-') :
    Spells (op.text ++ text) (.unary op.toUnary e) := by
  obtain ⟨kinds, hwrites, hforms⟩ := h.written
  obtain ⟨c, hc, hequal⟩ := h.head
  obtain ⟨cs, htext⟩ : ∃ cs, text.toList = c :: cs := List.head?_eq_some_iff.1 hc
  have hminus := hhead c hc
  refine ⟨⟨_, fun rest ks hrest hscan => ?_, .unary hforms⟩, ?_⟩
  · have hoperand := hwrites rest ks hrest hscan
    rw [htext, List.cons_append] at hoperand
    rw [String.toList_append, htext]
    cases op with
    | minus =>
      refine scan_char (c := '-') rfl ?_ hoperand
      rintro _ ⟨⟩
      simp [pairs, hminus, hequal]
    | negation =>
      refine scan_char (c := '!') rfl ?_ hoperand
      rintro _ ⟨⟩
      simp [pairs, hequal]
  · rw [String.toList_append]
    cases op with
    | minus => exact ⟨'-', rfl, by decide⟩
    | negation => exact ⟨'!', rfl, by decide⟩

/-- A prefix operator, its operand in brackets if an arithmetic operator shows in it. -/
theorem Spells.prefixed {text : String} {e : Expr α} (h : Spells text e) (op : PrefixOp) :
    Spells (op.text ++ if showsOperator text then "(" ++ text ++ ")" else text)
      (.unary op.toUnary e) := by
  split
  · refine h.bracketed.after op ?_
    rintro c hc rfl
    simp [String.toList_append] at hc
  · next hshows =>
    refine h.after op ?_
    rintro c hc rfl
    refine hshows (List.any_eq_true.2 ⟨'-', List.mem_of_mem_head? hc, by decide⟩)

/-- Two operands and an operator in brackets. -/
theorem Spells.operation {left right : String} {a b : Expr α} (hleft : Spells left a)
    (hright : Spells right b) (op : InnerOp) :
    Spells ("(" ++ left ++ " " ++ op.text ++ " " ++ right ++ ")") (.binary op.toBinary a b) := by
  obtain ⟨lefts, hwritel, hformsl⟩ := hleft.written
  obtain ⟨rights, hwriter, hformsr⟩ := hright.written
  have hforms := Forms.binary op.operator? (hformsl.chain op.level).1 (hformsr.chain op.level).2
  simpa [String.append_assoc] using spells_bracketed (hwritel.inner hwriter op) hforms.whole

/-- A product of three factors in brackets. -/
theorem Spells.cube {text : String} {e : Expr α} (h : Spells text e) :
    Spells ("(" ++ text ++ " * " ++ text ++ " * " ++ text ++ ")")
      (.binary .mul (.binary .mul e e) e) := by
  obtain ⟨kinds, hwrites, hforms⟩ := h.written
  have hsquare : Forms (.chain .product) _ (.binary .mul e e) :=
    .binary (InnerOp.operator? .mul) (hforms.chain .product).1 hforms
  have hcube : Forms (.chain .product) _ (.binary .mul (.binary .mul e e) e) :=
    .binary (InnerOp.operator? .mul) hsquare hforms
  have hwritten := (hwrites.inner hwrites .mul).inner hwrites .mul
  simpa [String.append_assoc, InnerOp.text] using spells_bracketed hwritten hcube.whole

/-- A call whose arguments are written with commas between them. -/
theorem spells_call {name inner : String} {segments : List (List (TokenKind α) × Expr α)}
    (hname : Text.IsWord name) (hne : segments ≠ [])
    (hwrites : Writes inner (TokenKind.commaSeparated (segments.map Prod.fst)))
    (hforms : ∀ segment ∈ segments, Forms .signed segment.1 segment.2) :
    Spells (name ++ "(" ++ inner ++ ")") (.call name (segments.map Prod.snd)) := by
  have hcall := Forms.call name hne fun segment hmem =>
    ((hforms segment hmem).chain .disjunction).1
  refine ⟨⟨_, fun rest ks hrest hscan => ?_, .unsigned hcall⟩, ?_⟩
  · have hinner := hwrites _ _ apart_close (scan_close hscan)
    have hopen := writes_name hname _ _ apart_open (scan_open hinner)
    simpa [String.toList_append] using hopen
  · obtain ⟨c, hc, hequal⟩ := head_of_isWord hname
    refine ⟨c, ?_, hequal⟩
    rw [String.toList_append, String.toList_append, String.toList_append, List.append_assoc,
      List.append_assoc, List.head?_append, hc]
    rfl

/-- A word and a text in brackets spell a call. -/
theorem Spells.call {text name : String} {e : Expr α} (h : Spells text e)
    (hname : Text.IsWord name) : Spells (name ++ "(" ++ text ++ ")") (.call name [e]) := by
  obtain ⟨kinds, hwrites, hforms⟩ := h.written
  exact @spells_call α _ name text [(kinds, e)] hname (by simp) hwrites (by simpa using hforms)

/-- A word and two texts in brackets, with a comma between them, spell a call. -/
theorem Spells.call₂ {first second name : String} {a b : Expr α} (hfirst : Spells first a)
    (hsecond : Spells second b) (hname : Text.IsWord name) :
    Spells (name ++ "(" ++ (first ++ ", " ++ second) ++ ")") (.call name [a, b]) := by
  obtain ⟨firsts, hwritef, hformsf⟩ := hfirst.written
  obtain ⟨seconds, hwrites, hformss⟩ := hsecond.written
  refine @spells_call α _ name _ [(firsts, a), (seconds, b)] hname (by simp) ?_ ?_
  · intro rest ks hrest hscan
    have hcomma := scan_comma (scan_blank (hwrites rest ks hrest hscan))
    have hall := hwritef _ _ apart_comma hcomma
    simpa [TokenKind.commaSeparated, String.toList_append] using hall
  · simpa using ⟨hformsf, hformss⟩

/-! ## Numbers -/

variable [NumberText α]

/-- The text of a number without a sign is a number with a point and reads back. -/
def Legible (magnitude : α) : Prop :=
  NumberLexeme.Plain (magnitudeText magnitude).toList ∧ '.' ∈ (magnitudeText magnitude).toList ∧
    ∃ d, Decimal.ofText? (magnitudeText magnitude).toList = some d ∧ Scalar.ofDecimal d = magnitude

/-- What the text of a number is read as: the number, or the negation of its magnitude. -/
def literalTree (value : α) : Expr α :=
  if value < 0 then .unary .neg (.const (Scalar.abs value)) else .const (Scalar.abs value)

/-- The text of a number without a sign spells the number. -/
theorem spells_magnitude {magnitude : α} (h : Legible magnitude) :
    Spells (magnitudeText magnitude) (.const magnitude) := by
  obtain ⟨hplain, hpoint, d, hd, rfl⟩ := h
  refine ⟨⟨_, fun rest ks hrest hscan => ?_, .unsigned (.number _)⟩, ?_⟩
  · exact scan_number hplain hpoint hd hrest hscan
  · obtain ⟨c, cs, htext, hdigit⟩ := hplain.exists_cons
    refine ⟨c, by simp [htext], ?_⟩
    rintro rfl
    cases hdigit

/-- The text of a number spells it, or the negation of its magnitude. -/
theorem spells_literal {value : α} (h : Legible (Scalar.abs value)) :
    Spells (literalText value) (literalTree value) := by
  have hmagnitude := spells_magnitude h
  unfold literalText literalTree
  dsimp only
  split
  · have hminus : Spells ("-" ++ magnitudeText (Scalar.abs value))
        (.unary .neg (.const (Scalar.abs value))) := by
      refine hmagnitude.after .minus ?_
      obtain ⟨c, cs, htext, hdigit⟩ := h.1.exists_cons
      rw [htext]
      rintro _ ⟨⟩ rfl
      cases hdigit
    have hopen : "(-" = "(" ++ "-" := rfl
    have hspells := hminus.bracketed
    rw [← String.append_assoc, ← hopen] at hspells
    exact hspells
  · exact hmagnitude

end Shader

end SurfaceGeometry
