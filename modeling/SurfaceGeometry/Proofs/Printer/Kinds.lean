import SurfaceGeometry.Expr.Printer
import SurfaceGeometry.Proofs.Token.Scanning

/-!
# The tokens of a printed tree

`Expr.Writable` says of which trees the printed text can be read at all: every constant has a text
that reads back, every name is a word, and every call has an argument. The text of such a tree is
scanned to the tokens `Expr.kinds`, which have the brackets and the signs of the text
(`Expr.writes_text`).
-/

namespace SurfaceGeometry

/-- A word that is read as a name. -/
def Text.IsName (name : String) : Prop :=
  ∃ c cs, name = String.ofList (c :: cs) ∧ Text.startsWord c = true ∧
    (∀ d ∈ cs, Text.isWordChar d = true) ∧ name ∉ ["and", "or", "not"]

namespace NumberText

variable {α : Type} [Scalar α] [NumberText α]

/-- The text of a number is a number without sign and exponent, and reads back as the number. -/
def ReadsBack (x : α) : Prop :=
  NumberLexeme.Plain (positional x).toList ∧
    ∃ d, Decimal.ofText? (positional x).toList = some d ∧ Scalar.ofDecimal d = x

/-- The text of a number reads back, behind a sign if the number is negative. -/
def Spelled (x : α) : Prop :=
  if x < 0 then positional x = "-" ++ positional (-x) ∧ ReadsBack (-x) else ReadsBack x

end NumberText

namespace Expr

variable {α : Type}

/-- Every constant has a property, every name is a word, and every call has an argument. -/
inductive Writable (p : α → Prop) : Expr α → Prop where
  | const {value} (h : p value) : Writable p (const value)
  | symbol {name} (h : Text.IsName name) : Writable p (symbol name)
  | unary {op operand} (h : Writable p operand) : Writable p (unary op operand)
  | binary {op left right} (hleft : Writable p left) (hright : Writable p right) :
      Writable p (binary op left right)
  | call {name args} (hname : Text.IsName name) (hne : args ≠ [])
      (hargs : ∀ arg ∈ args, Writable p arg) : Writable p (call name args)

/-- A weaker property may be asked of the constants. -/
theorem Writable.mono {p q : α → Prop} (h : ∀ value, p value → q value) {e : Expr α}
    (he : Writable p e) : Writable q e := by
  induction he with
  | const hvalue => exact .const (h _ hvalue)
  | symbol hname => exact .symbol hname
  | unary _ ih => exact .unary ih
  | binary _ _ ihleft ihright => exact .binary ihleft ihright
  | call hname hne _ ih => exact .call hname hne ih

variable [Scalar α]

mutual

/-- Writes every negative constant as the negation of a constant. -/
def signed : Expr α → Expr α
  | const value => if value < 0 then unary .neg (const (-value)) else const value
  | symbol name => symbol name
  | unary op operand => unary op operand.signed
  | binary op left right => binary op left.signed right.signed
  | call name args => call name (signedAll args)

/-- Writes every negative constant in a list of trees as the negation of a constant. -/
def signedAll : List (Expr α) → List (Expr α)
  | [] => []
  | arg :: args => arg.signed :: signedAll args

end

/-- Signs are written tree by tree. -/
theorem signedAll_eq (args : List (Expr α)) : signedAll args = args.map signed := by
  induction args with
  | nil => rfl
  | cons arg args ih => simp [signedAll, ih]

end Expr

/-- The token of a binary operator. -/
def TokenKind.ofBinary {α : Type} : BinaryOp → TokenKind α
  | .add => plus
  | .sub => minus
  | .mul => star
  | .div => slash
  | .pow => caret
  | .and => and
  | .or => or

namespace Expr

variable {α : Type} [Scalar α]

/-- Puts tokens in brackets when they need them. -/
def bracketedKinds (needed : Bool) (kinds : List (TokenKind α)) : List (TokenKind α) :=
  if needed then .openParen :: (kinds ++ [.closeParen]) else kinds

mutual

/-- The tokens of the text of a tree. -/
def kinds : Expr α → List (TokenKind α)
  | const value => if value < 0 then [.minus, .number (-value)] else [.number value]
  | symbol name => [.identifier name]
  | unary op operand => .ofUnary op :: bracketedKinds (operand.precedence < 5) operand.kinds
  | binary op left right =>
    bracketedKinds (bracketsLeft op left) left.kinds ++
      .ofBinary op :: bracketedKinds (bracketsRight op right) right.kinds
  | call name args =>
    .identifier name :: .openParen :: (TokenKind.commaSeparated (kindsAll args) ++ [.closeParen])

/-- The tokens of the trees of a list. -/
def kindsAll : List (Expr α) → List (List (TokenKind α))
  | [] => []
  | arg :: args => arg.kinds :: kindsAll args

end

/-- Tokens are made tree by tree. -/
theorem kindsAll_eq (args : List (Expr α)) : kindsAll args = args.map kinds := by
  induction args with
  | nil => rfl
  | cons arg args ih => simp [kindsAll, ih]

end Expr

namespace Token

variable {α : Type} [Scalar α] {rest : List Char} {ks : List (TokenKind α)}

/-- A name is scanned to the token of its word, in front of characters that do not go on with it. -/
theorem scans_name {name : String} (hname : Text.IsName name) (hrest : Apart rest)
    (h : Scans rest ks) : Scans (name.toList ++ rest) (.identifier name :: ks) := by
  obtain ⟨c, cs, rfl, hstart, hword, hop⟩ := hname
  have hscans := scans_word hstart hword hrest h
  simp only [List.mem_cons, List.not_mem_nil, or_false, not_or] at hop
  rw [TokenKind.ofWord, if_neg hop.1, if_neg hop.2.1, if_neg hop.2.2] at hscans
  rw [String.toList_ofList, List.cons_append]
  exact hscans

/-- What is written for an operator, with its blanks. -/
theorem scans_binary (op : BinaryOp) (h : Scans rest ks) :
    Scans ((" " ++ op.symbol ++ " ").toList ++ rest) (.ofBinary op :: ks) := by
  have hblank := scans_blank h
  cases op with
  | add => exact @scans_blank α _ ('+' :: ' ' :: rest) _ (scans_operator rfl hblank)
  | sub => exact @scans_blank α _ ('-' :: ' ' :: rest) _ (scans_operator rfl hblank)
  | mul => exact @scans_blank α _ ('*' :: ' ' :: rest) _ (scans_operator rfl hblank)
  | div => exact @scans_blank α _ ('/' :: ' ' :: rest) _ (scans_operator rfl hblank)
  | pow => exact @scans_blank α _ ('^' :: ' ' :: rest) _ (scans_operator rfl hblank)
  | and =>
    have hword := @scans_lower α _ ['n', 'd'] (' ' :: rest) ks 'a' rfl apart_blank hblank
    exact scans_blank hword
  | or =>
    have hword := @scans_lower α _ ['r'] (' ' :: rest) ks 'o' rfl apart_blank hblank
    exact scans_blank hword

omit [Scalar α] in
/-- An operator with blanks around it goes on with nothing before it. -/
theorem apart_binary (op : BinaryOp) : Apart ((" " ++ op.symbol ++ " ").toList ++ rest) := by
  cases op <;> exact apart_blank

/-- What is written for a prefix operator. -/
theorem scans_unary (op : UnaryOp) (h : Scans rest ks) :
    Scans (op.mark.toList ++ rest) (.ofUnary op :: ks) := by
  cases op with
  | neg => exact scans_operator rfl h
  | not =>
    exact @scans_lower α _ ['o', 't'] (' ' :: rest) ks 'n' rfl apart_blank (scans_blank h)

/-- A text is scanned to tokens in front of whatever does not go on with it. -/
def Writes (text : String) (kinds : List (TokenKind α)) : Prop :=
  ∀ rest ks, Apart rest → Scans rest ks → Scans (text.toList ++ rest) (kinds ++ ks)

/-- The whole of a text that is written is scanned to its tokens. -/
theorem Writes.scans {text : String} {kinds : List (TokenKind α)} (h : Writes text kinds) :
    Scans text.toList kinds := by
  have hscans := h [] [] apart_nil scans_nil
  rwa [List.append_nil, List.append_nil] at hscans

/-- A number whose text reads back is written as one token. -/
theorem writes_number {x : α} [NumberText α] (h : NumberText.ReadsBack x) :
    Writes (NumberText.positional x) [.number x] := by
  intro rest ks hrest hscans
  obtain ⟨hplain, d, hd, rfl⟩ := h
  exact scans_number hplain hd hrest hscans

/-- A text may be put in brackets, and is then scanned with them. -/
theorem Writes.bracketed {text : String} {kinds : List (TokenKind α)} (needed : Bool)
    (h : Writes text kinds) :
    Writes (Expr.bracketed needed text) (Expr.bracketedKinds needed kinds) := by
  cases needed with
  | false => exact h
  | true =>
    intro rest ks _ hscans
    have hclose := @scans_operator α _ rest ks ')' .closeParen rfl hscans
    have hinner := h _ _ apart_close hclose
    have hopen := @scans_operator α _ _ _ '(' .openParen rfl hinner
    simpa [Expr.bracketed, Expr.bracketedKinds, String.toList_append] using hopen

end Token

namespace Expr

open Token

variable {α : Type} [Scalar α] [NumberText α]

/-- The arguments of a call are scanned to their tokens, with commas between them. -/
theorem writes_textAll {args : List (Expr α)} (h : ∀ arg ∈ args, Writes arg.text arg.kinds)
    (hne : args ≠ []) : Writes (textAll args) (TokenKind.commaSeparated (kindsAll args)) := by
  induction args with
  | nil => exact absurd rfl hne
  | cons arg args ih =>
    have harg := h arg (List.mem_cons_self ..)
    match args with
    | [] => exact harg
    | next :: args =>
      have hnext := ih (fun arg hmem => h arg (List.mem_cons_of_mem _ hmem)) (by simp)
      intro rest ks hrest hscans
      have hcomma := scans_operator (c := ',') rfl (scans_blank (hnext rest ks hrest hscans))
      have hall := harg _ _ apart_comma hcomma
      simpa [textAll, kindsAll, TokenKind.commaSeparated, String.toList_append] using hall

/-- The text of a tree is scanned to its tokens. -/
theorem writes_text {e : Expr α} (h : Writable NumberText.Spelled e) :
    Writes e.text e.kinds := by
  induction h with
  | @const value hvalue =>
    simp only [text, kinds]
    rw [NumberText.Spelled] at hvalue
    split at hvalue
    · next hneg =>
      rw [if_pos hneg, hvalue.1]
      intro rest ks hrest hscans
      have hnumber := writes_number hvalue.2 rest ks hrest hscans
      have hminus := @scans_operator α _ _ _ '-' .minus rfl hnumber
      simpa [String.toList_append] using hminus
    · next hneg =>
      rw [if_neg hneg]
      exact writes_number hvalue
  | symbol hname =>
    intro rest ks hrest hscans
    exact scans_name hname hrest hscans
  | @unary op operand _ ih =>
    intro rest ks hrest hscans
    have hoperand := ih.bracketed (operand.precedence < 5) rest ks hrest hscans
    have hunary := scans_unary op hoperand
    simpa [text, kinds, String.toList_append] using hunary
  | @binary op left right _ _ ihleft ihright =>
    intro rest ks hrest hscans
    have hright := ihright.bracketed (bracketsRight op right) rest ks hrest hscans
    have hop := scans_binary op hright
    have hleft := ihleft.bracketed (bracketsLeft op left) _ _ (apart_binary op) hop
    simpa [text, kinds, String.toList_append] using hleft
  | @call name args hname hne _ ih =>
    intro rest ks hrest hscans
    have hclose := @scans_operator α _ rest ks ')' .closeParen rfl hscans
    have hargs := writes_textAll ih hne _ _ apart_close hclose
    have hopen := @scans_operator α _ _ _ '(' .openParen rfl hargs
    have hcall := scans_name hname apart_open hopen
    simpa [text, kinds, String.toList_append] using hcall

end Expr

end SurfaceGeometry
