import SurfaceGeometry.Proofs.Grammar.Lookahead

/-!
# Beginnings of expressions

Tokens are the beginning of what a reader accepts when some tokens behind them make them so
(`Expr.Begins` and its variants for the rest of a chain and for arguments), and they are refused
when the reader fails on all tokens that begin with them (`Expr.Refused` and its variants). An error
is about the earliest place when what stands before the place is a beginning and the token at the
place makes it refused (`Expr.Blames`, for any two notions of these).

An error that a reader gets from a step of its own is about the earliest place for the reader as
well, if the beginnings of the step, behind the tokens read so far, are beginnings for the reader,
and the same for what is refused (`Expr.Blames.behind`).
-/

namespace SurfaceGeometry

open TokenKind Token

/-- The kind of the token that a fault is about, if it is about one that stands in the text. -/
def ParseFault.found? {α : Type} : ParseFault α → Option (TokenKind α)
  | unexpected kind | trailing kind | notClosed _ kind => some kind
  | strangeCharacter _ | malformedNumber _ | endOfInput | unclosed _ => none

namespace Expr

variable {α : Type} {finish : Nat} {tokens : List (Token α)}

/-! ## Beginnings and what is refused -/

/-- Some tokens behind these make them an expression of the level. -/
def Begins (level : Level) (seen : List (Token α)) : Prop :=
  ∃ more e, Derives false level (Token.kinds (seen ++ more)) e

/-- Whatever stands behind the tokens, the reader of the level fails, at every depth. -/
def Refused (level : Level) (seen : List (Token α)) : Prop :=
  ∀ finish depth more r, readAt finish depth level (seen ++ more) ≠ .ok r

/-- To be refused is shown at positive depths, since no reader reads anything at depth zero. -/
theorem refused_of_succ {level : Level} {seen : List (Token α)}
    (h : ∀ finish depth more r, readAt finish (depth + 1) level (seen ++ more) ≠ .ok r) :
    Refused level seen := by
  rintro finish (_ | depth) more r
  · cases level <;> exact fun hread => nomatch hread
  · exact h finish depth more r

/-- What is refused by a reader is refused by one that calls it first, behind the tokens it skips.
-/
theorem Refused.bind {level level' : Level} {seen : List (Token α)} (front : List (Token α))
    {next : Nat → Nat → Reading α → Except (ExprError α) (Reading α)} (h : Refused level seen)
    (hread : ∀ finish depth more, readAt finish (depth + 1) level' (front ++ (seen ++ more)) =
      readAt finish depth level (seen ++ more) >>= next finish depth) :
    Refused level' (front ++ seen) := by
  refine refused_of_succ fun finish depth more r hok => ?_
  rw [List.append_assoc, hread] at hok
  obtain ⟨s, hs, -⟩ := Outcome.bind_eq_ok.1 hok
  exact h finish depth more s hs

/-- Some tokens behind these make them the rest of a chain. -/
def BeginsChain (bracket : Bool) (level : BinaryLevel) (seen : List (Token α)) : Prop :=
  ∃ more, ∀ lefts left, Derives bracket (.chain level) lefts left →
    ∃ e, Derives false (.chain level) (lefts ++ Token.kinds (seen ++ more)) e

/-- Whatever stands behind the tokens, they are not read as the rest of a chain. -/
def RefusedChain (level : BinaryLevel) (seen : List (Token α)) : Prop :=
  ∀ finish depth left more r, readChain finish depth level left (seen ++ more) ≠ .ok r

/-- Some tokens behind these make them an operand of a chain and the rest of the chain. -/
def BeginsOperands (level : BinaryLevel) (seen : List (Token α)) : Prop :=
  ∃ more bracket rights right behind, Token.kinds (seen ++ more) = rights ++ behind ∧
    Derives bracket level.operand rights right ∧
    ∀ lefts left, Derives bracket (.chain level) lefts left →
      ∃ e, Derives false (.chain level) (lefts ++ behind) e

/-- Whatever stands behind the tokens, they are not read as an operand and the rest of its chain. -/
def RefusedOperands (level : BinaryLevel) (seen : List (Token α)) : Prop :=
  ∀ finish depth (join : Expr α → Expr α) more r,
    (readOperand finish depth level (seen ++ more) >>= fun s =>
      readChain finish depth level (join s.1) s.2) ≠ .ok r

/-- Some tokens behind these make them expressions with commas between them. -/
def BeginsArguments (seen : List (Token α)) : Prop :=
  ∃ more segments, segments ≠ [] ∧
    Token.kinds (seen ++ more) = commaSeparated (segments.map Prod.fst) ∧
    ∀ segment ∈ segments, Derives false (.chain .disjunction) segment.1 segment.2

/-- Whatever stands behind the tokens, they are not read as arguments. -/
def RefusedArguments (seen : List (Token α)) : Prop :=
  ∀ finish depth more r, readArguments finish depth (seen ++ more) ≠ .ok r

/-! ## Errors about the earliest place -/

/-- The error is about the earliest place: a token such that what stands before it is a beginning,
and is refused together with it, or the end of the text when all tokens are a beginning. -/
inductive Blames (finish : Nat) (begins refused : List (Token α) → Prop) (tokens : List (Token α)) :
    ExprError α → Prop where
  | token {before token after fault} (split : tokens = before ++ token :: after)
      (found : fault.found? = some token.kind) (begun : begins before)
      (stuck : refused (before ++ [token])) :
      Blames finish begins refused tokens (.malformed fault token.position)
  | finish {fault} (found : fault.found? = none) (begun : begins tokens) :
      Blames finish begins refused tokens (.malformed fault finish)

/-- An error behind tokens that are read. -/
theorem Blames.behind {begins refused begins' refused' : List (Token α) → Prop}
    {error : ExprError α} (lefts : List (Token α)) (h : Blames finish begins refused tokens error)
    (hbegins : ∀ seen, seen <+: tokens → begins seen → begins' (lefts ++ seen))
    (hrefused : ∀ seen, seen <+: tokens → seen ≠ [] → refused seen → refused' (lefts ++ seen)) :
    Blames finish begins' refused' (lefts ++ tokens) error := by
  cases h with
  | @token before token after _ split found begun stuck =>
    subst split
    refine .token (List.append_assoc lefts before (token :: after)).symm found
      (hbegins before (List.prefix_append _ _) begun) ?_
    rw [List.append_assoc]
    exact hrefused _ ⟨after, by simp⟩ (by simp) stuck
  | finish found begun => exact .finish found (hbegins _ List.prefix_rfl begun)

/-- An error of the first step of a reader. -/
theorem Blames.first {begins refused begins' refused' : List (Token α) → Prop}
    {error : ExprError α} (h : Blames finish begins refused tokens error)
    (hbegins : ∀ seen, seen <+: tokens → begins seen → begins' seen)
    (hrefused : ∀ seen, seen <+: tokens → seen ≠ [] → refused seen → refused' seen) :
    Blames finish begins' refused' tokens error :=
  h.behind [] hbegins hrefused

/-- Tokens that begin with a part of a list begin with the first token of the list. -/
theorem head?_of_isPrefix {seen : List (Token α)} (h : seen <+: tokens) (hne : seen ≠ [])
    (more : List (Token α)) : (Token.kinds tokens).head? = (Token.kinds (seen ++ more)).head? := by
  obtain ⟨after, rfl⟩ := h
  obtain ⟨token, seen, rfl⟩ := List.exists_cons_of_ne_nil hne
  rfl

/-! ## Beginnings within beginnings -/

/-- An operand may be the last one. -/
theorem Begins.operands {level : BinaryLevel} {seen : List (Token α)}
    (h : Begins level.operand seen) : BeginsOperands level seen := by
  obtain ⟨more, right, hright⟩ := h
  refine ⟨more, false, _, right, [], by simp, hright, fun lefts left hleft => ⟨left, ?_⟩⟩
  rwa [List.append_nil]

/-- What the reader of an operand's level refuses, the reader of the operand refuses. -/
theorem Refused.operand {level : BinaryLevel} {seen : List (Token α)}
    (h : Refused level.operand seen) (finish depth : Nat) (more : List (Token α)) (r : Reading α) :
    readOperand finish depth level (seen ++ more) ≠ .ok r := by
  cases depth with
  | zero => exact fun hread => nomatch hread
  | succ depth =>
    rw [readOperand_succ]
    exact h finish depth more r

/-- A factor can start with every token that says so. -/
theorem begins_factor {token : Token α} (h : token.kind.startsFactor = true) :
    Begins .signed [token] := by
  obtain ⟨kind, p⟩ := token
  have hname : Derives false .signed [identifier "x"] (.symbol "x" : Expr α) :=
    .unsigned (.base (.name "x"))
  cases kind with
  | number value => exact ⟨[], _, .unsigned (.base (.number value))⟩
  | identifier name => exact ⟨[], _, .unsigned (.base (.name name))⟩
  | not => exact ⟨[⟨identifier "x", 0⟩], _, @Derives.unary α false .not _ _ hname⟩
  | openParen =>
    have hinner : Derives false (.chain .disjunction) [identifier "x"] (.symbol "x" : Expr α) :=
      .operand (.operand (.operand (.operand hname)))
    exact ⟨[⟨identifier "x", 0⟩, ⟨.closeParen, 0⟩], _, .unsigned (.base (.bracketed hinner))⟩
  | _ => cases h

/-- A factor directly behind a product, of which the first token decides that it is one. -/
theorem BeginsOperands.factors {token : Token α} {seen tokens : List (Token α)}
    (hfactor : token.kind.startsFactor = true) (h : BeginsOperands .product (token :: seen)) :
    BeginsChain (opens (Token.kinds (token :: tokens))) .product (token :: seen) := by
  obtain ⟨more, bracket, rights, right, behind, hkinds, hright, hbehind⟩ := h
  obtain ⟨kind, others, rfl⟩ := List.exists_cons_of_ne_nil hright.ne_nil
  obtain ⟨rfl, -⟩ := List.cons.inj hkinds
  have hfollows : factorFollows (token.kind :: others) = true := hfactor
  refine ⟨more, fun lefts left hleft => ?_⟩
  rw [kinds_cons, opens_cons_congr others] at hleft
  have hjoined := hbehind _ _ (.juxtaposed hfollows hleft hright)
  rw [hkinds]
  simpa using hjoined

/-- Arguments between the brackets of a call, of which the second one comes later. -/
theorem BeginsArguments.call {seen : List (Token α)} {name : String} {p opened : Nat}
    (h : BeginsArguments seen) :
    Begins .primary (⟨.identifier name, p⟩ :: ⟨.openParen, opened⟩ :: seen) := by
  obtain ⟨more, segments, hne, hkinds, hall⟩ := h
  refine ⟨more ++ [⟨.closeParen, 0⟩], .call name (segments.map Prod.snd), ?_⟩
  have hcall := @Derives.call α false name segments hne hall
  rw [← hkinds] at hcall
  simpa using hcall

/-- The beginning of an expression, with an opening bracket before it, begins a bracketed one. -/
theorem Begins.bracketed {seen : List (Token α)} {opened : Nat}
    (h : Begins (.chain .disjunction) seen) : Begins .primary (⟨.openParen, opened⟩ :: seen) := by
  obtain ⟨more, e, hderives⟩ := h
  refine ⟨more ++ [⟨.closeParen, 0⟩], e, ?_⟩
  simpa using @Derives.bracketed α false _ _ hderives

end Expr

end SurfaceGeometry
