import SurfaceGeometry.Proofs.Grammar.Derivation
import SurfaceGeometry.Proofs.Outcome

/-!
# One step of each reader

The readers of the parser call each other with a bound on the depth of the calls. This module says
what each of them does in one step, by the first tokens of the list, in terms of the readers one
level deeper; `Expr.readAt` names the reader of a level of the grammar. The statements on whole runs
use these equations and do not open the readers again.
-/

namespace SurfaceGeometry

open TokenKind Token

/-- Tokens start with an opening bracket just if the first one is that. -/
theorem opens_kinds_eq_true {α : Type} {tokens : List (Token α)} :
    opens (kinds tokens) = true ↔ ∃ opened rest, tokens = ⟨.openParen, opened⟩ :: rest := by
  constructor
  · intro h
    match tokens, h with
    | ⟨.openParen, opened⟩ :: rest, _ => exact ⟨opened, rest, rfl⟩
  · rintro ⟨opened, rest, rfl⟩
    rfl

/-- Tokens start with a token of a given kind or they do not. -/
theorem head_cases {α : Type} (kind : TokenKind α) (tokens : List (Token α)) :
    (kinds tokens).head? ≠ some kind ∨ ∃ p rest, tokens = ⟨kind, p⟩ :: rest := by
  match tokens with
  | [] => exact .inl (by simp)
  | ⟨other, p⟩ :: rest =>
    rcases Classical.em (other = kind) with rfl | hne
    · exact .inr ⟨p, rest, rfl⟩
    · exact .inl fun h => hne (Option.some.inj h)

/-- Whether a chain goes on with tokens: an operator of its level stands first, or, in a product, a
further factor. -/
def BinaryLevel.continues {α : Type} (level : BinaryLevel) : List (TokenKind α) → Bool
  | [] => false
  | kind :: _ => (level.operator? kind).isSome || level = product && kind.startsFactor

/-- Whether a primary expression starts with a token. -/
def TokenKind.startsPrimary {α : Type} : TokenKind α → Bool
  | number _ | identifier _ | openParen => true
  | _ => false

namespace Expr

variable {α : Type} {finish depth : Nat} {tokens : List (Token α)}

/-- Reads an expression of a level. -/
def readAt (finish depth : Nat) : Level → List (Token α) → Except (ExprError α) (Reading α)
  | .chain level => readBinary finish depth level
  | .signed => readSigned finish depth
  | .power => readPower finish depth
  | .primary => readPrimary finish depth

/-! ## Chains -/

/-- A chain is read as an operand and the rest of the chain. -/
theorem readBinary_succ (level : BinaryLevel) :
    readBinary finish (depth + 1) level tokens =
      readOperand finish depth level tokens >>= fun r => readChain finish depth level r.1 r.2 :=
  rfl

/-- An operand is read at its own level, one step further down. -/
theorem readOperand_succ (level : BinaryLevel) :
    readOperand finish (depth + 1) level tokens = readAt finish depth level.operand tokens := by
  cases level <;> rfl

/-- An operator of the level is followed by an operand. -/
theorem readChain_operator {level : BinaryLevel} {left : Expr α} {token : Token α} {op : BinaryOp}
    (h : level.operator? token.kind = some op) :
    readChain finish (depth + 1) level left (token :: tokens) =
      readOperand finish depth level tokens >>= fun r =>
        readChain finish depth level (.binary op left r.1) r.2 := by
  rw [readChain, h]

/-- A further factor of a product is an operand itself. -/
theorem readChain_factor {left : Expr α} {token : Token α} (h : token.kind.startsFactor) :
    readChain finish (depth + 1) .product left (token :: tokens) =
      readOperand finish depth .product (token :: tokens) >>= fun r =>
        readChain finish depth .product (.binary .mul left r.1) r.2 := by
  have hop : BinaryLevel.operator? .product token.kind = none := by
    revert h
    cases token.kind <;> simp [startsFactor, BinaryLevel.operator?]
  rw [readChain, hop]
  simp only [h, and_self, if_true]

/-- A chain ends where its level does not go on. -/
theorem readChain_stop {level : BinaryLevel} {left : Expr α}
    (h : level.continues (kinds tokens) = false) :
    readChain finish (depth + 1) level left tokens = .ok (left, tokens) := by
  match tokens, h with
  | [], _ => rfl
  | token :: tokens, h =>
    simp only [kinds_cons, BinaryLevel.continues, Bool.or_eq_false_iff, Option.isSome_eq_false_iff,
      Option.isNone_iff_eq_none, Bool.and_eq_false_iff, decide_eq_false_iff_not] at h
    rw [readChain, h.1]
    have hfactor : ¬(level = .product ∧ token.kind.startsFactor = true) := by
      rintro ⟨hlevel, hkind⟩
      rcases h.2 with h | h
      · exact h hlevel
      · rw [hkind] at h
        cases h
    simp only [hfactor, if_false]

/-- A chain ends before tokens, or an operator of its level stands first, or a further factor. -/
theorem continues_cases (level : BinaryLevel) (tokens : List (Token α)) :
    level.continues (kinds tokens) = false ∨
      (∃ token rest op, tokens = token :: rest ∧ level.operator? token.kind = some op) ∨
      level = .product ∧ ∃ token rest, tokens = token :: rest ∧ token.kind.startsFactor = true := by
  match tokens with
  | [] => exact .inl rfl
  | token :: tokens =>
    cases hop : level.operator? token.kind with
    | some op => exact .inr (.inl ⟨token, tokens, op, rfl, hop⟩)
    | none =>
      by_cases hfactor : level = .product ∧ token.kind.startsFactor = true
      · exact .inr (.inr ⟨hfactor.1, token, tokens, rfl, hfactor.2⟩)
      · refine .inl ?_
        simpa [BinaryLevel.continues, hop] using hfactor

/-! ## Signs and powers -/

/-- Behind a sign a signed expression is read. -/
theorem readSigned_sign {op : UnaryOp} {p : Nat} :
    readSigned finish (depth + 1) (⟨ofUnary op, p⟩ :: tokens) =
      readSigned finish depth tokens >>= fun r => .ok (.unary op r.1, r.2) := by
  cases op <;> rfl

/-- Without a sign a power is read. -/
theorem readSigned_unsigned (h : (kinds tokens).head?.bind sign? = none) :
    readSigned finish (depth + 1) tokens = readPower finish depth tokens := by
  match tokens, h with
  | [], _ => rfl
  | ⟨kind, p⟩ :: tokens, h => cases kind <;> first | rfl | cases h

/-- Tokens start with a sign or they do not. -/
theorem sign_cases (tokens : List (Token α)) :
    (kinds tokens).head?.bind sign? = none ∨ ∃ op p rest, tokens = ⟨ofUnary op, p⟩ :: rest := by
  match tokens with
  | [] => exact .inl rfl
  | ⟨kind, p⟩ :: tokens =>
    cases hsign : kind.sign? with
    | none => exact .inl hsign
    | some op => exact .inr ⟨op, p, tokens, by rw [sign?_eq_some.1 hsign]⟩

/-- What follows a primary expression: an exponent, if a caret stands there. -/
def readExponent (finish depth : Nat) (base : Expr α) :
    List (Token α) → Except (ExprError α) (Reading α)
  | ⟨.caret, _⟩ :: tokens =>
    readSigned finish depth tokens >>= fun r => .ok (.binary .pow base r.1, r.2)
  | tokens => .ok (base, tokens)

/-- Behind a caret the exponent is read as a signed expression, so that powers associate to the
right. -/
theorem readExponent_caret {base : Expr α} {p : Nat} :
    readExponent finish depth base (⟨.caret, p⟩ :: tokens) =
      readSigned finish depth tokens >>= fun r => .ok (.binary .pow base r.1, r.2) :=
  rfl

/-- A power is read as a base and, if there is one, an exponent. -/
theorem readPower_succ :
    readPower finish (depth + 1) tokens =
      readPrimary finish depth tokens >>= fun r => readExponent finish depth r.1 r.2 := by
  rw [readPower]
  congr 1
  funext r
  match r with
  | (base, []) => rfl
  | (base, ⟨kind, p⟩ :: tokens) => cases kind <;> rfl

/-- Without a caret there is no exponent. -/
theorem readExponent_stop {base : Expr α} (h : (kinds tokens).head? ≠ some .caret) :
    readExponent finish depth base tokens = .ok (base, tokens) := by
  match tokens, h with
  | [], _ => rfl
  | ⟨kind, p⟩ :: tokens, h => cases kind <;> first | rfl | exact absurd rfl h

/-! ## Primary expressions -/

/-- A number is a primary expression. -/
theorem readPrimary_number {value : α} {p : Nat} :
    readPrimary finish (depth + 1) (⟨.number value, p⟩ :: tokens) = .ok (.const value, tokens) :=
  rfl

/-- A name before an opening bracket is read as a call, with the bracket that closes it. -/
theorem readPrimary_call {name : String} {p opened : Nat} :
    readPrimary finish (depth + 1) (⟨.identifier name, p⟩ :: ⟨.openParen, opened⟩ :: tokens) =
      readArguments finish depth tokens >>= fun r =>
        expectClose finish opened r.2 >>= fun rest => .ok (.call name r.1, rest) :=
  rfl

/-- A name that stands before no opening bracket is a symbol. -/
theorem readPrimary_name {name : String} {p : Nat} (h : opens (kinds tokens) = false) :
    readPrimary finish (depth + 1) (⟨.identifier name, p⟩ :: tokens) =
      .ok (.symbol name, tokens) := by
  match tokens, h with
  | [], _ => rfl
  | ⟨kind, q⟩ :: tokens, h => cases kind <;> first | rfl | cases h

/-- An opening bracket is read with the expression behind it and the bracket that closes it. -/
theorem readPrimary_bracket {opened : Nat} :
    readPrimary finish (depth + 1) (⟨.openParen, opened⟩ :: tokens) =
      readBinary finish depth .disjunction tokens >>= fun r =>
        expectClose finish opened r.2 >>= fun rest => .ok (r.1, rest) :=
  rfl

/-- A token that starts no primary expression is the fault. -/
theorem readPrimary_unexpected {kind : TokenKind α} {p : Nat} (h : kind.startsPrimary = false) :
    readPrimary finish (depth + 1) (⟨kind, p⟩ :: tokens) =
      .error (.malformed (.unexpected kind) p) := by
  cases kind <;> first | rfl | cases h

/-- A primary expression is a number, a call, a name or an expression in brackets. -/
theorem primary_cases (tokens : List (Token α)) :
    (∃ value p rest, tokens = ⟨.number value, p⟩ :: rest) ∨
      (∃ name p opened rest, tokens = ⟨.identifier name, p⟩ :: ⟨.openParen, opened⟩ :: rest) ∨
      (∃ name p rest, tokens = ⟨.identifier name, p⟩ :: rest ∧ opens (kinds rest) = false) ∨
      (∃ opened rest, tokens = ⟨.openParen, opened⟩ :: rest) ∨
      tokens = [] ∨ ∃ kind p rest, tokens = ⟨kind, p⟩ :: rest ∧ kind.startsPrimary = false := by
  match tokens with
  | [] => exact .inr (.inr (.inr (.inr (.inl rfl))))
  | ⟨kind, p⟩ :: tokens =>
    cases kind with
    | number value => exact .inl ⟨value, p, tokens, rfl⟩
    | identifier name =>
      refine .inr ?_
      cases hopen : opens (kinds tokens) with
      | false => exact .inr (.inl ⟨name, p, tokens, rfl, hopen⟩)
      | true =>
        obtain ⟨opened, rest, rfl⟩ := opens_kinds_eq_true.1 hopen
        exact .inl ⟨name, p, opened, rest, rfl⟩
    | openParen => exact .inr (.inr (.inr (.inl ⟨p, tokens, rfl⟩)))
    | _ => exact .inr (.inr (.inr (.inr (.inr ⟨_, p, tokens, rfl, rfl⟩))))

/-- What follows an argument of a call: further arguments, if a comma stands there. -/
def readFurther (finish depth : Nat) (arg : Expr α) :
    List (Token α) → Except (ExprError α) (List (Expr α) × List (Token α))
  | ⟨.comma, _⟩ :: tokens =>
    readArguments finish depth tokens >>= fun r => .ok (arg :: r.1, r.2)
  | tokens => .ok ([arg], tokens)

/-- Arguments are read as an expression and further ones. -/
theorem readArguments_succ :
    readArguments finish (depth + 1) tokens =
      readBinary finish depth .disjunction tokens >>= fun r =>
        readFurther finish depth r.1 r.2 := by
  rw [readArguments]
  congr 1
  funext r
  match r with
  | (arg, []) => rfl
  | (arg, ⟨kind, p⟩ :: tokens) => cases kind <;> rfl

/-- Behind a comma further arguments are read. -/
theorem readFurther_comma {arg : Expr α} {p : Nat} :
    readFurther finish depth arg (⟨.comma, p⟩ :: tokens) =
      readArguments finish depth tokens >>= fun r => .ok (arg :: r.1, r.2) :=
  rfl

/-- Without a comma the arguments end. -/
theorem readFurther_stop {arg : Expr α} (h : (kinds tokens).head? ≠ some .comma) :
    readFurther finish depth arg tokens = .ok ([arg], tokens) := by
  match tokens, h with
  | [], _ => rfl
  | ⟨kind, p⟩ :: tokens, h => cases kind <;> first | rfl | exact absurd rfl h

/-- A closing bracket that was expected is there. -/
theorem expectClose_eq_ok {opened : Nat} {rest : List (Token α)}
    (h : expectClose finish opened tokens = .ok rest) : ∃ p, tokens = ⟨.closeParen, p⟩ :: rest := by
  unfold expectClose at h
  split at h
  · cases h
  · cases h
    exact ⟨_, rfl⟩
  · cases h

end Expr

end SurfaceGeometry
