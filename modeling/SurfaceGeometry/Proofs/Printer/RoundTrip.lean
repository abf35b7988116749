import SurfaceGeometry.Proofs.Grammar.Parse
import SurfaceGeometry.Proofs.Printer.Kinds

/-!
# Printing and parsing

The printer puts brackets where the precedences of two operators ask for them, the grammar has a
level for each precedence (`Level.ofPrecedence`), and the two agree: the tokens of a printed tree
derive the tree at its level (`Expr.derives_kinds`), with the negative constants written as
negations. So a printed tree is parsed to itself, up to these.
-/

namespace SurfaceGeometry

open TokenKind

/-- The level of expressions whose outermost operator has a precedence. -/
def Level.ofPrecedence : Nat → Level
  | 0 | 1 => .chain .disjunction
  | 2 => .chain .conjunction
  | 3 => .chain .sum
  | 4 => .chain .product
  | 5 => .signed
  | 6 => .power
  | _ => .primary

/-- Larger precedences have tighter levels. -/
theorem Level.rank_ofPrecedence_le {p q : Nat} (h : p ≤ q) :
    (Level.ofPrecedence q).rank ≤ (Level.ofPrecedence p).rank := by
  match q with
  | 0 | 1 | 2 | 3 | 4 | 5 | 6 =>
    revert p
    decide
  | q + 7 => exact (Level.ofPrecedence p).rank_pos

/-- A level is known by its rank. -/
theorem Level.rank_injective {level level' : Level} (h : level.rank = level'.rank) :
    level = level' := by
  rcases level with (_ | _ | _ | _) | _ | _ | _ <;>
    rcases level' with (_ | _ | _ | _) | _ | _ | _ <;> first | rfl | cases h

/-- The next tighter level. -/
def Level.tighter : Level → Level
  | chain level => level.operand
  | signed => power
  | power | primary => primary

/-- Between two levels stands the one that is next tighter than the looser of them. -/
theorem Level.rank_tighter {level level' : Level} (h : level.rank < level'.rank) :
    level.rank ≤ level'.tighter.rank ∧ level'.tighter.rank < level'.rank := by
  revert h
  rcases level with (_ | _ | _ | _) | _ | _ | _ <;>
    rcases level' with (_ | _ | _ | _) | _ | _ | _ <;> decide

namespace Derives

variable {α : Type} {bracket : Bool} {level : Level} {kinds : List (TokenKind α)} {e : Expr α}

/-- What is derived at a tighter level is derived at the next looser one. -/
theorem of_tighter (h : Derives bracket level.tighter kinds e) : Derives bracket level kinds e := by
  cases level with
  | chain level => exact .operand h
  | signed => exact .unsigned h
  | power => exact .base h
  | primary => exact h

/-- An expression of a level is one of every looser level. -/
theorem loosen (h : Derives bracket level kinds e) (level' : Level)
    (hrank : level.rank ≤ level'.rank) : Derives bracket level' kinds e := by
  rcases Nat.eq_or_lt_of_le hrank with heq | hlt
  · exact Level.rank_injective heq ▸ h
  · have htighter := Level.rank_tighter hlt
    exact of_tighter (loosen h level'.tighter htighter.1)
termination_by level'.rank
decreasing_by exact htighter.2

end Derives

namespace Expr

variable {α : Type} [Scalar α]

/-- The precedence that a left operand without brackets has at least. -/
def leastLeft (op : BinaryOp) : Nat :=
  if op = .pow then op.precedence + 1 else op.precedence

/-- The precedence that a right operand without brackets has at least. -/
def leastRight (op : BinaryOp) : Nat :=
  if op = .pow then op.precedence else op.precedence + 1

/-- A left operand without brackets has at least the precedence that the grammar asks for. -/
theorem leastLeft_le {op : BinaryOp} {left : Expr α} (h : bracketsLeft op left = false) :
    leastLeft op ≤ left.precedence := by
  unfold bracketsLeft at h
  unfold leastLeft
  split
  · next hop =>
    rw [if_pos hop, decide_eq_false_iff_not] at h
    omega
  · next hop =>
    rw [if_neg hop, decide_eq_false_iff_not] at h
    omega

/-- A right operand without brackets has at least the precedence that the grammar asks for. -/
theorem leastRight_le {op : BinaryOp} {right : Expr α} (h : bracketsRight op right = false) :
    leastRight op ≤ right.precedence := by
  unfold bracketsRight at h
  unfold leastRight
  split
  · next hop =>
    rw [if_pos hop, decide_eq_false_iff_not] at h
    omega
  · next hop =>
    rw [if_neg hop, decide_eq_false_iff_not] at h
    omega

/-- The tokens of an operand are an expression of the level of a precedence, if the operand has
brackets or at least this precedence. -/
theorem derives_bracketed {needed : Bool} {e : Expr α} {least : Nat}
    (h : Derives false (.ofPrecedence e.precedence) e.kinds e.signed)
    (hleast : needed = false → least ≤ e.precedence) :
    Derives false (.ofPrecedence least) (bracketedKinds needed e.kinds) e.signed := by
  cases needed with
  | false => exact h.loosen _ (Level.rank_ofPrecedence_le (hleast rfl))
  | true =>
    have hinner := h.loosen (.chain .disjunction) (Level.rank_ofPrecedence_le (Nat.zero_le _))
    exact (Derives.bracketed hinner).loosen _ (Level.rank_pos _)

/-- The tokens of two operands with an operator between them derive the tree: operands with brackets
are primary expressions, and those without have levels that are tight enough. -/
theorem derives_binary {op : BinaryOp} {left right : Expr α}
    (hleft : Derives false (.ofPrecedence left.precedence) left.kinds left.signed)
    (hright : Derives false (.ofPrecedence right.precedence) right.kinds right.signed) :
    Derives false (.ofPrecedence op.precedence) (binary op left right).kinds
      (binary op left right).signed := by
  have hlefts := derives_bracketed hleft (@leastLeft_le α _ op left)
  have hrights := derives_bracketed hright (@leastRight_le α _ op right)
  cases op with
  | or => exact @Derives.binary α false .disjunction _ _ _ _ _ _ rfl hlefts hrights
  | and => exact @Derives.binary α false .conjunction _ _ _ _ _ _ rfl hlefts hrights
  | add | sub => exact @Derives.binary α false .sum _ _ _ _ _ _ rfl hlefts hrights
  | mul | div => exact @Derives.binary α false .product _ _ _ _ _ _ rfl hlefts hrights
  | pow => exact .raised hlefts (hrights.loosen .signed (by decide))

/-- The tokens of a printed tree derive it at the level of its precedence. -/
theorem derives_kinds {p : α → Prop} {e : Expr α} (h : Writable p e) :
    Derives false (.ofPrecedence e.precedence) e.kinds e.signed := by
  induction h with
  | @const value _ =>
    simp only [precedence, kinds, signed]
    split
    · exact @Derives.unary α false .neg _ _ (.unsigned (.base (.number _)))
    · exact .number value
  | symbol _ => exact .name _
  | @unary op operand _ ih =>
    have hoperand := @derives_bracketed α _ (decide (operand.precedence < 5)) operand 5 ih (by simp)
    exact .unary hoperand
  | binary _ _ ihleft ihright => exact derives_binary ihleft ihright
  | @call name args _ hne _ ih =>
    have hcall := @Derives.call α false name (args.map fun arg => (arg.kinds, arg.signed))
      (by simpa using hne) ?_
    · simpa [precedence, kinds, signed, kindsAll_eq, signedAll_eq, Level.ofPrecedence,
        Function.comp_def] using hcall
    · intro segment hmem
      obtain ⟨arg, harg, rfl⟩ := List.mem_map.1 hmem
      exact (ih arg harg).loosen _ (Level.rank_ofPrecedence_le (Nat.zero_le _))

/-- A printed tree is parsed to itself, with the negative constants as negations. -/
theorem parse_text_eq [NumberText α] {e : Expr α} (h : Writable NumberText.Spelled e) :
    parse e.text = .ok e.signed := by
  obtain ⟨tokens, hscan, hkinds⟩ := (writes_text h).scans.tokens
  rw [parse_eq_ofTokens hscan, ofTokens_eq_ok_iff, hkinds]
  exact (derives_kinds h).loosen _ (Level.rank_ofPrecedence_le (Nat.zero_le _))

end Expr

end SurfaceGeometry
