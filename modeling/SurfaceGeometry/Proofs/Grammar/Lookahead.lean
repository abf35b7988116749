import SurfaceGeometry.Proofs.Grammar.Completeness

/-!
# One token of lookahead

A reader stops where the next token does not go on with what it has read (`Expr.stops`), and of what
is behind it looks at one token only. So it gives the same when what is behind is replaced by
anything that begins with a token of the same kind, whatever the bound on the depth
(`Expr.readAt_eq_of_head`).
-/

namespace SurfaceGeometry

open TokenKind Token

namespace TokenKind

variable {α : Type} {kinds kinds' : List (TokenKind α)}

/-- Whether tokens start with an opening bracket depends on the first one only. -/
theorem opens_congr (h : kinds.head? = kinds'.head?) : opens kinds = opens kinds' := by
  match kinds, kinds', h with
  | [], [], _ => rfl
  | kind :: kinds, _ :: kinds', h =>
    obtain rfl := Option.some.inj h
    exact opens_cons_congr kinds'

/-- The rank at which tokens join depends on the first one only. -/
theorem joins_congr (h : kinds.head? = kinds'.head?) : joins kinds = joins kinds' := by
  match kinds, kinds', h with
  | [], [], _ => rfl
  | kind :: kinds, _ :: kinds', h =>
    obtain rfl := Option.some.inj h
    cases kind <;> rfl

/-- Nothing joins a primary expression. -/
theorem primary_lt_joins (kinds : List (TokenKind α)) : Level.primary.rank < joins kinds := by
  match kinds with
  | [] => exact Nat.le_add_left 2 _
  | kind :: kinds => cases kind <;> exact Nat.le_add_left 2 _

/-- Only a caret joins a power. -/
theorem power_lt_joins (h : kinds.head? ≠ some caret) : Level.power.rank < joins kinds := by
  match kinds, h with
  | [], _ => exact Nat.le_add_left 3 _
  | kind :: kinds, h => cases kind <;> first | exact absurd rfl h | exact Nat.le_add_left 3 _

/-- What joins neither an operand of a chain nor the chain at its own level joins no tighter level
than the chain's. -/
theorem chain_lt_joins {level : BinaryLevel} (h : level.operand.rank < joins kinds)
    (hstop : level.continues kinds = false) : (Level.chain level).rank < joins kinds := by
  match kinds with
  | [] => cases level <;> exact Nat.le_of_ble_eq_true rfl
  | kind :: kinds =>
    cases level <;> cases kind <;>
      simp_all [joins, Level.rank, BinaryLevel.operand, BinaryLevel.continues,
        BinaryLevel.operator?, startsFactor]

/-- Nothing but a closing bracket or a comma stands behind an expression. -/
theorem head_of_disjunction_lt_joins (h : (Level.chain .disjunction).rank < joins kinds) :
    kinds.head? = none ∨ kinds.head? = some closeParen ∨ kinds.head? = some comma := by
  match kinds, h with
  | [], _ => exact .inl rfl
  | kind :: kinds, h =>
    cases kind <;> simp_all [joins, Level.rank]

/-- Tokens that do not join an expression do not start with an opening bracket. -/
theorem opens_of_disjunction_lt_joins (h : (Level.chain .disjunction).rank < joins kinds) :
    opens kinds = false := by
  match kinds, h with
  | [], _ => rfl
  | kind :: kinds, h => cases kind <;> simp_all [joins, Level.rank, opens]

end TokenKind

namespace Expr

variable {α : Type} {finish depth : Nat} {tokens rest : List (Token α)} {e : Expr α}

/-! ## Where readers stop -/

/-- No reader stops before tokens that join what it reads. -/
structure Stops (finish depth : Nat) : Prop where
  level : ∀ level {tokens : List (Token α)} {e rest},
    readAt finish depth level tokens = .ok (e, rest) → level.rank < joins (Token.kinds rest)
  operand : ∀ {level} {tokens : List (Token α)} {e rest},
    readOperand finish depth level tokens = .ok (e, rest) →
      level.operand.rank < joins (Token.kinds rest)
  chain : ∀ {level left} {tokens : List (Token α)} {e rest},
    readChain finish depth level left tokens = .ok (e, rest) →
      level.operand.rank < joins (Token.kinds tokens) →
        (Level.chain level).rank < joins (Token.kinds rest)

section
variable (ih : @Stops α finish depth)
include ih

/-- One step of the reader of a level stops before tokens that do not join it. -/
theorem stops_readAt (level : Level)
    (h : readAt finish (depth + 1) level tokens = .ok (e, rest)) :
    level.rank < joins (Token.kinds rest) := by
  cases level with
  | chain level =>
    obtain ⟨⟨first, mid⟩, hfirst, hchain⟩ := Outcome.bind_eq_ok.1 h
    exact ih.chain hchain (ih.operand hfirst)
  | signed =>
    have hread : readSigned finish (depth + 1) tokens = .ok (e, rest) := h
    rcases sign_cases tokens with hsign | ⟨op, p, tokens, rfl⟩
    · rw [readSigned_unsigned hsign] at hread
      exact signed_lt_joins (ih.level .power hread)
    · rw [readSigned_sign] at hread
      obtain ⟨⟨operand, behind⟩, hoperand, hok⟩ := Outcome.bind_eq_ok.1 hread
      cases hok
      exact ih.level .signed hoperand
  | power =>
    have hread : readPower finish (depth + 1) tokens = .ok (e, rest) := h
    rw [readPower_succ] at hread
    obtain ⟨⟨base, mid⟩, -, hmid⟩ := Outcome.bind_eq_ok.1 hread
    rcases head_cases .caret mid with hcaret | ⟨p, mid, rfl⟩
    · rw [readExponent_stop hcaret] at hmid
      cases hmid
      exact power_lt_joins hcaret
    · rw [readExponent_caret] at hmid
      obtain ⟨⟨exponent, behind⟩, hexponent, hok⟩ := Outcome.bind_eq_ok.1 hmid
      cases hok
      exact Nat.lt_of_succ_lt (ih.level .signed hexponent)
  | primary => exact primary_lt_joins _

/-- One step of the reader of a chain stops before tokens that do not join it, if it starts before
tokens that do not join its operand. -/
theorem stops_readChain {level : BinaryLevel} {left : Expr α}
    (h : readChain finish (depth + 1) level left tokens = .ok (e, rest))
    (hjoins : level.operand.rank < joins (Token.kinds tokens)) :
    (Level.chain level).rank < joins (Token.kinds rest) := by
  rcases continues_cases level tokens with hstop | ⟨token, tokens, op, rfl, hop⟩ |
    ⟨rfl, token, tokens, rfl, hfactor⟩
  · rw [readChain_stop hstop] at h
    cases h
    exact chain_lt_joins hjoins hstop
  · rw [readChain_operator hop] at h
    obtain ⟨⟨right, behind⟩, hright, hchain⟩ := Outcome.bind_eq_ok.1 h
    exact ih.chain hchain (ih.operand hright)
  · rw [readChain_factor hfactor] at h
    obtain ⟨⟨right, behind⟩, hright, hchain⟩ := Outcome.bind_eq_ok.1 h
    exact ih.chain hchain (ih.operand hright)

end

/-- No reader stops before tokens that join what it has read, by induction on the depth. -/
theorem stops (finish : Nat) : ∀ depth, @Stops α finish depth
  | 0 => by
    constructor
    · rintro (level | _) <;> intros <;> contradiction
    all_goals intros; contradiction
  | depth + 1 => by
    have ih := @stops finish depth
    refine ⟨fun level => stops_readAt ih level, fun {level tokens e rest} h => ?_,
      stops_readChain ih⟩
    rw [readOperand_succ] at h
    exact ih.level level.operand h

/-- The arguments of a call end before a closing bracket, or with the tokens. -/
theorem stops_readArguments {args : List (Expr α)}
    (h : readArguments finish depth tokens = .ok (args, rest)) :
    rest = [] ∨ ∃ p behind, rest = ⟨.closeParen, p⟩ :: behind := by
  induction depth generalizing tokens args with
  | zero => cases h
  | succ depth ih =>
    rw [readArguments_succ] at h
    obtain ⟨⟨arg, mid⟩, harg, hmid⟩ := Outcome.bind_eq_ok.1 h
    have hjoins := (stops finish depth).level (.chain .disjunction) harg
    rcases head_cases .comma mid with hlast | ⟨p, mid, rfl⟩
    · rw [readFurther_stop hlast] at hmid
      cases hmid
      rcases rest with _ | ⟨⟨kind, p⟩, rest⟩
      · exact .inl rfl
      · rcases head_of_disjunction_lt_joins hjoins with hnone | hclose | hcomma
        · cases hnone
        · obtain rfl : kind = .closeParen := Option.some.inj hclose
          exact .inr ⟨p, rest, rfl⟩
        · exact absurd hcomma hlast
    · rw [readFurther_comma] at hmid
      obtain ⟨⟨others, behind⟩, hothers, hok⟩ := Outcome.bind_eq_ok.1 hmid
      cases hok
      exact ih hothers

/-! ## What is behind an expression -/

/-- What a reader gives is given at every depth that is enough, and wherever the text ends, before
all tokens with the same first kind. -/
theorem readAt_relook {level : Level} {taken rest' : List (Token α)} {finish' depth' : Nat}
    (h : readAt finish depth level (taken ++ rest) = .ok (e, rest))
    (hhead : (Token.kinds rest).head? = (Token.kinds rest').head?)
    (hdepth : 12 * taken.length + level.rank ≤ depth') :
    readAt finish' depth' level (taken ++ rest') = .ok (e, rest') := by
  obtain ⟨taken', htokens, htaken⟩ := (sound finish depth).level level h
  obtain rfl := List.append_cancel_right htokens
  have hstop := (stops finish depth).level level h
  rw [joins_congr hhead] at hstop
  rw [opens_congr hhead] at htaken
  exact (@reads_of_derives α finish' _ _ _ _ htaken taken rfl).whole rest' depth' rfl hstop hdepth

/-- Two readings that see the same tokens, up to one behind the first of them, have the same tree.
-/
theorem readAt_eq_of_head (level : Level) {taken rest' : List (Token α)} {finish' depth' : Nat}
    {r : Reading α} (h : readAt finish depth level (taken ++ rest) = .ok (e, rest))
    (hhead : (Token.kinds rest).head? = (Token.kinds rest').head?)
    (h' : readAt finish' depth' level (taken ++ rest') = .ok r) : r = (e, rest') := by
  obtain ⟨e', behind⟩ := r
  obtain ⟨taken', htokens, -⟩ := (sound finish' depth').level level h'
  -- Both are read again at a depth that is enough for both.
  let enough := 12 * (taken.length + taken'.length) + level.rank
  have hfirst := @readAt_relook α finish depth rest e level taken rest' finish enough h hhead
    (by simp only [enough]; omega)
  rw [htokens] at h' hfirst
  have hsecond := @readAt_relook α finish' depth' behind e' level taken' behind finish enough h' rfl
    (by simp only [enough]; omega)
  rw [hfirst] at hsecond
  exact (Except.ok.inj hsecond).symm

/-- What is read as an operand is read again before other tokens with the same first one, at any
depth at which an operand is read there. -/
theorem readOperand_eq_of_head {level : BinaryLevel} {taken rest' : List (Token α)}
    {finish' depth' : Nat} {r : Reading α}
    (h : readOperand finish depth level (taken ++ rest) = .ok (e, rest))
    (hhead : (Token.kinds rest).head? = (Token.kinds rest').head?)
    (h' : readOperand finish' depth' level (taken ++ rest') = .ok r) : r = (e, rest') := by
  match depth, depth', h, h' with
  | depth + 1, depth' + 1, h, h' =>
    rw [readOperand_succ] at h h'
    exact readAt_eq_of_head level.operand h hhead h'

end Expr

end SurfaceGeometry
