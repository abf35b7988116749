import SurfaceGeometry.Proofs.Grammar.Reader

/-!
# What the parser reads is derived

Every reader takes tokens from the front of a list and leaves the others. `Expr.Takes` says that the
tokens taken derive the tree that is given, and `Expr.sound` that this is so for all readers and
every bound on the depth of their calls. The induction is on that bound: one step of each reader,
from the readers one level deeper.
-/

namespace SurfaceGeometry

open TokenKind Token

namespace Expr

variable {α : Type}

/-- The tokens are those of an expression of the level, with the given tree, and `rest`. -/
def Takes (level : Level) (tokens : List (Token α)) (e : Expr α) (rest : List (Token α)) : Prop :=
  ∃ taken, tokens = taken ++ rest ∧ Derives (opens (kinds rest)) level (kinds taken) e

/-- The tokens go on with further operands of a chain, such that a chain with the tree `left` in
front of them becomes one with the tree `e`. -/
def Continues (level : BinaryLevel) (left : Expr α) (tokens : List (Token α)) (e : Expr α)
    (rest : List (Token α)) : Prop :=
  ∃ taken, tokens = taken ++ rest ∧
    ∀ lefts, Derives (opens (kinds tokens)) (.chain level) lefts left →
      Derives (opens (kinds rest)) (.chain level) (lefts ++ kinds taken) e

/-- The tokens are those of one or more expressions with commas between them, before no opening
bracket, and `rest`. -/
def TakesArguments (tokens : List (Token α)) (args : List (Expr α))
    (rest : List (Token α)) : Prop :=
  ∃ taken segments, tokens = taken ++ rest ∧ segments ≠ [] ∧
    kinds taken = commaSeparated (segments.map Prod.fst) ∧ args = segments.map Prod.snd ∧
    ∀ segment ∈ segments, Derives false (.chain .disjunction) segment.1 segment.2

/-- What all readers give at a bound on their depth is derived. -/
structure Sound (finish depth : Nat) : Prop where
  level : ∀ level {tokens : List (Token α)} {e rest},
    readAt finish depth level tokens = .ok (e, rest) → Takes level tokens e rest
  operand : ∀ {level} {tokens : List (Token α)} {e rest},
    readOperand finish depth level tokens = .ok (e, rest) → Takes level.operand tokens e rest
  chain : ∀ {level left} {tokens : List (Token α)} {e rest},
    readChain finish depth level left tokens = .ok (e, rest) → Continues level left tokens e rest
  arguments : ∀ {tokens : List (Token α)} {args rest},
    readArguments finish depth tokens = .ok (args, rest) → opens (kinds rest) = false →
      TakesArguments tokens args rest

section
variable {finish depth : Nat} {tokens rest : List (Token α)} {e : Expr α}
variable (ih : @Sound α finish depth)
include ih

/-- What is read as a chain is derived, if the readers below are sound: an operand, and then the
rest of the chain. -/
theorem takes_of_readBinary {level : BinaryLevel}
    (h : readBinary finish (depth + 1) level tokens = .ok (e, rest)) :
    Takes (.chain level) tokens e rest := by
  rw [readBinary_succ] at h
  obtain ⟨⟨first, mid⟩, hfirst, hchain⟩ := Outcome.bind_eq_ok.1 h
  obtain ⟨lefts, rfl, hlefts⟩ := ih.operand hfirst
  obtain ⟨more, rfl, hmore⟩ := ih.chain hchain
  refine ⟨lefts ++ more, by simp, ?_⟩
  rw [kinds_append]
  exact hmore _ (.operand hlefts)

/-- What is read as an operand is derived. -/
theorem takes_of_readOperand {level : BinaryLevel}
    (h : readOperand finish (depth + 1) level tokens = .ok (e, rest)) :
    Takes level.operand tokens e rest := by
  rw [readOperand_succ] at h
  exact ih.level _ h

/-- What is read behind a chain continues its derivation. -/
theorem continues_of_readChain {level : BinaryLevel} {left : Expr α}
    (h : readChain finish (depth + 1) level left tokens = .ok (e, rest)) :
    Continues level left tokens e rest := by
  rcases continues_cases level tokens with hstop | ⟨token, tokens, op, rfl, hop⟩ |
    ⟨rfl, token, tokens, rfl, hfactor⟩
  · rw [readChain_stop hstop] at h
    cases h
    exact ⟨[], rfl, fun lefts hlefts => by simpa using hlefts⟩
  · rw [readChain_operator hop] at h
    obtain ⟨⟨right, behind⟩, hright, hchain⟩ := Outcome.bind_eq_ok.1 h
    obtain ⟨rights, rfl, hrights⟩ := ih.operand hright
    obtain ⟨more, rfl, hmore⟩ := ih.chain hchain
    refine ⟨token :: rights ++ more, by simp, fun lefts hlefts => ?_⟩
    rw [kinds_cons, opens_cons_of_operator? hop] at hlefts
    have hjoined := hmore _ (.binary hop hlefts hrights)
    simpa using hjoined
  · rw [readChain_factor hfactor] at h
    obtain ⟨⟨right, behind⟩, hright, hchain⟩ := Outcome.bind_eq_ok.1 h
    obtain ⟨rights, htokens, hrights⟩ := ih.operand hright
    obtain ⟨more, rfl, hmore⟩ := ih.chain hchain
    -- A factor is not empty, so it starts with the token that the chain saw.
    match rights, htokens, hrights with
    | [], _, hrights => exact absurd rfl hrights.ne_nil
    | first :: others, htokens, hrights =>
      obtain ⟨rfl, rfl⟩ := List.cons.inj htokens
      refine ⟨token :: others ++ more, by simp, fun lefts hlefts => ?_⟩
      rw [kinds_cons, opens_cons_congr (kinds others)] at hlefts
      have hfollows : factorFollows (kinds (token :: others)) = true := hfactor
      have hjoined := hmore _ (.juxtaposed hfollows hlefts hrights)
      simpa using hjoined

/-- What is read as a signed expression is derived. -/
theorem takes_of_readSigned (h : readSigned finish (depth + 1) tokens = .ok (e, rest)) :
    Takes .signed tokens e rest := by
  rcases sign_cases tokens with hsign | ⟨op, p, tokens, rfl⟩
  · rw [readSigned_unsigned hsign] at h
    obtain ⟨taken, rfl, htaken⟩ := ih.level .power h
    exact ⟨taken, rfl, .unsigned htaken⟩
  · rw [readSigned_sign] at h
    obtain ⟨⟨operand, behind⟩, hoperand, hok⟩ := Outcome.bind_eq_ok.1 h
    cases hok
    obtain ⟨taken, rfl, htaken⟩ := ih.level .signed hoperand
    exact ⟨⟨ofUnary op, p⟩ :: taken, rfl, .unary htaken⟩

/-- What is read as a power is derived. -/
theorem takes_of_readPower (h : readPower finish (depth + 1) tokens = .ok (e, rest)) :
    Takes .power tokens e rest := by
  rw [readPower_succ] at h
  obtain ⟨⟨base, mid⟩, hbase, hmid⟩ := Outcome.bind_eq_ok.1 h
  obtain ⟨bases, rfl, hbases⟩ := ih.level .primary hbase
  rcases head_cases .caret mid with hcaret | ⟨p, mid, rfl⟩
  · rw [readExponent_stop hcaret] at hmid
    cases hmid
    exact ⟨bases, rfl, .base hbases⟩
  · rw [readExponent_caret] at hmid
    obtain ⟨⟨exponent, behind⟩, hexponent, hok⟩ := Outcome.bind_eq_ok.1 hmid
    cases hok
    obtain ⟨exponents, rfl, hexponents⟩ := ih.level .signed hexponent
    refine ⟨bases ++ ⟨.caret, p⟩ :: exponents, by simp, ?_⟩
    have hraised := Derives.raised hbases hexponents
    simpa using hraised

/-- What is read as a primary expression is derived. -/
theorem takes_of_readPrimary (h : readPrimary finish (depth + 1) tokens = .ok (e, rest)) :
    Takes .primary tokens e rest := by
  rcases primary_cases tokens with ⟨value, p, tokens, rfl⟩ |
    ⟨name, p, opened, tokens, rfl⟩ | ⟨name, p, tokens, rfl, hopen⟩ | ⟨opened, tokens, rfl⟩ |
    rfl | ⟨kind, p, tokens, rfl, hkind⟩
  · rw [readPrimary_number] at h
    cases h
    exact ⟨[⟨.number value, p⟩], rfl, .number value⟩
  · rw [readPrimary_call] at h
    obtain ⟨⟨args, behind⟩, hargs, hbehind⟩ := Outcome.bind_eq_ok.1 h
    obtain ⟨closed, hclose, hok⟩ := Outcome.bind_eq_ok.1 hbehind
    cases hok
    obtain ⟨q, rfl⟩ := expectClose_eq_ok hclose
    obtain ⟨taken, segments, rfl, hne, hkinds, rfl, hall⟩ := ih.arguments hargs rfl
    refine ⟨⟨.identifier name, p⟩ :: ⟨.openParen, opened⟩ :: (taken ++ [⟨.closeParen, q⟩]),
      by simp, ?_⟩
    have hcall := @Derives.call α (opens (kinds rest)) name segments hne hall
    simpa [hkinds] using hcall
  · rw [readPrimary_name hopen] at h
    cases h
    refine ⟨[⟨.identifier name, p⟩], rfl, ?_⟩
    rw [hopen]
    exact .name name
  · rw [readPrimary_bracket] at h
    obtain ⟨⟨inner, behind⟩, hinner, hbehind⟩ := Outcome.bind_eq_ok.1 h
    obtain ⟨closed, hclose, hok⟩ := Outcome.bind_eq_ok.1 hbehind
    cases hok
    obtain ⟨q, rfl⟩ := expectClose_eq_ok hclose
    obtain ⟨taken, rfl, htaken⟩ := ih.level (.chain .disjunction) hinner
    refine ⟨⟨.openParen, opened⟩ :: (taken ++ [⟨.closeParen, q⟩]), by simp, ?_⟩
    have hbracketed := @Derives.bracketed α (opens (kinds rest)) _ _ htaken
    simpa using hbracketed
  · cases h
  · rw [readPrimary_unexpected hkind] at h
    cases h

/-- What the reader of a level gives is derived: one of the lemmas above for each level. -/
theorem takes_of_readAt (level : Level)
    (h : readAt finish (depth + 1) level tokens = .ok (e, rest)) :
    Takes level tokens e rest := by
  cases level with
  | chain level => exact takes_of_readBinary ih h
  | signed => exact takes_of_readSigned ih h
  | power => exact takes_of_readPower ih h
  | primary => exact takes_of_readPrimary ih h

/-- What is read as arguments is a list of derived expressions with commas between them. -/
theorem takesArguments_of_readArguments {args : List (Expr α)}
    (h : readArguments finish (depth + 1) tokens = .ok (args, rest))
    (hopens : opens (kinds rest) = false) : TakesArguments tokens args rest := by
  rw [readArguments_succ] at h
  obtain ⟨⟨arg, mid⟩, harg, hmid⟩ := Outcome.bind_eq_ok.1 h
  obtain ⟨first, rfl, hfirst⟩ := ih.level (.chain .disjunction) harg
  rcases head_cases .comma mid with hlast | ⟨q, mid, rfl⟩
  · rw [readFurther_stop hlast] at hmid
    cases hmid
    rw [hopens] at hfirst
    refine ⟨first, [(kinds first, arg)], rfl, by simp, rfl, rfl, ?_⟩
    exact List.forall_mem_cons.2 ⟨hfirst, by simp⟩
  · rw [readFurther_comma] at hmid
    obtain ⟨⟨others, behind⟩, hothers, hok⟩ := Outcome.bind_eq_ok.1 hmid
    cases hok
    obtain ⟨taken, segments, rfl, hne, hkinds, rfl, hall⟩ := ih.arguments hothers hopens
    refine ⟨first ++ ⟨.comma, q⟩ :: taken, (kinds first, arg) :: segments, by simp, by simp, ?_,
      rfl, List.forall_mem_cons.2 ⟨hfirst, hall⟩⟩
    obtain ⟨segment, segments, rfl⟩ := List.exists_cons_of_ne_nil hne
    simpa [commaSeparated] using hkinds

end

/-- Whatever the bound on the depth of the calls, what the readers give is derived. -/
theorem sound (finish : Nat) : ∀ depth, @Sound α finish depth
  | 0 => by
    constructor
    · rintro (level | _) <;> intros <;> contradiction
    all_goals intros; contradiction
  | depth + 1 =>
    have ih := sound finish depth
    ⟨fun level => takes_of_readAt ih level, takes_of_readOperand ih, continues_of_readChain ih,
      takesArguments_of_readArguments ih⟩

end Expr

end SurfaceGeometry
