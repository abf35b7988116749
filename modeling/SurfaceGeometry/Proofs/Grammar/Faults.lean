import SurfaceGeometry.Proofs.Grammar.Beginnings
import SurfaceGeometry.Proofs.Grammar.Parse
import SurfaceGeometry.Proofs.Token.Lexeme

/-!
# Where reading fails

A reader that fails names the earliest place it can (`Expr.located`): what stands before the place
is the beginning of something the reader accepts, and no tokens that begin with all that the reader
has seen, the token at the place included, are. For a whole text this is
`Expr.parse_error_earliest`.

The induction is on the bound on the depth, as for `Expr.settled`, since a bound that is used up
gives an error of its own. A reader that fails in a later step has read tokens in the steps before,
and that these would be read the same before any other tokens is `Expr.readAt_eq_of_head`.
-/

namespace SurfaceGeometry

open TokenKind Token

namespace Expr

variable {α : Type} {finish depth : Nat} {tokens : List (Token α)} {e : Expr α}

/-! ## One step of each reader -/

/-- Every error of the readers is about the earliest place, on lists of tokens for which the depth
is enough. -/
structure Located (finish depth : Nat) : Prop where
  level : ∀ level (tokens : List (Token α)), 12 * tokens.length + level.rank ≤ depth →
    Outcome.FailsOnly (Blames finish (Begins level) (Refused level) tokens)
      (readAt finish depth level tokens)
  operand : ∀ level (tokens : List (Token α)),
    12 * tokens.length + level.operand.rank + 1 ≤ depth →
    Outcome.FailsOnly (Blames finish (Begins level.operand) (Refused level.operand) tokens)
      (readOperand finish depth level tokens)
  chain : ∀ level left (tokens : List (Token α)), 12 * tokens.length + 5 ≤ depth →
    Outcome.FailsOnly
      (Blames finish (BeginsChain (opens (Token.kinds tokens)) level) (RefusedChain level) tokens)
      (readChain finish depth level left tokens)
  arguments : ∀ tokens : List (Token α), 12 * tokens.length + 12 ≤ depth →
    Outcome.FailsOnly (Blames finish BeginsArguments RefusedArguments tokens)
      (readArguments finish depth tokens)

section
variable (ih : @Located α finish depth)
include ih

/-- An operand and the rest of its chain, to whatever tree the operand is joined. -/
theorem operands_located (level : BinaryLevel) (join : Expr α → Expr α) (tokens : List (Token α))
    (h : 12 * tokens.length + level.operand.rank + 1 ≤ depth) :
    Outcome.FailsOnly (Blames finish (BeginsOperands level) (RefusedOperands level) tokens)
      (readOperand finish depth level tokens >>= fun s =>
        readChain finish depth level (join s.1) s.2) := by
  refine .bind_of_ok ((ih.operand level tokens h).mono fun error herror => ?_) ?_
  · refine herror.first (fun seen _ => ?_) fun seen _ _ hstuck => ?_
    · exact Begins.operands
    · intro finish depth join more r hread
      obtain ⟨s, hoperand, -⟩ := Outcome.bind_eq_ok.1 hread
      exact hstuck.operand finish depth more s hoperand
  · rintro ⟨right, mid⟩ hright
    -- The operand is read before any tokens that start with the same one, so only the rest counts.
    obtain ⟨rights, rfl, hrights⟩ := (sound finish depth).operand hright
    have hlength := length_lt_of_takes ⟨rights, rfl, hrights⟩
    refine (ih.chain level (join right) mid (by omega)).mono fun error herror => ?_
    refine herror.behind rights (fun seen _ => ?_) fun seen hseen hne hstuck => ?_
    · rintro ⟨more, hmore⟩
      exact ⟨more, _, Token.kinds rights, right, Token.kinds (seen ++ more), by simp, hrights,
        hmore⟩
    · intro finish depth join more r hread
      rw [List.append_assoc] at hread
      obtain ⟨s, hoperand, hchain⟩ := Outcome.bind_eq_ok.1 hread
      obtain rfl := readOperand_eq_of_head hright (head?_of_isPrefix hseen hne more) hoperand
      exact hstuck finish depth (join right) more r hchain

/-- A chain fails where its first operand does, or where the rest does. -/
theorem readBinary_located (level : BinaryLevel) (tokens : List (Token α))
    (h : 12 * tokens.length + (Level.chain level).rank ≤ depth + 1) :
    Outcome.FailsOnly (Blames finish (Begins (.chain level)) (Refused (.chain level)) tokens)
      (readBinary finish (depth + 1) level tokens) := by
  rw [Level.rank_chain] at h
  rw [readBinary_succ]
  refine (operands_located ih level id tokens (by omega)).mono fun error herror => ?_
  refine herror.first (fun seen _ => ?_) fun seen _ _ hstuck => ?_
  · rintro ⟨more, bracket, rights, right, behind, hkinds, hright, hbehind⟩
    obtain ⟨e, hderives⟩ := hbehind rights right (.operand hright)
    exact ⟨more, e, by rwa [hkinds]⟩
  · exact refused_of_succ fun finish depth more r => hstuck finish depth id more r

/-- The rest of a chain fails in an operand behind an operator. Without an operator it is empty and
does not fail. -/
theorem readChain_located (level : BinaryLevel) (left : Expr α) (tokens : List (Token α))
    (h : 12 * tokens.length + 5 ≤ depth + 1) :
    Outcome.FailsOnly
      (Blames finish (BeginsChain (opens (Token.kinds tokens)) level) (RefusedChain level) tokens)
      (readChain finish (depth + 1) level left tokens) := by
  rcases continues_cases level tokens with hstop | ⟨token, tokens, op, rfl, hop⟩ |
    ⟨rfl, token, tokens, rfl, hfactor⟩
  · rw [readChain_stop hstop]
    exact .ok _
  · have hrank := Level.rank_operand_bounds level
    rw [List.length_cons] at h
    rw [readChain_operator hop, kinds_cons, opens_cons_of_operator? hop]
    refine (operands_located ih level _ tokens (by omega)).mono fun error herror => ?_
    refine herror.behind [token] (fun seen _ => ?_) fun seen _ _ hstuck => ?_
    · rintro ⟨more, bracket, rights, right, behind, hkinds, hright, hbehind⟩
      refine ⟨more, fun lefts left hleft => ?_⟩
      have hjoined := hbehind _ _ (.binary hop hleft hright)
      simpa [hkinds] using hjoined
    · rintro finish (_ | depth) left more r hread
      · cases hread
      · rw [List.append_assoc, List.singleton_append, readChain_operator hop] at hread
        exact hstuck finish depth _ more r hread
  · rw [readChain_factor hfactor]
    have hrank : 12 * (token :: tokens).length + BinaryLevel.product.operand.rank + 1 ≤ depth := by
      simp only [BinaryLevel.operand, Level.rank]
      omega
    refine (operands_located ih .product _ (token :: tokens) hrank).mono fun error herror => ?_
    refine herror.first (fun seen hseen hbegun => ?_) fun seen hseen hne hstuck => ?_
    · cases seen with
      | cons first seen =>
        obtain ⟨rfl, -⟩ := List.cons_prefix_cons.1 hseen
        exact hbegun.factors hfactor
      -- A factor can be made of the token the chain saw, so nothing is refused before it.
      | nil =>
        have hoperand : Begins BinaryLevel.product.operand [token] := begins_factor hfactor
        obtain ⟨more, hmore⟩ := @BeginsOperands.factors α token [] tokens hfactor hoperand.operands
        exact ⟨token :: more, hmore⟩
    · obtain ⟨first, seen, rfl⟩ := List.exists_cons_of_ne_nil hne
      obtain ⟨rfl, -⟩ := List.cons_prefix_cons.1 hseen
      rintro finish (_ | depth) left more r hread
      · cases hread
      · rw [List.cons_append, readChain_factor hfactor] at hread
        exact hstuck finish depth _ more r hread

/-- A signed expression fails behind its signs, where the power does. -/
theorem readSigned_located (tokens : List (Token α))
    (h : 12 * tokens.length + Level.signed.rank ≤ depth + 1) :
    Outcome.FailsOnly (Blames finish (Begins .signed) (Refused .signed) tokens)
      (readSigned finish (depth + 1) tokens) := by
  rcases sign_cases tokens with hsign | ⟨op, p, tokens, rfl⟩
  · rw [readSigned_unsigned hsign]
    have hrank : 12 * tokens.length + Level.power.rank ≤ depth := by
      simp only [Level.rank] at h ⊢
      omega
    refine (ih.level .power tokens hrank).mono fun error herror => ?_
    refine herror.first (fun seen _ => ?_) fun seen hseen hne hstuck => ?_
    · rintro ⟨more, e, hderives⟩
      exact ⟨more, e, .unsigned hderives⟩
    · refine refused_of_succ fun finish depth more r hread => ?_
      rw [head?_of_isPrefix hseen hne more] at hsign
      rw [readAt, readSigned_unsigned hsign] at hread
      exact hstuck finish depth more r hread
  · rw [readSigned_sign]
    have hrank : 12 * tokens.length + Level.signed.rank ≤ depth := by
      simp only [Level.rank, List.length_cons] at h ⊢
      omega
    refine .bind ((ih.level .signed tokens hrank).mono fun error herror => ?_) fun _ => .ok _
    refine herror.behind [⟨ofUnary op, p⟩] (fun seen _ => ?_) fun seen _ _ hstuck => ?_
    · rintro ⟨more, e, hderives⟩
      exact ⟨more, _, .unary hderives⟩
    · exact hstuck.bind [⟨ofUnary op, p⟩] fun finish depth more => readSigned_sign

/-- A power fails in its base or, behind a caret, in its exponent. -/
theorem readPower_located (tokens : List (Token α))
    (h : 12 * tokens.length + Level.power.rank ≤ depth + 1) :
    Outcome.FailsOnly (Blames finish (Begins .power) (Refused .power) tokens)
      (readPower finish (depth + 1) tokens) := by
  have hrank : 12 * tokens.length + Level.primary.rank ≤ depth := by
    simp only [Level.rank] at h ⊢
    omega
  rw [readPower_succ]
  refine .bind_of_ok ((ih.level .primary tokens hrank).mono fun error herror => ?_) ?_
  · refine herror.first (fun seen _ => ?_) fun seen _ _ hstuck => ?_
    · rintro ⟨more, e, hderives⟩
      exact ⟨more, e, .base hderives⟩
    · exact hstuck.bind [] fun finish depth more => readPower_succ
  · rintro ⟨base, mid⟩ hbase
    obtain ⟨bases, rfl, hbases⟩ := (sound finish depth).level .primary hbase
    rcases head_cases .caret mid with hcaret | ⟨p, tokens, rfl⟩
    · rw [readExponent_stop hcaret]
      exact .ok _
    · have hlength := length_lt_of_takes ⟨bases, rfl, hbases⟩
      have hexponent : 12 * tokens.length + Level.signed.rank ≤ depth := by
        simp only [Level.rank, List.length_cons] at hlength hrank ⊢
        omega
      rw [readExponent_caret, List.append_cons]
      refine .bind ((ih.level .signed tokens hexponent).mono fun error herror => ?_) fun _ => .ok _
      refine herror.behind (bases ++ [⟨.caret, p⟩]) (fun seen _ => ?_) fun seen _ _ hstuck => ?_
      · rintro ⟨more, e, hderives⟩
        exact ⟨more, _, by simpa using Derives.raised hbases hderives⟩
      · refine refused_of_succ fun finish depth more r hread => ?_
        rw [readAt, readPower_succ, List.append_assoc, List.append_assoc] at hread
        obtain ⟨s, hprimary, hmid⟩ := Outcome.bind_eq_ok.1 hread
        -- The same base is read again, because the caret that ends it is still there.
        have hcaret : (Token.kinds (⟨.caret, p⟩ :: tokens)).head? =
            (Token.kinds ([⟨.caret, p⟩] ++ (seen ++ more))).head? := rfl
        obtain rfl := readAt_eq_of_head .primary hbase hcaret hprimary
        rw [List.singleton_append, readExponent_caret] at hmid
        obtain ⟨exponent, hsigned, -⟩ := Outcome.bind_eq_ok.1 hmid
        exact hstuck finish depth more exponent hsigned

/-- A call fails in its arguments, or where the bracket should be closed. -/
theorem readCall_located {name : String} {p opened : Nat} (tokens : List (Token α))
    (h : 12 * tokens.length + 12 ≤ depth) :
    Outcome.FailsOnly
      (Blames finish (Begins .primary) (Refused .primary)
        (⟨.identifier name, p⟩ :: ⟨.openParen, opened⟩ :: tokens))
      (readPrimary finish (depth + 1)
        (⟨.identifier name, p⟩ :: ⟨.openParen, opened⟩ :: tokens)) := by
  rw [readPrimary_call]
  refine .bind_of_ok ((ih.arguments tokens h).mono fun error herror => ?_) ?_
  · refine herror.behind [⟨.identifier name, p⟩, ⟨.openParen, opened⟩]
      (fun seen _ => BeginsArguments.call) fun seen _ _ hstuck => ?_
    refine refused_of_succ fun finish depth more r hread => ?_
    rw [readAt, List.append_assoc, List.cons_append, List.singleton_append,
      readPrimary_call] at hread
    obtain ⟨s, hmore, -⟩ := Outcome.bind_eq_ok.1 hread
    exact hstuck finish depth more s hmore
  -- Arguments end before the closing bracket that is asked for, unless the text ends.
  · rintro ⟨args, behind⟩ hargs
    refine .bind (fun error herror => ?_) fun _ => .ok _
    rcases stops_readArguments hargs with rfl | ⟨q, behind, rfl⟩
    · cases herror
      obtain ⟨taken, segments, htokens, hne, hkinds, -, hall⟩ :=
        (sound finish depth).arguments hargs rfl
      rw [List.append_nil] at htokens
      subst htokens
      have hbegun : BeginsArguments tokens := ⟨[], segments, hne, by rwa [List.append_nil], hall⟩
      exact .finish rfl hbegun.call
    · cases herror

/-- An expression in brackets fails inside, or where the bracket should be closed. -/
theorem readBracket_located {opened : Nat} (tokens : List (Token α))
    (h : 12 * tokens.length + (Level.chain .disjunction).rank ≤ depth) :
    Outcome.FailsOnly
      (Blames finish (Begins .primary) (Refused .primary) (⟨.openParen, opened⟩ :: tokens))
      (readPrimary finish (depth + 1) (⟨.openParen, opened⟩ :: tokens)) := by
  rw [readPrimary_bracket]
  refine .bind_of_ok ((ih.level _ tokens h).mono fun error herror => ?_) ?_
  · refine herror.behind [⟨.openParen, opened⟩] (fun seen _ => Begins.bracketed)
      fun seen _ _ hstuck => ?_
    exact hstuck.bind [⟨.openParen, opened⟩] fun finish depth more => readPrimary_bracket
  · rintro ⟨inner, behind⟩ hinner
    refine .bind (fun error herror => ?_) fun _ => .ok _
    obtain ⟨taken, rfl, htaken⟩ := (sound finish depth).level (.chain .disjunction) hinner
    have hjoins := (stops finish depth).level (.chain .disjunction) hinner
    rcases behind with _ | ⟨⟨kind, q⟩, behind⟩
    · cases herror
      have hbegun : Begins (.chain .disjunction) taken := ⟨[], inner, by rwa [List.append_nil]⟩
      rw [List.append_nil]
      exact .finish rfl hbegun.bracketed
    -- A whole expression can also end before a comma, which closes no bracket.
    · rcases head_of_disjunction_lt_joins hjoins with hnone | hclose | hcomma
      · cases hnone
      · obtain rfl : kind = .closeParen := Option.some.inj hclose
        cases herror
      · obtain rfl : kind = .comma := Option.some.inj hcomma
        cases herror
        have hbegun : Begins (.chain .disjunction) taken := ⟨[], inner, by rwa [List.append_nil]⟩
        refine .token (List.cons_append ..).symm rfl hbegun.bracketed ?_
        refine refused_of_succ fun finish depth more r hread => ?_
        rw [readAt, List.cons_append, List.cons_append, readPrimary_bracket,
          List.append_assoc] at hread
        obtain ⟨s, hread, hclose⟩ := Outcome.bind_eq_ok.1 hread
        have hhead : (Token.kinds (⟨.comma, q⟩ :: behind)).head? =
            (Token.kinds ([⟨.comma, q⟩] ++ more)).head? := rfl
        obtain rfl := readAt_eq_of_head (.chain .disjunction) hinner hhead hread
        cases hclose

/-- A primary expression fails at its first token, if that is not one to start with, or as a call or
a bracketed expression does. -/
theorem readPrimary_located (tokens : List (Token α))
    (h : 12 * tokens.length + Level.primary.rank ≤ depth + 1) :
    Outcome.FailsOnly (Blames finish (Begins .primary) (Refused .primary) tokens)
      (readPrimary finish (depth + 1) tokens) := by
  simp only [Level.rank] at h
  rcases primary_cases tokens with ⟨value, p, tokens, rfl⟩ | ⟨name, p, opened, tokens, rfl⟩ |
    ⟨name, p, tokens, rfl, hopen⟩ | ⟨opened, tokens, rfl⟩ | rfl | ⟨kind, p, tokens, rfl, hkind⟩
  · exact .ok _
  · rw [List.length_cons, List.length_cons] at h
    exact readCall_located ih tokens (by omega)
  · rw [readPrimary_name hopen]
    exact .ok _
  · rw [List.length_cons] at h
    exact readBracket_located ih tokens (by simp only [Level.rank]; omega)
  · refine .error (.finish rfl ?_)
    exact ⟨[⟨identifier "x", 0⟩], _, .name "x"⟩
  · rw [readPrimary_unexpected hkind]
    refine .error (@Blames.token _ _ _ _ _ [] ⟨kind, p⟩ tokens _ rfl rfl ?_ ?_)
    · exact ⟨[⟨identifier "x", 0⟩], _, .name "x"⟩
    · refine refused_of_succ fun finish depth more r hread => ?_
      rw [readAt, List.nil_append, List.singleton_append, readPrimary_unexpected hkind] at hread
      cases hread

/-- Arguments fail in the first of them, or behind a comma in the others. -/
theorem readArguments_located (tokens : List (Token α))
    (h : 12 * tokens.length + 12 ≤ depth + 1) :
    Outcome.FailsOnly (Blames finish BeginsArguments RefusedArguments tokens)
      (readArguments finish (depth + 1) tokens) := by
  have hrank : 12 * tokens.length + (Level.chain .disjunction).rank ≤ depth := by
    simp only [Level.rank]
    omega
  rw [readArguments_succ]
  refine .bind_of_ok ((ih.level _ tokens hrank).mono fun error herror => ?_) ?_
  · refine herror.first (fun seen _ => ?_) fun seen _ _ hstuck => ?_
    · rintro ⟨more, e, hderives⟩
      exact ⟨more, [(Token.kinds (seen ++ more), e)], by simp, rfl,
        List.forall_mem_singleton.2 hderives⟩
    · rintro finish (_ | depth) more r hread
      · cases hread
      · rw [readArguments_succ] at hread
        obtain ⟨s, hfirst, -⟩ := Outcome.bind_eq_ok.1 hread
        exact hstuck finish depth more s hfirst
  · rintro ⟨arg, mid⟩ harg
    obtain ⟨first, rfl, hfirst⟩ := (sound finish depth).level (.chain .disjunction) harg
    rcases head_cases .comma mid with hlast | ⟨p, tokens, rfl⟩
    · rw [readFurther_stop hlast]
      exact .ok _
    · have hlength := length_lt_of_takes ⟨first, rfl, hfirst⟩
      rw [List.length_cons] at hlength
      rw [readFurther_comma, List.append_cons]
      refine .bind ((ih.arguments tokens (by omega)).mono fun error herror => ?_) fun _ => .ok _
      refine herror.behind (first ++ [⟨.comma, p⟩]) (fun seen _ => ?_) fun seen _ _ hstuck => ?_
      · rintro ⟨more, segments, hne, hkinds, hall⟩
        refine ⟨more, (Token.kinds first, arg) :: segments, by simp, ?_,
          List.forall_mem_cons.2 ⟨hfirst, hall⟩⟩
        obtain ⟨segment, segments, rfl⟩ := List.exists_cons_of_ne_nil hne
        simpa [commaSeparated] using hkinds
      · rintro finish (_ | depth) more r hread
        · cases hread
        · rw [readArguments_succ, List.append_assoc, List.append_assoc] at hread
          obtain ⟨s, hagain, hmid⟩ := Outcome.bind_eq_ok.1 hread
          -- The same argument is read again, because the comma that ends it is still there.
          have hcomma : (Token.kinds (⟨.comma, p⟩ :: tokens)).head? =
              (Token.kinds ([⟨.comma, p⟩] ++ (seen ++ more))).head? := rfl
          obtain rfl := readAt_eq_of_head (.chain .disjunction) harg hcomma hagain
          rw [List.singleton_append, readFurther_comma] at hmid
          obtain ⟨others, hothers, -⟩ := Outcome.bind_eq_ok.1 hmid
          exact hstuck finish depth more others hothers

/-- The reader of a level fails at the earliest place: one of the lemmas above for each level. -/
theorem readAt_located (level : Level) (tokens : List (Token α))
    (h : 12 * tokens.length + level.rank ≤ depth + 1) :
    Outcome.FailsOnly (Blames finish (Begins level) (Refused level) tokens)
      (readAt finish (depth + 1) level tokens) := by
  cases level with
  | chain level => exact readBinary_located ih level tokens h
  | signed => exact readSigned_located ih tokens h
  | power => exact readPower_located ih tokens h
  | primary => exact readPrimary_located ih tokens h

end

/-- Every error of the readers is about the earliest place. The induction is on the depth, with one
step of each reader. -/
theorem located (finish : Nat) : ∀ depth, @Located α finish depth
  | 0 => by
    constructor
    · intro level tokens h
      have hrank := level.rank_pos
      omega
    all_goals intros; omega
  | depth + 1 => by
    have ih := @located finish depth
    refine ⟨readAt_located ih, fun level tokens h => ?_, readChain_located ih,
      readArguments_located ih⟩
    rw [readOperand_succ]
    exact ih.level level.operand tokens (by omega)

/-! ## Whole texts -/

/-- Some tokens behind these make them an expression. -/
def Viable (tokens : List (Token α)) : Prop :=
  ∃ finish more e, ofTokens finish (tokens ++ more) = .ok e

/-- A beginning of an expression is one of a whole text, since the tokens behind it can be chosen.
-/
theorem Begins.viable (h : Begins (.chain .disjunction) tokens) : Viable tokens := by
  obtain ⟨more, e, hderives⟩ := h
  exact ⟨0, more, e, ofTokens_eq_ok_iff.2 hderives⟩

/-- What the reader of expressions refuses is no beginning of a text, whatever stands behind it. -/
theorem Refused.not_viable (h : Refused (.chain .disjunction) tokens) : ¬Viable tokens := by
  rintro ⟨finish, more, e, hok⟩
  rw [ofTokens_eq] at hok
  obtain ⟨r, hread, -⟩ := Outcome.bind_eq_ok.1 hok
  exact h _ _ more r hread

/-- Tokens behind a whole expression make no longer one. -/
theorem not_viable_of_trailing {taken behind : List (Token α)} {token : Token α}
    (h : readAt finish depth (.chain .disjunction) (taken ++ token :: behind) =
      .ok (e, token :: behind)) : ¬Viable (taken ++ [token]) := by
  rintro ⟨finish', more, e', hok⟩
  have hderives := ofTokens_eq_ok_iff.1 hok
  have hread := @readAt_of_derives α finish' _ _ _ _ hderives (Nat.le_refl _)
  rw [List.append_assoc] at hread
  have hhead : (Token.kinds (token :: behind)).head? = (Token.kinds ([token] ++ more)).head? := rfl
  cases readAt_eq_of_head _ h hhead hread

/-- A text without an expression is blamed on the earliest place: on what the reader of expressions
blames, or on the token behind the expression that it has read. -/
theorem ofTokens_blames {error : ExprError α} (h : ofTokens finish tokens = .error error) :
    Blames finish Viable (¬Viable ·) tokens error := by
  rw [ofTokens_eq] at h
  rcases Outcome.bind_eq_error.1 h with hread | ⟨⟨e, rest⟩, hread, htrailing⟩
  · have hlocated :=
      (located finish _).level (.chain .disjunction) tokens (Nat.le_succ _) error hread
    exact hlocated.first (fun _ _ => Begins.viable) fun _ _ _ => Refused.not_viable
  · obtain ⟨taken, rfl, htaken⟩ := (sound finish _).level (.chain .disjunction) hread
    match rest, htrailing with
    | token :: behind, htrailing =>
      cases htrailing
      -- Whatever follows a whole expression opens no bracket.
      have hjoins := (stops finish _).level (.chain .disjunction) hread
      rw [opens_of_disjunction_lt_joins hjoins] at htaken
      have hbegun : Begins (.chain .disjunction) taken := ⟨[], e, by rwa [List.append_nil]⟩
      exact .token rfl rfl hbegun.viable (not_viable_of_trailing hread)

/-- The error of a text that has tokens and is no expression is about the earliest place. Either it
is about a token, at its position: the tokens before it can be extended to an expression, and no
tokens that begin with these and this one are one. Or it is at the end of the text, and the tokens
can be extended to an expression. -/
theorem parse_error_earliest [Scalar α] {text : String} {error : ExprError α}
    (hscan : Token.scan text = .ok tokens) (hparse : parse text = .error error) :
    ∃ fault position, error = .malformed fault position ∧
      ((∃ before token after, tokens = before ++ token :: after ∧ position = token.position ∧
          fault.found? = some token.kind ∧ Viable before ∧ ¬Viable (before ++ [token])) ∨
        (position = text.length ∧ fault.found? = none ∧ Viable tokens)) := by
  rw [parse_eq_ofTokens hscan] at hparse
  cases ofTokens_blames hparse with
  | @token before token after fault split found begun stuck =>
    exact ⟨fault, _, rfl, .inl ⟨before, token, after, split, rfl, found, begun, stuck⟩⟩
  | @finish fault found begun => exact ⟨fault, _, rfl, .inr ⟨rfl, found, begun⟩⟩

/-- A comma where a bracket has to be closed. -/
theorem parse_error_earliest_comma :
    ∃ tokens : List (Token Float), Token.scan "(1,2)" = .ok tokens ∧
      parse "(1,2)" = .error (.malformed (.notClosed 0 .comma) 2 : ExprError Float) ∧
      ∃ before token after, tokens = before ++ token :: after ∧ 2 = token.position ∧
        Viable before ∧ ¬Viable (before ++ [token]) := by
  let digit (n : Nat) : TokenKind Float := .number (Scalar.ofDecimal ⟨n, 0⟩)
  have hone : Longest ['1', ',', '2', ')'] ['1'] (digit 1) := .number rfl rfl
  have htwo : Longest ['2', ')'] ['2'] (digit 2) := .number rfl rfl
  have hcut : Piece.Cut "(1,2)".toList [.lexeme ['('] .openParen, .lexeme ['1'] (digit 1),
      .lexeme [','] .comma, .lexeme ['2'] (digit 2), .lexeme [')'] .closeParen] [] := by
    refine .lexeme (.operator rfl) rfl ?_
    refine .lexeme hone rfl ?_
    refine .lexeme (.operator rfl) rfl ?_
    refine .lexeme htwo rfl ?_
    exact .lexeme (.operator rfl) rfl (.nil [])
  have hscan := scan_of_cut hcut
  have hparse : parse "(1,2)" = .error (.malformed (.notClosed 0 .comma) 2 : ExprError Float) := by
    rw [parse_eq_ofTokens hscan]
    rfl
  obtain ⟨fault, position, herror, hplace⟩ := parse_error_earliest hscan hparse
  cases herror
  rcases hplace with ⟨before, token, after, hsplit, hposition, -, hviable, hstuck⟩ | ⟨-, hfound, -⟩
  · exact ⟨_, hscan, hparse, before, token, after, hsplit, hposition, hviable, hstuck⟩
  · cases hfound

end Expr

end SurfaceGeometry
