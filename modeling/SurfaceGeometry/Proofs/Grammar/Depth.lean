import SurfaceGeometry.Proofs.Grammar.Soundness

/-!
# The bound on the depth of the readers

The readers fail when the bound on the depth of their calls is used up. `Expr.settled` says that the
bound with which a text is parsed is never used up: from `12 * n + r` on, for `n` tokens and a level
of rank `r`, a reader gives the same for all bounds. Every call either keeps the tokens and goes to
a tighter level, or is made on fewer tokens, since no reader that succeeds leaves all of them.

All failures of the readers are of one kind (`Expr.only_malformed`).
-/

namespace SurfaceGeometry

open TokenKind Token

namespace Expr

variable {α : Type} {finish depth : Nat} {tokens rest : List (Token α)} {e : Expr α}

/-! ## Failures -/

/-- A text that is no expression. -/
def IsMalformed (error : ExprError α) : Prop :=
  ∃ fault position, error = .malformed fault position

/-- The parse errors are malformed texts. -/
theorem isMalformed_malformed (fault : ParseFault α) (position : Nat) :
    IsMalformed (.malformed fault position) :=
  ⟨fault, position, rfl⟩

/-- All readers fail with a malformed text only. -/
structure OnlyMalformed (finish depth : Nat) : Prop where
  level : ∀ level (tokens : List (Token α)),
    Outcome.FailsOnly IsMalformed (readAt finish depth level tokens)
  operand : ∀ level (tokens : List (Token α)),
    Outcome.FailsOnly IsMalformed (readOperand finish depth level tokens)
  chain : ∀ level left (tokens : List (Token α)),
    Outcome.FailsOnly IsMalformed (readChain finish depth level left tokens)
  arguments : ∀ tokens : List (Token α),
    Outcome.FailsOnly IsMalformed (readArguments finish depth tokens)

/-- A bracket that is not closed makes a malformed text. -/
theorem expectClose_failsOnly (finish opened : Nat) (tokens : List (Token α)) :
    Outcome.FailsOnly IsMalformed (expectClose finish opened tokens) := by
  unfold expectClose
  split
  · exact .error (isMalformed_malformed _ _)
  · exact .ok _
  · exact .error (isMalformed_malformed _ _)

section
variable (ih : @OnlyMalformed α finish depth)
include ih

/-- One step of the reader of a level fails with a malformed text only. -/
theorem readAt_failsOnly (level : Level) (tokens : List (Token α)) :
    Outcome.FailsOnly IsMalformed (readAt finish (depth + 1) level tokens) := by
  cases level with
  | chain level =>
    exact .bind (ih.operand level tokens) fun r => ih.chain level r.1 r.2
  | signed =>
    show Outcome.FailsOnly IsMalformed (readSigned finish (depth + 1) tokens)
    rcases sign_cases tokens with hsign | ⟨op, p, tokens, rfl⟩
    · rw [readSigned_unsigned hsign]
      exact ih.level .power tokens
    · rw [readSigned_sign]
      exact .bind (ih.level .signed tokens) fun _ => .ok _
  | power =>
    show Outcome.FailsOnly IsMalformed (readPower finish (depth + 1) tokens)
    rw [readPower_succ]
    refine .bind (ih.level .primary tokens) fun r => ?_
    rcases head_cases .caret r.2 with hcaret | ⟨p, behind, hcaret⟩
    · rw [readExponent_stop hcaret]
      exact .ok _
    · rw [hcaret, readExponent_caret]
      exact .bind (ih.level .signed behind) fun _ => .ok _
  | primary =>
    show Outcome.FailsOnly IsMalformed (readPrimary finish (depth + 1) tokens)
    rcases primary_cases tokens with ⟨value, p, tokens, rfl⟩ |
      ⟨name, p, opened, tokens, rfl⟩ | ⟨name, p, tokens, rfl, hopen⟩ | ⟨opened, tokens, rfl⟩ |
      rfl | ⟨kind, p, tokens, rfl, hkind⟩
    · exact .ok _
    · rw [readPrimary_call]
      exact .bind (ih.arguments tokens) fun r =>
        .bind (expectClose_failsOnly finish opened r.2) fun _ => .ok _
    · rw [readPrimary_name hopen]
      exact .ok _
    · rw [readPrimary_bracket]
      exact .bind (ih.level (.chain .disjunction) tokens) fun r =>
        .bind (expectClose_failsOnly finish opened r.2) fun _ => .ok _
    · exact .error (isMalformed_malformed _ _)
    · rw [readPrimary_unexpected hkind]
      exact .error (isMalformed_malformed _ _)

/-- One step of the reader of a chain fails with a malformed text only. -/
theorem readChain_failsOnly (level : BinaryLevel) (left : Expr α) (tokens : List (Token α)) :
    Outcome.FailsOnly IsMalformed (readChain finish (depth + 1) level left tokens) := by
  rcases continues_cases level tokens with hstop | ⟨token, tokens, op, rfl, hop⟩ |
    ⟨rfl, token, tokens, rfl, hfactor⟩
  · rw [readChain_stop hstop]
    exact .ok _
  · rw [readChain_operator hop]
    exact .bind (ih.operand level tokens) fun r => ih.chain level (.binary op left r.1) r.2
  · rw [readChain_factor hfactor]
    exact .bind (ih.operand .product _) fun r => ih.chain .product (.binary .mul left r.1) r.2

/-- One step of the reader of arguments fails with a malformed text only. -/
theorem readArguments_failsOnly (tokens : List (Token α)) :
    Outcome.FailsOnly IsMalformed (readArguments finish (depth + 1) tokens) := by
  rw [readArguments_succ]
  refine .bind (ih.level (.chain .disjunction) tokens) fun r => ?_
  rcases head_cases .comma r.2 with hlast | ⟨p, behind, hcomma⟩
  · rw [readFurther_stop hlast]
    exact .ok _
  · rw [hcomma, readFurther_comma]
    exact .bind (ih.arguments behind) fun _ => .ok _

end

/-- All readers fail with a malformed text only, by induction on the depth. -/
theorem only_malformed (finish : Nat) : ∀ depth, @OnlyMalformed α finish depth
  | 0 => by
    constructor
    · rintro (level | _) tokens <;> exact .error (isMalformed_malformed _ _)
    all_goals intros; exact .error (isMalformed_malformed _ _)
  | depth + 1 => by
    have ih := @only_malformed finish depth
    refine ⟨readAt_failsOnly ih, fun level tokens => ?_, readChain_failsOnly ih,
      readArguments_failsOnly ih⟩
    rw [readOperand_succ]
    exact ih.level level.operand tokens

/-! ## The depth that is enough -/

/-- What is read is never empty. -/
theorem length_lt_of_takes {level : Level} (h : Takes level tokens e rest) :
    rest.length < tokens.length := by
  obtain ⟨taken, rfl, htaken⟩ := h
  have hne : taken ≠ [] := fun h => htaken.ne_nil (by rw [h]; rfl)
  have hpos := List.length_pos_iff.2 hne
  rw [List.length_append]
  omega

/-- One level more does not change what the readers give on lists of tokens for which the depth is
enough. -/
structure Settled (finish depth : Nat) : Prop where
  level : ∀ level (tokens : List (Token α)), 12 * tokens.length + level.rank ≤ depth →
    readAt finish (depth + 1) level tokens = readAt finish depth level tokens
  operand : ∀ level (tokens : List (Token α)),
    12 * tokens.length + level.operand.rank + 1 ≤ depth →
    readOperand finish (depth + 1) level tokens = readOperand finish depth level tokens
  chain : ∀ level left (tokens : List (Token α)), 12 * tokens.length + 5 ≤ depth →
    readChain finish (depth + 1) level left tokens = readChain finish depth level left tokens
  arguments : ∀ tokens : List (Token α), 12 * tokens.length + 12 ≤ depth →
    readArguments finish (depth + 1) tokens = readArguments finish depth tokens

section
variable (ih : @Settled α finish depth)
include ih

/-- One step of the reader of a level is settled if the readers below it are. -/
theorem readAt_settled (level : Level) (tokens : List (Token α))
    (h : 12 * tokens.length + level.rank ≤ depth + 1) :
    readAt finish (depth + 2) level tokens = readAt finish (depth + 1) level tokens := by
  -- A reader that is called on the same tokens has a lower rank, and one that is called behind a
  -- token has twelve levels more.
  cases level with
  | chain level =>
    rw [Level.rank_chain] at h
    refine Outcome.bind_congr (ih.operand level tokens (by omega)) fun ⟨first, mid⟩ hfirst => ?_
    have hlength := length_lt_of_takes ((sound finish _).operand hfirst)
    exact ih.chain level first mid (by omega)
  | signed =>
    show readSigned finish (depth + 2) tokens = readSigned finish (depth + 1) tokens
    rcases sign_cases tokens with hsign | ⟨op, p, tokens, rfl⟩
    · rw [readSigned_unsigned hsign, readSigned_unsigned hsign]
      exact ih.level .power tokens (by simp only [Level.rank] at h ⊢; omega)
    · rw [readSigned_sign, readSigned_sign]
      refine Outcome.bind_congr (ih.level .signed tokens ?_) fun _ _ => rfl
      simp only [Level.rank, List.length_cons] at h ⊢
      omega
  | power =>
    show readPower finish (depth + 2) tokens = readPower finish (depth + 1) tokens
    rw [readPower_succ, readPower_succ]
    simp only [Level.rank] at h
    refine Outcome.bind_congr (ih.level .primary tokens (by simp only [Level.rank]; omega))
      fun ⟨base, mid⟩ hbase => ?_
    have hlength := length_lt_of_takes ((sound finish _).level .primary hbase)
    rcases head_cases .caret mid with hcaret | ⟨p, behind, rfl⟩
    · rw [readExponent_stop hcaret, readExponent_stop hcaret]
    · rw [readExponent_caret, readExponent_caret]
      refine Outcome.bind_congr (ih.level .signed behind ?_) fun _ _ => rfl
      simp only [Level.rank, List.length_cons] at hlength ⊢
      omega
  | primary =>
    show readPrimary finish (depth + 2) tokens = readPrimary finish (depth + 1) tokens
    simp only [Level.rank] at h
    rcases primary_cases tokens with ⟨value, p, tokens, rfl⟩ |
      ⟨name, p, opened, tokens, rfl⟩ | ⟨name, p, tokens, rfl, hopen⟩ | ⟨opened, tokens, rfl⟩ |
      rfl | ⟨kind, p, tokens, rfl, hkind⟩
    · rfl
    · rw [readPrimary_call, readPrimary_call]
      refine Outcome.bind_congr (ih.arguments tokens ?_) fun _ _ => rfl
      simp only [List.length_cons] at h
      omega
    · rw [readPrimary_name hopen, readPrimary_name hopen]
    · rw [readPrimary_bracket, readPrimary_bracket]
      refine Outcome.bind_congr (ih.level (.chain .disjunction) tokens ?_) fun _ _ => rfl
      simp only [Level.rank, List.length_cons] at h ⊢
      omega
    · rfl
    · rw [readPrimary_unexpected hkind, readPrimary_unexpected hkind]

/-- One step of the reader of a chain is settled if the readers below it are. -/
theorem readChain_settled (level : BinaryLevel) (left : Expr α) (tokens : List (Token α))
    (h : 12 * tokens.length + 5 ≤ depth + 1) :
    readChain finish (depth + 2) level left tokens =
      readChain finish (depth + 1) level left tokens := by
  rcases continues_cases level tokens with hstop | ⟨token, tokens, op, rfl, hop⟩ |
    ⟨rfl, token, tokens, rfl, hfactor⟩
  · rw [readChain_stop hstop, readChain_stop hstop]
  · rw [readChain_operator hop, readChain_operator hop]
    have hrank := Level.rank_operand_bounds level
    rw [List.length_cons] at h
    refine Outcome.bind_congr (ih.operand level tokens (by omega)) fun ⟨right, behind⟩ hright => ?_
    have hlength := length_lt_of_takes ((sound finish _).operand hright)
    exact ih.chain level _ behind (by omega)
  · rw [readChain_factor hfactor, readChain_factor hfactor]
    refine Outcome.bind_congr (ih.operand .product (token :: tokens) ?_)
      fun ⟨right, behind⟩ hright => ?_
    · simp only [BinaryLevel.operand, Level.rank]
      omega
    · have hlength := length_lt_of_takes ((sound finish _).operand hright)
      exact ih.chain .product _ behind (by omega)

/-- One step of the reader of arguments is settled if the readers below it are. -/
theorem readArguments_settled (tokens : List (Token α))
    (h : 12 * tokens.length + 12 ≤ depth + 1) :
    readArguments finish (depth + 2) tokens = readArguments finish (depth + 1) tokens := by
  rw [readArguments_succ, readArguments_succ]
  refine Outcome.bind_congr (ih.level (.chain .disjunction) tokens ?_) fun ⟨arg, mid⟩ harg => ?_
  · simp only [Level.rank]
    omega
  · have hlength := length_lt_of_takes ((sound finish _).level (.chain .disjunction) harg)
    rcases head_cases .comma mid with hlast | ⟨p, behind, rfl⟩
    · rw [readFurther_stop hlast, readFurther_stop hlast]
    · rw [readFurther_comma, readFurther_comma]
      rw [List.length_cons] at hlength
      exact Outcome.bind_congr (ih.arguments behind (by omega)) fun _ _ => rfl

end

/-- Where the depth is enough for the tokens, more does not change what is read. The induction is on
the depth; every call that a reader makes has fewer tokens, or as many at a tighter level. -/
theorem settled (finish : Nat) : ∀ depth, @Settled α finish depth
  | 0 => by
    constructor
    · intro level tokens h
      have hrank := level.rank_pos
      omega
    all_goals intros; omega
  | depth + 1 => by
    have ih := @settled finish depth
    refine ⟨readAt_settled ih, fun level tokens h => ?_, readChain_settled ih,
      readArguments_settled ih⟩
    rw [readOperand_succ, readOperand_succ]
    exact ih.level level.operand tokens (by omega)

/-- Every bound that is enough gives what the least such bound gives. -/
theorem readAt_eq_of_le {level : Level} (h : 12 * tokens.length + level.rank ≤ depth) :
    readAt finish depth level tokens =
      readAt finish (12 * tokens.length + level.rank) level tokens := by
  obtain ⟨more, rfl⟩ := Nat.exists_eq_add_of_le h
  clear h
  induction more with
  | zero => rfl
  | succ more ih =>
    rw [← ih]
    exact (settled finish _).level level tokens (Nat.le_add_right _ _)

end Expr

end SurfaceGeometry
