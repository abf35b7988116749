import SurfaceGeometry.Proofs.Grammar.Completeness
import SurfaceGeometry.Proofs.Token.Scanning
import SurfaceGeometry.Scalar.Double

/-!
# The parser and the grammar

The parser accepts a text whose tokens are an expression, with the tree of its only derivation, and
no other text.
-/

namespace SurfaceGeometry

open TokenKind Token

namespace Expr

variable {α : Type} {finish : Nat} {tokens : List (Token α)} {e : Expr α}

/-- A parse is one reading of an expression and a look at the token behind it. -/
theorem ofTokens_eq :
    ofTokens finish tokens =
      readAt finish (12 * tokens.length + 12) (.chain .disjunction) tokens >>= fun r =>
        match r.2 with
        | [] => .ok r.1
        | token :: _ => .error (.malformed (.trailing token.kind) token.position) := by
  rw [ofTokens]
  congr 1
  funext r
  match r with
  | (tree, []) => rfl
  | (tree, token :: rest) => rfl

/-- Tokens are accepted with the tree of a derivation. -/
theorem ofTokens_eq_ok_iff :
    ofTokens finish tokens = .ok e ↔ Derives false (.chain .disjunction) (kinds tokens) e := by
  rw [ofTokens_eq]
  constructor
  · intro h
    obtain ⟨⟨tree, rest⟩, hread, hrest⟩ := Outcome.bind_eq_ok.1 h
    match rest, hrest with
    | [], rfl =>
      obtain ⟨taken, htokens, htaken⟩ := (sound finish _).level _ hread
      rw [List.append_nil] at htokens
      subst htokens
      exact htaken
  · intro h
    have hdepth : 12 * tokens.length + (Level.chain .disjunction).rank ≤ 12 * tokens.length + 12 :=
      Nat.le_succ _
    rw [readAt_of_derives h hdepth]
    rfl

/-- Tokens that are not accepted are malformed. -/
theorem ofTokens_failsOnly : Outcome.FailsOnly IsMalformed (ofTokens finish tokens) := by
  rw [ofTokens_eq]
  refine .bind ((only_malformed finish _).level _ tokens) fun r => ?_
  split
  · exact .ok _
  · exact .error (isMalformed_malformed _ _)

variable [Scalar α]

/-- A text is parsed by scanning it and reading its tokens. -/
theorem parse_eq_ofTokens {text : String} (h : Token.scan text = .ok tokens) :
    parse text = ofTokens text.length tokens := by
  rw [parse, h]
  rfl

/-- A text that has tokens is parsed to a tree if and only if its tokens derive the tree; no tokens
derive two trees; and if they derive none, the text is malformed. The answer does not come from the
bound on the depth of the calls: all greater bounds give the same. -/
theorem parse_eq_ok_iff_derives {text : String} (h : Token.scan text = .ok tokens) :
    (∀ e : Expr α, parse text = .ok e ↔ Derives false (.chain .disjunction) (kinds tokens) e) ∧
    (∀ (kinds : List (TokenKind α)) (e e' : Expr α),
      Derives false (.chain .disjunction) kinds e → Derives false (.chain .disjunction) kinds e' →
        e = e') ∧
    ((¬∃ e, Derives false (.chain .disjunction) (kinds tokens) e) →
      ∃ fault position, @parse α _ text = .error (.malformed fault position)) ∧
    ∀ depth, 12 * tokens.length + 12 ≤ depth →
      readBinary text.length depth .disjunction tokens =
        readBinary text.length (12 * tokens.length + 12) .disjunction tokens := by
  rw [parse_eq_ofTokens h]
  refine ⟨fun e => ofTokens_eq_ok_iff, fun kinds e e' => Derives.unique, fun hnone => ?_,
    fun depth hdepth => ?_⟩
  · cases hresult : ofTokens text.length tokens with
    | ok e => exact absurd ⟨e, ofTokens_eq_ok_iff.1 hresult⟩ hnone
    | error error =>
      obtain ⟨fault, position, rfl⟩ := ofTokens_failsOnly error hresult
      exact ⟨fault, position, rfl⟩
  · have hleast := @readAt_eq_of_le α text.length (12 * tokens.length + 12) tokens
      (.chain .disjunction) (Nat.le_succ _)
    have hgreater := @readAt_eq_of_le α text.length depth tokens (.chain .disjunction)
      (Nat.le_of_succ_le hdepth)
    exact hgreater.trans hleast.symm

/-- A sign in an exponent, a prefix operator directly behind a factor, and a bracket that makes a
call. -/
theorem parse_eq_ok_iff_derives_prefixes :
    ∃ tokens : List (Token Float), Token.scan "x^-y not z (x)" = .ok tokens ∧
      @parse Float _ "x^-y not z (x)" = .ok (.binary .mul
        (.binary .pow (.symbol "x") (.unary .neg (.symbol "y")))
        (.unary .not (.call "z" [.symbol "x"]))) := by
  have hscans : Scans "x^-y not z (x)".toList [identifier "x", .caret, .minus, identifier "y", .not,
      identifier "z", .openParen, identifier "x", (.closeParen : TokenKind Float)] := by
    have htext : "x^-y not z (x)".toList =
        ['x', '^', '-', 'y', ' ', 'n', 'o', 't', ' ', 'z', ' ', '(', 'x', ')'] := rfl
    rw [htext]
    refine @scans_lower Float _ [] _ _ 'x' rfl (apart_sign (by decide)) ?_
    refine scans_operator rfl (scans_operator rfl ?_)
    refine @scans_lower Float _ [] _ _ 'y' rfl apart_blank ?_
    refine scans_blank (@scans_lower Float _ ['o', 't'] _ _ 'n' rfl apart_blank ?_)
    refine scans_blank (@scans_lower Float _ [] _ _ 'z' rfl apart_blank ?_)
    refine scans_blank (scans_operator rfl ?_)
    refine @scans_lower Float _ [] _ _ 'x' rfl apart_close ?_
    exact scans_operator rfl scans_nil
  obtain ⟨tokens, hscan, hkinds⟩ := hscans.tokens
  refine ⟨tokens, hscan, ((parse_eq_ok_iff_derives hscan).1 _).2 ?_⟩
  rw [hkinds]
  have hexponent : @Derives Float false .signed [.minus, identifier "y"] _ :=
    @Derives.unary Float false .neg _ _ (.unsigned (.base (.name "y")))
  have hpower : @Derives Float false .power [identifier "x", .caret, .minus, identifier "y"] _ :=
    .raised (.name "x") hexponent
  have hsymbol : @Derives Float false (.chain .disjunction) [identifier "x"] _ :=
    .operand (.operand (.operand (.operand (.unsigned (.base (.name "x"))))))
  have hcall := @Derives.call Float false "z" [([identifier "x"], .symbol "x")] (by simp)
    (List.forall_mem_singleton.2 hsymbol)
  have hnot := @Derives.unary Float false .not _ _ (.unsigned (.base hcall))
  have hproduct := @Derives.juxtaposed Float false [identifier "x", .caret, .minus, identifier "y"]
    [.not, identifier "z", .openParen, identifier "x", .closeParen] _ _ rfl
    (.operand (.unsigned hpower)) hnot
  exact .operand (.operand (.operand hproduct))

end Expr

end SurfaceGeometry
