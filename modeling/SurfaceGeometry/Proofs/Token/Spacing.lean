import SurfaceGeometry.Proofs.Grammar.Parse
import SurfaceGeometry.Proofs.Token.Lexeme

/-!
# Blank characters between tokens

Blank characters may stand everywhere but inside a token, and mean nothing. No lexeme holds a blank
character, so where a text and another one agree up to a blank, the longest lexeme that ends before
it is the same for both (`Token.Longest.respaced`). From this the pieces of a text are followed
through any text with further blank characters between them (`Piece.Cut.spaced`), one piece at a
time.
-/

namespace SurfaceGeometry

open TokenKind

namespace Piece

variable {α : Type} {pieces : List (Piece α)} {cs : List Char}

/-- The characters of pieces, with further blank characters between them. -/
inductive Spaced : List (Piece α) → List Char → Prop where
  | nil : Spaced [] []
  | blank {pieces : List (Piece α)} {c : Char} {cs : List Char} (hblank : Text.isBlank c = true)
      (h : Spaced pieces cs) : Spaced pieces (c :: cs)
  | piece (first : Piece α) {pieces : List (Piece α)} {cs : List Char} (h : Spaced pieces cs) :
      Spaced (first :: pieces) (first.chars ++ cs)

/-- Two texts are the same, or the same up to a blank character of the second. -/
inductive Agrees (cs : List Char) : List Char → Prop where
  | all : Agrees cs cs
  | upTo {same after behind : List Char} {c : Char} (hblank : Text.isBlank c = true)
      (hsame : cs = same ++ after) : Agrees cs (same ++ c :: behind)

/-- With further blank characters the text is the same up to the first of them. -/
theorem Spaced.agrees (h : Spaced pieces cs) : Agrees (pieces.flatMap chars) cs := by
  induction h with
  | nil => exact .all
  | @blank pieces c cs hblank => exact @Agrees.upTo _ [] _ cs c hblank rfl
  | @piece first pieces cs h ih =>
    rw [List.flatMap_cons]
    generalize pieces.flatMap chars = behind at ih
    cases ih with
    | all => exact .all
    | @upTo same after behind c hblank hsame =>
      rw [hsame, ← List.append_assoc, ← List.append_assoc]
      exact .upTo hblank rfl

end Piece

namespace Token

variable {α : Type} [Scalar α] {cs cs' text : List Char} {kind : TokenKind α}

/-- What holds no blank character and starts a text ends before the first one. -/
theorem isPrefix_of_not_isBlank {same behind : List Char} {c : Char}
    (htext : ∀ d ∈ text, Text.isBlank d = false) (hblank : Text.isBlank c = true)
    (h : text <+: same ++ c :: behind) : text <+: same := by
  rcases List.prefix_or_prefix_of_prefix h (List.prefix_append same _) with hshort | hlong
  · exact hshort
  · obtain ⟨more, rfl⟩ := hlong
    match more with
    | [] => simp
    | d :: more =>
      obtain ⟨rfl, -⟩ := List.cons_prefix_cons.1 ((List.prefix_append_right_inj same).1 h)
      rw [htext d (by simp)] at hblank
      cases hblank

/-- What is behind the longest lexeme may be changed from a blank character on, since no lexeme goes
past one. -/
theorem Longest.respaced (h : Longest (text ++ cs) text kind) (hagrees : Piece.Agrees cs cs') :
    Longest (text ++ cs') text kind := by
  cases hagrees with
  | all => exact h
  | upTo hblank hsame =>
    subst hsame
    refine ⟨h.lexeme, List.prefix_append _ _, fun hlexeme hfront => ?_⟩
    rw [← List.append_assoc] at hfront
    have hshort := isPrefix_of_not_isBlank hlexeme.not_isBlank hblank hfront
    refine h.length_le hlexeme (hshort.trans ?_)
    rw [← List.append_assoc]
    exact List.prefix_append _ _

end Token

namespace Piece

open Token

variable {α : Type} [Scalar α] {piece : Piece α} {pieces : List (Piece α)} {cs cs' rest : List Char}

/-- The piece that is cut off stays the same when the text behind it is changed from a blank
character on. -/
theorem Munches.respaced (h : Munches (piece.chars ++ cs) piece) (hagrees : Agrees cs cs') :
    Munches (piece.chars ++ cs') piece := by
  cases piece with
  | blank c => exact .blank h.isBlank
  | lexeme text kind => exact .lexeme (h.longest.respaced hagrees)

/-- The pieces put together are the text that they are cut from. -/
theorem Cut.flatMap_chars (h : Cut cs pieces rest) : cs = pieces.flatMap chars ++ rest := by
  induction h with
  | nil => rfl
  | cons _ _ ih => rw [List.flatMap_cons, List.append_assoc, ← ih]

/-- Further blank characters between pieces leave the tokens as they are. -/
theorem Cut.spaced (h : Cut cs pieces []) (hspaced : Spaced pieces cs') :
    ∃ pieces' : List (Piece α), Cut cs' pieces' [] ∧ kinds pieces' = kinds pieces := by
  induction hspaced generalizing cs with
  | nil => exact ⟨[], .nil [], rfl⟩
  | @blank pieces c cs' hblank _ ih =>
    obtain ⟨pieces', hcut, hkinds⟩ := ih h
    have hcut' := @Cut.cons α _ (.blank c) cs' [] pieces' (.blank hblank) hcut
    exact ⟨.blank c :: pieces', hcut', hkinds⟩
  | piece first hspaced ih =>
    cases h with
    | @cons _ cs _ pieces hfirst hbehind =>
      obtain ⟨pieces', hcut, hkinds⟩ := ih hbehind
      -- Behind the piece the two texts agree up to the first blank that is new.
      have hagrees := hspaced.agrees
      have hcs := hbehind.flatMap_chars
      rw [List.append_nil] at hcs
      rw [← hcs] at hagrees
      refine ⟨first :: pieces', .cons (hfirst.respaced hagrees) hcut, ?_⟩
      cases first with
      | blank c => exact hkinds
      | lexeme text kind => exact congrArg (kind :: ·) hkinds

/-- The pieces of a text are blank characters and lexemes. -/
theorem Cut.forall_mem (h : Cut cs pieces rest) : ∀ piece ∈ pieces,
    (∃ c, piece = .blank c ∧ Text.isBlank c = true) ∨
      ∃ text kind, piece = .lexeme text kind ∧ Lexeme text kind := by
  induction h with
  | nil => simp
  | @cons piece _ _ _ first _ ih =>
    refine List.forall_mem_cons.2 ⟨?_, ih⟩
    cases piece with
    | blank c => exact .inl ⟨c, rfl, first.isBlank⟩
    | lexeme text kind => exact .inr ⟨text, kind, rfl, first.longest.lexeme⟩

end Piece

/-! ## Positions -/

namespace Token

variable {α : Type} {pieces : List (Piece α)} {position : Nat}

/-- A token knows how many characters stand before its own. -/
theorem mem_ofPieces {token : Token α} (h : token ∈ ofPieces position pieces) :
    ∃ before text after, pieces = before ++ .lexeme text token.kind :: after ∧
      token.position = position + (before.flatMap Piece.chars).length := by
  induction pieces generalizing position with
  | nil => cases h
  | cons piece pieces ih =>
    cases piece with
    | blank c =>
      obtain ⟨before, text, after, rfl, hposition⟩ := ih h
      refine ⟨.blank c :: before, text, after, rfl, ?_⟩
      rw [hposition, List.flatMap_cons, List.length_append]
      exact Nat.add_assoc position 1 _
    | lexeme chars kind =>
      rcases List.mem_cons.1 h with rfl | h
      · exact ⟨[], chars, pieces, rfl, rfl⟩
      · obtain ⟨before, text, after, rfl, hposition⟩ := ih h
        refine ⟨.lexeme chars kind :: before, text, after, rfl, ?_⟩
        rw [hposition, List.flatMap_cons, List.length_append]
        exact Nat.add_assoc position chars.length _

/-- Tokens stand one behind the other, because no piece is empty. -/
theorem pairwise_ofPieces (h : ∀ piece ∈ pieces, piece.chars ≠ []) :
    (ofPieces position pieces).Pairwise (·.position < ·.position) := by
  induction pieces generalizing position with
  | nil => exact .nil
  | cons piece pieces ih =>
    obtain ⟨hfirst, hbehind⟩ := List.forall_mem_cons.1 h
    cases piece with
    | blank c => exact ih hbehind
    | lexeme chars kind =>
      refine .cons (fun token hmem => ?_) (ih hbehind)
      obtain ⟨before, text, after, -, hposition⟩ := mem_ofPieces hmem
      have hpos : 0 < chars.length := List.length_pos_iff.2 hfirst
      rw [hposition]
      show position < position + chars.length + _
      omega

/-- The pieces tile the text: they are blank characters and the lexemes of the tokens, in order. -/
structure Tiles [Scalar α] (text : String) (tokens : List (Token α)) (pieces : List (Piece α)) :
    Prop where
  scanned : Piece.scan 0 text.toList = .ok pieces
  tiling : pieces.flatMap Piece.chars = text.toList
  tokens_eq : tokens = ofPieces 0 pieces
  lexemes : ∀ piece ∈ pieces, (∃ c, piece = .blank c ∧ Text.isBlank c = true) ∨
    ∃ text kind, piece = .lexeme text kind ∧ Lexeme text kind
  positions : ∀ token ∈ tokens, ∃ before text after,
    pieces = before ++ .lexeme text token.kind :: after ∧
      token.position = (before.flatMap Piece.chars).length
  increasing : tokens.Pairwise (·.position < ·.position)

variable [Scalar α]

/-- The tokens of a text that has any tile it. -/
theorem exists_tiles {text : String} {tokens : List (Token α)} (h : scan text = .ok tokens) :
    ∃ pieces, Tiles text tokens pieces := by
  obtain ⟨pieces, hcut, rfl⟩ := exists_cut_of_scan h
  have hpieces : Piece.scan 0 text.toList = .ok pieces := Piece.scan_eq_ok_iff.2 hcut
  refine ⟨pieces, hpieces, Piece.flatMap_chars_scan hpieces, rfl, hcut.forall_mem,
    fun token hmem => ?_, pairwise_ofPieces fun piece hmem => ?_⟩
  · obtain ⟨before, text, after, hsplit, hposition⟩ := mem_ofPieces hmem
    exact ⟨before, text, after, hsplit, by rw [hposition, Nat.zero_add]⟩
  · rcases hcut.forall_mem piece hmem with ⟨c, rfl, -⟩ | ⟨text, kind, rfl, hlexeme⟩
    · exact List.cons_ne_nil c []
    · exact hlexeme.ne_nil

/-- Blank characters mean nothing, and the only fault of a text without tokens is a character that
starts none. The tokens and the blank characters of a text tile it, each token where it says it is;
with further blank characters anywhere but inside a token, the tokens are of the same kinds, and the
text is parsed to the same tree or to none again. A text that has no tokens has a character, at the
position of the error, that is not blank and starts neither a word nor a number and is no operator;
no number is malformed. -/
theorem scan_ignores_blanks (text : String) :
    (∀ tokens : List (Token α), scan text = .ok tokens →
      ∃ pieces, Tiles text tokens pieces ∧
        ∀ spaced : String, Piece.Spaced pieces spaced.toList →
          ∃ tokens', scan spaced = .ok tokens' ∧ Token.kinds tokens' = Token.kinds tokens ∧
            ∀ e : Expr α, Expr.parse spaced = .ok e ↔ Expr.parse text = .ok e) ∧
    ∀ error : ExprError α, scan text = .error error →
      ∃ before c after, text.toList = before ++ c :: after ∧
        error = .malformed (.strangeCharacter c) before.length ∧
        Text.isBlank c = false ∧ Text.startsWord c = false ∧
        NumberLexeme.starts (c :: after) = false ∧
        (TokenKind.ofOperator? c : Option (TokenKind α)) = none := by
  refine ⟨fun tokens hscan => ?_, fun error hscan => ?_⟩
  · obtain ⟨pieces, htiles⟩ := exists_tiles hscan
    refine ⟨pieces, htiles, fun spaced hspaced => ?_⟩
    obtain ⟨pieces', hcut, hkinds⟩ := (Piece.scan_eq_ok_iff.1 htiles.scanned).spaced hspaced
    have hspacedScan := scan_of_cut hcut
    have hsame : Token.kinds (ofPieces 0 pieces') = Token.kinds tokens := by
      rw [htiles.tokens_eq, Piece.kinds_ofPieces, Piece.kinds_ofPieces, hkinds]
    refine ⟨ofPieces 0 pieces', hspacedScan, hsame, fun e => ?_⟩
    rw [Expr.parse_eq_ofTokens hscan, Expr.parse_eq_ofTokens hspacedScan, Expr.ofTokens_eq_ok_iff,
      Expr.ofTokens_eq_ok_iff, hsame]
  · obtain ⟨pieces, c, after, hcut, hstrange, rfl⟩ := exists_strange_of_scan hscan
    exact ⟨pieces.flatMap Piece.chars, c, after, hcut.flatMap_chars, rfl, hstrange.classes⟩

/-- A number, and a name that could be the mark of an exponent, with a blank between them; and a
sign that is in no token. -/
theorem scan_ignores_blanks_mark :
    (∃ tokens tokens' : List (Token Float), scan "2e" = .ok tokens ∧ scan "2 e" = .ok tokens' ∧
      Token.kinds tokens' = Token.kinds tokens ∧
      ∀ e : Expr Float, Expr.parse "2 e" = .ok e ↔ Expr.parse "2e" = .ok e) ∧
    ∃ (error : ExprError Float) (before after : List Char) (c : Char), scan "$" = .error error ∧
      "$".toList = before ++ c :: after ∧
      error = .malformed (.strangeCharacter c) before.length := by
  let number : Piece Float := .lexeme ['2'] (.number (Scalar.ofDecimal ⟨2, 0⟩))
  let name : Piece Float := .lexeme ['e'] (.identifier "e")
  constructor
  · have hnumber : Longest ['2', 'e'] ['2'] (.number (Scalar.ofDecimal ⟨2, 0⟩) : TokenKind Float) :=
      .number rfl rfl
    have hname : Longest ['e'] ['e'] (.identifier "e" : TokenKind Float) :=
      @Longest.word Float _ 'e' [] (Text.startsWord_of_isLower rfl)
    have hcut : Piece.Cut "2e".toList [number, name] [] :=
      .lexeme hnumber rfl (.lexeme hname rfl (.nil []))
    have hscan := scan_of_cut hcut
    obtain ⟨pieces, htiles, hspaced⟩ := (scan_ignores_blanks "2e").1 _ hscan
    have hpieces := htiles.scanned
    rw [Piece.scan_eq_ok_iff.2 hcut] at hpieces
    obtain rfl := Except.ok.inj hpieces
    obtain ⟨tokens', hscan', hkinds, hparse⟩ := hspaced "2 e"
      (.piece number (@Piece.Spaced.blank Float _ ' ' _ rfl (.piece name .nil)))
    exact ⟨_, tokens', hscan, hscan', hkinds, hparse⟩
  · have hstart : Text.startsWord '$' = false := by
      rw [Bool.eq_false_iff]
      intro hstart
      have hword := Text.isWordChar_of_startsWord hstart
      rw [Text.isWordChar_of_sign rfl] at hword
      cases hword
    have hblank : Text.isBlank '$' = false := rfl
    have hnumber : NumberLexeme.starts ['$'] = false := rfl
    have hnext : Piece.next '$' [] = .error (.strangeCharacter '$' : ParseFault Float) := by
      simp only [Piece.next, hblank, hnumber, hstart, Bool.false_eq_true, if_false]
      rfl
    have hpieces := @Piece.scan_of_strange Float _ '$' [] 0 (Piece.strange_of_next hnext).2
    have htext : "$".toList = ['$'] := rfl
    have hscan : scan "$" = .error (.malformed (.strangeCharacter '$') 0 : ExprError Float) := by
      rw [scan, htext, hpieces]
    obtain ⟨before, c, after, hsplit, herror, -⟩ := (scan_ignores_blanks "$").2 _ hscan
    exact ⟨_, before, after, c, hscan, hsplit, herror⟩

end Token

end SurfaceGeometry
