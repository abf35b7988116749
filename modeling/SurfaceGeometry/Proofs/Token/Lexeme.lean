import SurfaceGeometry.Proofs.Token.Numeral
import Mathlib.Data.List.TakeWhile

/-!
# The longest lexeme

`Token.Lexeme` says which characters are a token of a kind, without a word on how they are found. A
text is cut at every place into a blank character or the longest lexeme that starts there
(`Piece.Munches`), and the scanner does this and fails where neither is possible:
`Piece.next_eq_ok_iff` and `Piece.next_eq_error_iff` are about one piece, `Piece.scan_eq_ok_iff` and
`Piece.scan_eq_error_iff` about a whole text.
-/

namespace SurfaceGeometry

open TokenKind

namespace Token

/-- The characters of a token of a kind. -/
inductive Lexeme {α : Type} [Scalar α] : List Char → TokenKind α → Prop where
  | number {text d} (numeral : NumberLexeme.Numeral text) (value : Decimal.ofText? text = some d) :
      Lexeme text (.number (Scalar.ofDecimal d))
  | word {c cs} (start : Text.startsWord c = true) (word : ∀ d ∈ cs, Text.isWordChar d = true) :
      Lexeme (c :: cs) (ofWord (String.ofList (c :: cs)))
  | operator {c kind} (operator : ofOperator? c = some kind) : Lexeme [c] kind

/-- The longest lexeme that a text starts with. -/
structure Longest {α : Type} [Scalar α] (cs text : List Char) (kind : TokenKind α) : Prop where
  lexeme : Lexeme text kind
  isPrefix : text <+: cs
  length_le : ∀ {text' kind'}, @Lexeme α _ text' kind' → text' <+: cs → text'.length ≤ text.length

variable {α : Type} [Scalar α] {c : Char} {cs text rest : List Char} {kind : TokenKind α}

namespace Lexeme

/-- A lexeme has a character at least. -/
theorem ne_nil (h : Lexeme text kind) : text ≠ [] := by
  cases h with
  | number numeral =>
    rintro rfl
    exact absurd (@NumberLexeme.Numeral.starts [] [] numeral) (by decide)
  | word | operator => simp

/-- No character of a lexeme is blank. -/
theorem not_isBlank (h : Lexeme text kind) : ∀ c ∈ text, Text.isBlank c = false := by
  cases h with
  | number numeral => exact numeral.not_isBlank
  | word start word =>
    exact List.forall_mem_cons.2 ⟨Text.isBlank_of_startsWord start, fun d hd =>
      Text.isBlank_of_isWordChar (word d hd)⟩
  | operator operator =>
    exact List.forall_mem_singleton.2 (signs_apart (mem_signs_of_ofOperator? operator)).1

/-- The first character of a lexeme tells which of the three it is. -/
theorem cases_head (h : Lexeme text kind) (hfront : text <+: c :: cs) :
    NumberLexeme.starts (c :: cs) = true ∧ NumberLexeme.Numeral text ∨
      Text.startsWord c = true ∧ (∃ more, text = c :: more ∧ ∀ d ∈ more, Text.isWordChar d = true) ∨
      (∃ kind' : TokenKind α, ofOperator? c = some kind') ∧ text = [c] := by
  cases h with
  | number numeral =>
    obtain ⟨rest, hrest⟩ := hfront
    rw [← hrest]
    exact .inl ⟨numeral.starts, numeral⟩
  | @word first more start word =>
    obtain ⟨rfl, -⟩ := List.cons_prefix_cons.1 hfront
    exact .inr (.inl ⟨start, more, rfl, word⟩)
  | @operator first _ operator =>
    obtain ⟨rfl, -⟩ := List.cons_prefix_cons.1 hfront
    exact .inr (.inr ⟨⟨kind, operator⟩, rfl⟩)

end Lexeme

end Token

namespace Piece

open Token

variable {α : Type} [Scalar α] {c : Char} {cs text rest : List Char} {kind : TokenKind α}

/-- A lexeme with nothing behind it is read as itself. -/
theorem next_lexeme (h : Lexeme (c :: cs) kind) : next c cs = .ok (.lexeme (c :: cs) kind) := by
  have hblank := h.not_isBlank c (List.mem_cons_self ..)
  generalize htext : c :: cs = text at h
  cases h with
  | number numeral value =>
    subst htext
    have hstarts := @NumberLexeme.Numeral.starts [] _ numeral
    rw [List.append_nil] at hstarts
    have hread := (NumberLexeme.read_isPrefix (c :: cs)).eq_of_length_le
      (NumberLexeme.length_le_read numeral List.prefix_rfl)
    simp only [next, hblank, hstarts, hread, value, Bool.false_eq_true, if_false, if_true]
  | word start word =>
    obtain ⟨rfl, rfl⟩ := List.cons.inj htext
    have hstarts := @NumberLexeme.starts_of_startsWord c cs start
    have htake : cs.takeWhile Text.isWordChar = cs := List.takeWhile_eq_self_iff.2 word
    simp only [next, hblank, hstarts, start, htake, Bool.false_eq_true, if_false, if_true]
  | operator operator =>
    obtain ⟨rfl, rfl⟩ := List.cons.inj htext
    have hstarts := @starts_of_ofOperator? α [] c kind operator
    have hstart := startsWord_of_ofOperator? operator
    simp only [next, hblank, hstarts, hstart, operator, Bool.false_eq_true, if_false]

end Piece

namespace Token

variable {α : Type} [Scalar α] {c : Char} {cs text rest : List Char} {kind kind' : TokenKind α}

/-- The same characters are a token of one kind. -/
theorem Lexeme.kind_unique (h : Lexeme text kind) (h' : Lexeme text kind') : kind = kind' := by
  obtain ⟨c, cs, rfl⟩ := List.exists_cons_of_ne_nil h.ne_nil
  have hnext := Piece.next_lexeme h
  rw [Piece.next_lexeme h'] at hnext
  cases hnext
  rfl

namespace Longest

/-- A text starts with one longest lexeme at most. -/
theorem unique {text' : List Char} (h : Longest cs text kind) (h' : Longest cs text' kind') :
    text = text' ∧ kind = kind' := by
  have hlength : text.length = text'.length :=
    Nat.le_antisymm (h'.length_le h.lexeme h.isPrefix) (h.length_le h'.lexeme h'.isPrefix)
  obtain rfl := (List.prefix_of_prefix_length_le h.isPrefix h'.isPrefix
    (Nat.le_of_eq hlength)).eq_of_length hlength
  exact ⟨rfl, h.lexeme.kind_unique h'.lexeme⟩

/-- No lexeme starts with a blank character. -/
theorem head_not_isBlank (h : Longest (c :: cs) text kind) : Text.isBlank c = false := by
  obtain ⟨first, more, rfl⟩ := List.exists_cons_of_ne_nil h.lexeme.ne_nil
  obtain ⟨rfl, -⟩ := List.cons_prefix_cons.1 h.isPrefix
  exact h.lexeme.not_isBlank _ (List.mem_cons_self ..)

/-- Where a number starts, the number that is read is the longest lexeme. -/
theorem number {d : Decimal} (hstarts : NumberLexeme.starts (c :: cs) = true)
    (hvalue : Decimal.ofText? (NumberLexeme.read (c :: cs)) = some d) :
    Longest (c :: cs) (NumberLexeme.read (c :: cs))
      (.number (Scalar.ofDecimal d) : TokenKind α) := by
  refine ⟨.number (NumberLexeme.numeral_read hstarts) hvalue, NumberLexeme.read_isPrefix _,
    fun hlexeme hfront => ?_⟩
  rcases hlexeme.cases_head hfront with ⟨-, hnumeral⟩ | ⟨hword, -⟩ | ⟨-, rfl⟩
  · exact NumberLexeme.length_le_read hnumeral hfront
  · rw [NumberLexeme.starts_of_startsWord hword] at hstarts
    cases hstarts
  · exact List.length_pos_iff.2 (NumberLexeme.read_ne_nil hstarts)

/-- Where a word starts, all characters that go on with it belong to the longest lexeme. -/
theorem word (hstart : Text.startsWord c = true) :
    Longest (c :: cs) (c :: cs.takeWhile Text.isWordChar)
      (ofWord (String.ofList (c :: cs.takeWhile Text.isWordChar)) : TokenKind α) := by
  refine ⟨.word hstart fun _ hd => List.all_eq_true.1 List.all_takeWhile _ hd,
    List.cons_prefix_cons.2 ⟨rfl, List.takeWhile_prefix _⟩, fun hlexeme hfront => ?_⟩
  rcases hlexeme.cases_head hfront with ⟨hstarts, -⟩ | ⟨-, more, rfl, hword⟩ | ⟨-, rfl⟩
  · rw [NumberLexeme.starts_of_startsWord hstart] at hstarts
    cases hstarts
  · obtain ⟨-, rest, rfl⟩ := List.cons_prefix_cons.1 hfront
    rw [List.takeWhile_append_of_pos hword, List.length_cons, List.length_cons, List.length_append]
    omega
  · exact Nat.le_add_left 1 _

/-- An operator is the longest lexeme where it stands, because no number or word starts with it. -/
theorem operator (hop : ofOperator? c = some kind) : Longest (c :: cs) [c] kind := by
  refine ⟨.operator hop, by simp, fun hlexeme hfront => ?_⟩
  rcases hlexeme.cases_head hfront with ⟨hstarts, -⟩ | ⟨hword, -⟩ | ⟨-, rfl⟩
  · rw [starts_of_ofOperator? hop] at hstarts
    cases hstarts
  · rw [startsWord_of_ofOperator? hop] at hword
    cases hword
  · exact Nat.le_refl 1

end Longest

end Token

namespace Piece

open Token

variable {α : Type} [Scalar α]

/-- A text starts with a piece: a blank character, or the longest lexeme there is. -/
inductive Munches : List Char → Piece α → Prop where
  | blank {c cs} (hblank : Text.isBlank c = true) : Munches (c :: cs) (.blank c)
  | lexeme {cs text kind} (longest : Longest cs text kind) : Munches cs (.lexeme text kind)

/-- A text starts with a character that is neither blank nor the first of a token. -/
structure Strange (α : Type) [Scalar α] (c : Char) (cs : List Char) : Prop where
  not_isBlank : Text.isBlank c = false
  not_lexeme : ∀ {text : List Char} {kind : TokenKind α}, Lexeme text kind → ¬text <+: c :: cs

variable {c : Char} {cs text rest : List Char} {kind : TokenKind α} {piece : Piece α}

/-- Where a strange character stands, no lexeme starts. -/
theorem Strange.not_longest (h : Strange α c cs) : ¬Longest (c :: cs) text kind :=
  fun hlongest => h.not_lexeme hlongest.lexeme hlongest.isPrefix

/-- The piece that the scanner finds is a blank character or the longest lexeme. -/
theorem munches_of_next (h : next c cs = .ok piece) : Munches (c :: cs) piece := by
  unfold next at h
  split at h
  · next hblank =>
    cases h
    exact .blank hblank
  · split at h
    · next hstarts =>
      obtain ⟨d, hd⟩ := (NumberLexeme.numeral_read hstarts).exists_ofText?
      simp only [hd] at h
      cases h
      exact .lexeme (.number hstarts hd)
    · split at h
      · next hstart =>
        cases h
        exact .lexeme (.word hstart)
      · split at h
        · next hop =>
          cases h
          exact .lexeme (.operator hop)
        · cases h

/-- Where the scanner fails there is a strange character, and that is what it says. -/
theorem strange_of_next {fault : ParseFault α} (h : next c cs = .error fault) :
    fault = .strangeCharacter c ∧ Strange α c cs := by
  unfold next at h
  split at h
  · cases h
  · next hblank =>
    split at h
    · next hstarts =>
      obtain ⟨d, hd⟩ := (NumberLexeme.numeral_read hstarts).exists_ofText?
      simp only [hd] at h
      cases h
    · next hnumber =>
      split at h
      · cases h
      · next hstart =>
        split at h
        · cases h
        · next hop =>
          cases h
          refine ⟨rfl, by simpa using hblank, fun hlexeme hfront => ?_⟩
          rcases hlexeme.cases_head hfront with ⟨hstarts, -⟩ | ⟨hword, -⟩ | ⟨⟨_, hop'⟩, -⟩
          · exact hnumber hstarts
          · exact hstart hword
          · rw [hop] at hop'
            cases hop'

/-- A piece that is cut off as a blank character is one. -/
theorem Munches.isBlank (h : Munches cs (.blank c : Piece α)) : Text.isBlank c = true := by
  cases h with
  | blank hblank => exact hblank

/-- A piece that is cut off as a lexeme is the longest one. -/
theorem Munches.longest (h : Munches cs (.lexeme text kind)) : Longest cs text kind := by
  cases h with
  | lexeme longest => exact longest

/-- Where a piece can be cut off, there is no strange character. -/
theorem Munches.not_strange (h : Munches (c :: cs) piece) : ¬Strange α c cs := by
  intro hstrange
  cases h with
  | blank hblank =>
    rw [hstrange.not_isBlank] at hblank
    cases hblank
  | lexeme longest => exact hstrange.not_longest longest

/-- At every place one piece at most can be cut off. -/
theorem Munches.unique {piece' : Piece α} (h : Munches cs piece) (h' : Munches cs piece') :
    piece = piece' := by
  cases h with
  | blank hblank =>
    cases h' with
    | blank => rfl
    | lexeme longest =>
      rw [longest.head_not_isBlank] at hblank
      cases hblank
  | lexeme longest =>
    cases h' with
    | blank hblank =>
      rw [longest.head_not_isBlank] at hblank
      cases hblank
    | lexeme longest' =>
      obtain ⟨rfl, rfl⟩ := longest.unique longest'
      rfl

/-- The next piece is a blank character or the longest lexeme. -/
theorem next_eq_ok_iff : next c cs = .ok piece ↔ Munches (c :: cs) piece := by
  refine ⟨munches_of_next, fun h => ?_⟩
  cases hnext : @next α _ c cs with
  | ok found => rw [h.unique (munches_of_next hnext)]
  | error fault => exact absurd (strange_of_next hnext).2 h.not_strange

/-- There is no next piece where a character is neither blank nor starts a token. -/
theorem next_eq_error_iff {fault : ParseFault α} :
    next c cs = .error fault ↔ fault = .strangeCharacter c ∧ Strange α c cs := by
  refine ⟨strange_of_next, ?_⟩
  rintro ⟨rfl, hstrange⟩
  cases hnext : @next α _ c cs with
  | ok piece => exact absurd hstrange (munches_of_next hnext).not_strange
  | error fault => rw [(strange_of_next hnext).1]

/-- What is neither blank nor the first character of a token is in none of the classes of
characters. -/
theorem Strange.classes (h : Strange α c cs) :
    Text.isBlank c = false ∧ Text.startsWord c = false ∧ NumberLexeme.starts (c :: cs) = false ∧
      (ofOperator? c : Option (TokenKind α)) = none := by
  refine ⟨h.not_isBlank, ?_, ?_, ?_⟩
  · rw [Bool.eq_false_iff]
    exact fun hstart => h.not_longest (.word hstart)
  · rw [Bool.eq_false_iff]
    intro hstarts
    obtain ⟨d, hd⟩ := (NumberLexeme.numeral_read hstarts).exists_ofText?
    exact h.not_longest (.number hstarts hd)
  · exact Option.eq_none_iff_forall_ne_some.2 fun kind hop => h.not_longest (.operator hop)

/-! ## Whole texts -/

/-- The text is cut into the pieces, each of which is the longest there is, and a rest. -/
inductive Cut : List Char → List (Piece α) → List Char → Prop where
  | nil (rest : List Char) : Cut rest [] rest
  | cons {piece : Piece α} {cs rest : List Char} {pieces : List (Piece α)}
      (first : Munches (piece.chars ++ cs) piece) (behind : Cut cs pieces rest) :
      Cut (piece.chars ++ cs) (piece :: pieces) rest

/-- The longest lexeme in front of a text that is cut is a further piece. -/
theorem Cut.lexeme {pieces : List (Piece α)} {behind : List Char} (h : Longest cs text kind)
    (hsplit : cs = text ++ behind) (hbehind : Cut behind pieces rest) :
    Cut cs (.lexeme text kind :: pieces) rest := by
  subst hsplit
  exact @Cut.cons α _ (.lexeme text kind) behind rest pieces (.lexeme h) hbehind

/-- A piece has a character at least, so that every cut brings the scanner on. -/
theorem Munches.exists_cons (h : Munches cs piece) : ∃ c more, piece.chars = c :: more := by
  cases h with
  | blank => exact ⟨_, [], rfl⟩
  | lexeme longest => exact List.exists_cons_of_ne_nil longest.lexeme.ne_nil

/-- The scanner cuts off the piece that is to be cut off, and goes on behind it. -/
theorem Munches.scan {position : Nat} (h : Munches (piece.chars ++ cs) piece) :
    scan position (piece.chars ++ cs) =
      (scan (position + piece.chars.length) cs).map (piece :: ·) := by
  obtain ⟨c, more, hchars⟩ := h.exists_cons
  rw [hchars] at h ⊢
  exact scan_of_next (next_eq_ok_iff.2 h) hchars

/-- The scanner stops at a strange character, with its position. -/
theorem scan_of_strange {position : Nat} (h : Strange α c cs) :
    @scan α _ position (c :: cs) = .error (.strangeCharacter c, position) := by
  have hnext := next_eq_error_iff.2 ⟨rfl, h⟩
  rw [Piece.scan]
  split
  · next fault hfault =>
    rw [hnext] at hfault
    cases hfault
    rfl
  · next found hfound =>
    rw [hnext] at hfound
    cases hfound

/-- A text is empty, or starts with a piece, or with a character that starts none. -/
theorem first_cases (cs : List Char) : cs = [] ∨
    (∃ (piece : Piece α) (rest : List Char), cs = piece.chars ++ rest ∧ Munches cs piece) ∨
    ∃ c rest, cs = c :: rest ∧ Strange α c rest := by
  match cs with
  | [] => exact .inl rfl
  | c :: cs =>
    cases hnext : @next α _ c cs with
    | ok piece =>
      obtain ⟨rest, hrest⟩ := next_isPrefix hnext
      exact .inr (.inl ⟨piece, rest, hrest.symm, munches_of_next hnext⟩)
    | error fault => exact .inr (.inr ⟨c, cs, rfl, (strange_of_next hnext).2⟩)

/-- The scanner goes over pieces to what is behind them. -/
theorem Cut.scan {position : Nat} {pieces : List (Piece α)} (h : Cut cs pieces rest) :
    scan position cs =
      (scan (position + (pieces.flatMap chars).length) rest).map (pieces ++ ·) := by
  induction h generalizing position with
  | nil rest =>
    rw [List.flatMap_nil, List.length_nil, Nat.add_zero]
    cases @Piece.scan α _ position rest <;> rfl
  | @cons piece cs rest pieces first _ ih =>
    rw [first.scan, ih, List.flatMap_cons, List.length_append, Nat.add_assoc]
    generalize @Piece.scan α _ _ rest = result
    cases result <;> rfl

/-- Every text is cut into pieces up to its end, or up to a character that starts none. -/
theorem exists_cut (cs : List Char) : ∃ (pieces : List (Piece α)) (rest : List Char),
    Cut cs pieces rest ∧ (rest = [] ∨ ∃ c after, rest = c :: after ∧ Strange α c after) := by
  induction hlength : cs.length using Nat.strongRecOn generalizing cs with
  | ind n ih =>
    rcases @first_cases α _ cs with rfl | ⟨piece, behind, rfl, hfirst⟩ | ⟨c, after, rfl, hstrange⟩
    · exact ⟨[], [], .nil [], .inl rfl⟩
    -- No piece is empty, so the rest behind it is shorter.
    · obtain ⟨c, more, hchars⟩ := hfirst.exists_cons
      have hless : behind.length < n := by
        rw [← hlength, List.length_append, hchars, List.length_cons]
        omega
      obtain ⟨pieces, rest, hcut, hrest⟩ := ih behind.length hless behind rfl
      exact ⟨piece :: pieces, rest, .cons hfirst hcut, hrest⟩
    · exact ⟨[], c :: after, .nil _, .inr ⟨c, after, rfl, hstrange⟩⟩

/-- The scanner succeeds with pieces just when the text is cut into these pieces. -/
theorem scan_eq_ok_iff {position : Nat} {pieces : List (Piece α)} :
    scan position cs = .ok pieces ↔ Cut cs pieces [] := by
  constructor
  · intro h
    obtain ⟨found, rest, hcut, rfl | ⟨c, after, rfl, hstrange⟩⟩ := @exists_cut α _ cs
    · rw [hcut.scan, scan_nil] at h
      have hpieces : found ++ [] = pieces := Except.ok.inj h
      rwa [← hpieces, List.append_nil]
    · rw [hcut.scan, scan_of_strange hstrange] at h
      cases h
  · intro h
    rw [h.scan, scan_nil]
    exact congrArg Except.ok (List.append_nil pieces)

/-- The scanner fails at the first character that is in no piece, and knows how many characters
stand before it. -/
theorem scan_eq_error_iff {position p : Nat} {fault : ParseFault α} :
    scan position cs = .error (fault, p) ↔
      ∃ (pieces : List (Piece α)) (c : Char) (after : List Char),
        Cut cs pieces (c :: after) ∧ Strange α c after ∧ fault = .strangeCharacter c ∧
          p = position + (pieces.flatMap chars).length := by
  constructor
  · intro h
    obtain ⟨found, rest, hcut, rfl | ⟨c, after, rfl, hstrange⟩⟩ := @exists_cut α _ cs
    · rw [hcut.scan, scan_nil] at h
      cases h
    · rw [hcut.scan, scan_of_strange hstrange] at h
      cases h
      exact ⟨found, c, after, hcut, hstrange, rfl, rfl⟩
  · rintro ⟨pieces, c, after, hcut, hstrange, rfl, rfl⟩
    rw [hcut.scan, scan_of_strange hstrange]
    rfl

end Piece

namespace Token

variable {α : Type} [Scalar α] {text : String}

/-- The tokens of a text that is cut into pieces are those of the pieces, numbered from the start.
-/
theorem scan_of_cut {pieces : List (Piece α)} (h : Piece.Cut text.toList pieces []) :
    scan text = .ok (ofPieces 0 pieces) := by
  rw [scan, Piece.scan_eq_ok_iff.2 h]

/-- When a text has tokens, they come from pieces into which it is cut. -/
theorem exists_cut_of_scan {tokens : List (Token α)} (h : scan text = .ok tokens) :
    ∃ pieces, Piece.Cut text.toList pieces [] ∧ tokens = ofPieces 0 pieces := by
  unfold scan at h
  split at h
  · next pieces hpieces =>
    cases h
    exact ⟨pieces, Piece.scan_eq_ok_iff.1 hpieces, rfl⟩
  · cases h

/-- When a text has no tokens, it is cut into pieces up to a strange character, whose position is
the number of the characters before it. -/
theorem exists_strange_of_scan {error : ExprError α} (h : scan text = .error error) :
    ∃ (pieces : List (Piece α)) (c : Char) (after : List Char),
      Piece.Cut text.toList pieces (c :: after) ∧ Piece.Strange α c after ∧
      error = .malformed (.strangeCharacter c) (pieces.flatMap Piece.chars).length := by
  unfold scan at h
  split at h
  · cases h
  · next fault position hfault =>
    cases h
    obtain ⟨pieces, c, after, hcut, hstrange, rfl, rfl⟩ := Piece.scan_eq_error_iff.1 hfault
    exact ⟨pieces, c, after, hcut, hstrange, by rw [Nat.zero_add]⟩

end Token

end SurfaceGeometry
