import SurfaceGeometry.Proofs.Grammar.Derivation
import SurfaceGeometry.Proofs.Outcome
import SurfaceGeometry.Proofs.Text.Class

/-!
# Scanning a text piece by piece

`Token.Scans cs kinds` says that the characters `cs` are cut into tokens of the kinds, wherever they
stand in a text. One lemma for each kind of piece puts the piece in front of characters that are
already scanned. A word or a number must not run into what follows it, so these lemmas ask for
characters behind it that neither go on with a word nor are a point (`Token.Apart`).
-/

namespace SurfaceGeometry

namespace Piece

variable {α : Type}

/-- The kinds of the tokens among pieces. -/
def kinds : List (Piece α) → List (TokenKind α)
  | [] => []
  | blank _ :: pieces => kinds pieces
  | lexeme _ kind :: pieces => kind :: kinds pieces

/-- Tokens have the kinds of their pieces, whatever their positions are. -/
theorem kinds_ofPieces : ∀ (pieces : List (Piece α)) (position : Nat),
    Token.kinds (Token.ofPieces position pieces) = kinds pieces
  | [], _ => rfl
  | blank _ :: pieces, position => kinds_ofPieces pieces (position + 1)
  | lexeme chars kind :: pieces, position =>
    congrArg (kind :: ·) (kinds_ofPieces pieces (position + chars.length))

variable [Scalar α]

@[simp] theorem scan_nil {position : Nat} : scan position [] = .ok ([] : List (Piece α)) := by
  rw [scan]

/-- A first piece is cut off and the rest is scanned. -/
theorem scan_of_next {c : Char} {cs rest : List Char} {piece : Piece α} {position : Nat}
    (h : next c (cs ++ rest) = .ok piece) (hchars : piece.chars = c :: cs) :
    scan position (c :: (cs ++ rest)) =
      (scan (position + (cs.length + 1)) rest).map (piece :: ·) := by
  rw [scan]
  split
  · next fault hfault =>
    rw [h] at hfault
    cases hfault
  · next found hfound =>
    rw [h] at hfound
    cases hfound
    simp [hchars]

end Piece

namespace NumberLexeme

/-- A run of characters of a class ends where the next character is not of the class. -/
theorem takeWhile_append {p : Char → Bool} {cs rest : List Char} (hcs : ∀ c ∈ cs, p c = true)
    (hrest : ∀ c ∈ rest.head?, p c = false) : (cs ++ rest).takeWhile p = cs := by
  rw [List.takeWhile_append_of_pos hcs]
  match rest, hrest with
  | [], _ => simp
  | c :: rest, hrest => simp [hrest c rfl]

/-- The characters of a number without an exponent: digits, and a point and digits or nothing. -/
def Plain (cs : List Char) : Prop :=
  ∃ whole point, cs = whole ++ point ∧ whole ≠ [] ∧ (∀ c ∈ whole, c.isDigit) ∧
    (point = [] ∨ ∃ digits, point = '.' :: digits ∧ ∀ c ∈ digits, c.isDigit)

/-- A number starts with a digit. -/
theorem Plain.exists_cons {text : List Char} (h : Plain text) :
    ∃ c cs, text = c :: cs ∧ c.isDigit = true := by
  obtain ⟨whole, point, rfl, hne, hwhole, -⟩ := h
  obtain ⟨c, whole, rfl⟩ := List.exists_cons_of_ne_nil hne
  exact ⟨c, whole ++ point, rfl, hwhole c (List.mem_cons_self ..)⟩

variable {c : Char} {cs : List Char}

/-- Where a digit stands, a number starts. -/
theorem starts_of_isDigit (h : c.isDigit = true) : starts (c :: cs) = true := by
  simp [starts, h]

/-- No number starts with what starts a word. -/
theorem starts_of_startsWord (h : Text.startsWord c = true) : starts (c :: cs) = false := by
  have hdigit := Text.isDigit_of_startsWord h
  have hpoint := Text.ne_point_of_startsWord h
  simp [starts, hdigit, hpoint]

end NumberLexeme

namespace Token

variable {α : Type} [Scalar α] {cs rest : List Char} {kinds : List (TokenKind α)}

/-- The characters are cut into tokens of these kinds. -/
def Scans (cs : List Char) (kinds : List (TokenKind α)) : Prop :=
  ∀ position, ∃ pieces : List (Piece α), Piece.scan position cs = .ok pieces ∧
    Piece.kinds pieces = kinds

/-- The text does not go on with a word or a number that stands before it. -/
def Apart (cs : List Char) : Prop :=
  ∀ c ∈ cs.head?, Text.isWordChar c = false ∧ c ≠ '.'

/-- Characters that are cut into kinds are a text with tokens of these kinds. -/
theorem Scans.tokens {text : String} (h : Scans text.toList kinds) :
    ∃ tokens, Token.scan text = .ok tokens ∧ Token.kinds tokens = kinds := by
  obtain ⟨pieces, hscan, hkinds⟩ := h 0
  refine ⟨ofPieces 0 pieces, ?_, by rw [Piece.kinds_ofPieces, hkinds]⟩
  rw [scan, hscan]

/-- No characters are cut into no tokens. -/
theorem scans_nil : Scans [] ([] : List (TokenKind α)) :=
  fun _ => ⟨[], Piece.scan_nil, rfl⟩

/-- A space in front changes nothing. -/
theorem scans_blank (h : Scans rest kinds) : Scans (' ' :: rest) kinds := by
  intro position
  obtain ⟨pieces, hscan, hpieces⟩ := h (position + 1)
  refine ⟨.blank ' ' :: pieces, ?_, hpieces⟩
  have hstep := @Piece.scan_of_next α _ ' ' [] rest (.blank ' ') position rfl rfl
  rw [List.nil_append] at hstep
  rw [hstep, List.length_nil, hscan]
  rfl

/-- The characters of a token in front of scanned characters. -/
theorem scans_lexeme {c : Char} {kind : TokenKind α}
    (hnext : Piece.next c (cs ++ rest) = .ok (.lexeme (c :: cs) kind)) (h : Scans rest kinds) :
    Scans (c :: (cs ++ rest)) (kind :: kinds) := by
  intro position
  obtain ⟨pieces, hscan, hpieces⟩ := h (position + (cs.length + 1))
  refine ⟨.lexeme (c :: cs) kind :: pieces, ?_, congrArg (kind :: ·) hpieces⟩
  rw [Piece.scan_of_next hnext rfl, hscan]
  rfl

/-- The operators, brackets and the comma. -/
def signs : List Char := ['+', '-', '*', '/', '^', '(', ')', ',']

omit [Scalar α] in
/-- The characters of operators are among the signs. -/
theorem mem_signs_of_ofOperator? {c : Char} {kind : TokenKind α}
    (h : TokenKind.ofOperator? c = some kind) : c ∈ signs := by
  unfold TokenKind.ofOperator? at h
  split at h <;> simp_all [signs]

/-- A sign is not blank and starts neither a word nor a number. -/
theorem signs_apart {c : Char} (h : c ∈ signs) : Text.isBlank c = false ∧
    Text.startsWord c = false ∧ Text.isWordChar c = false ∧ c.isDigit = false ∧ c ≠ '.' := by
  have hword : Text.isWordChar c = false := by
    simp only [signs, List.mem_cons, List.not_mem_nil, or_false] at h
    rcases h with rfl | rfl | rfl | rfl | rfl | rfl | rfl | rfl <;>
      exact Text.isWordChar_of_sign rfl
  have hstart : Text.startsWord c = false := by
    rw [Bool.eq_false_iff]
    intro hstart
    rw [Text.isWordChar_of_startsWord hstart] at hword
    cases hword
  simp only [signs, List.mem_cons, List.not_mem_nil, or_false] at h
  rcases h with rfl | rfl | rfl | rfl | rfl | rfl | rfl | rfl <;>
    exact ⟨rfl, hstart, hword, rfl, by decide⟩

omit [Scalar α] in
/-- No number starts with an operator. -/
theorem starts_of_ofOperator? {c : Char} {kind : TokenKind α}
    (h : TokenKind.ofOperator? c = some kind) : NumberLexeme.starts (c :: cs) = false := by
  obtain ⟨-, -, -, hdigit, hpoint⟩ := signs_apart (mem_signs_of_ofOperator? h)
  simp [NumberLexeme.starts, hdigit, hpoint]

omit [Scalar α] in
/-- No word starts with an operator. -/
theorem startsWord_of_ofOperator? {c : Char} {kind : TokenKind α}
    (h : TokenKind.ofOperator? c = some kind) : Text.startsWord c = false :=
  (signs_apart (mem_signs_of_ofOperator? h)).2.1

/-- The end of a text ends a word or a number. -/
theorem apart_nil : Apart [] :=
  fun _ h => nomatch h

/-- A space ends a word or a number. -/
theorem apart_blank : Apart (' ' :: rest) := by
  rintro _ ⟨⟩
  exact ⟨Text.isWordChar_of_sign rfl, by decide⟩

/-- A sign ends a word or a number. -/
theorem apart_sign {c : Char} (h : c ∈ signs) : Apart (c :: rest) := by
  rintro _ ⟨⟩
  have hclass := signs_apart h
  exact ⟨hclass.2.2.1, hclass.2.2.2.2⟩

/-- An opening bracket ends a word or a number. -/
theorem apart_open : Apart ('(' :: rest) := apart_sign (by simp [signs])

/-- A closing bracket ends a word or a number. -/
theorem apart_close : Apart (')' :: rest) := apart_sign (by simp [signs])

/-- A comma ends a word or a number. -/
theorem apart_comma : Apart (',' :: rest) := apart_sign (by simp [signs])

/-- An operator in front of characters that are cut. -/
theorem scans_operator {c : Char} {kind : TokenKind α} (hop : TokenKind.ofOperator? c = some kind)
    (h : Scans rest kinds) : Scans (c :: rest) (kind :: kinds) := by
  refine @scans_lexeme α _ [] rest kinds c kind ?_ h
  have hblank := (signs_apart (mem_signs_of_ofOperator? hop)).1
  have hnumber := @starts_of_ofOperator? α ([] ++ rest) c kind hop
  have hstart := startsWord_of_ofOperator? hop
  simp only [Piece.next, hblank, hnumber, hstart, hop, Bool.false_eq_true, if_false]

omit [Scalar α] in
/-- A word ends where the text does not go on with it. -/
theorem takeWhile_isWordChar (hword : ∀ d ∈ cs, Text.isWordChar d = true) (hrest : Apart rest) :
    (cs ++ rest).takeWhile Text.isWordChar = cs :=
  NumberLexeme.takeWhile_append hword fun c hc => (hrest c hc).1

/-- A word in front of characters that do not go on with it. -/
theorem scans_word {c : Char} (hstart : Text.startsWord c = true)
    (hword : ∀ d ∈ cs, Text.isWordChar d = true) (hrest : Apart rest) (h : Scans rest kinds) :
    Scans (c :: (cs ++ rest)) (.ofWord (String.ofList (c :: cs)) :: kinds) := by
  refine scans_lexeme ?_ h
  have hblank := Text.isBlank_of_startsWord hstart
  have hnumber := @NumberLexeme.starts_of_startsWord c (cs ++ rest) hstart
  have htake := takeWhile_isWordChar hword hrest
  simp only [Piece.next, hblank, hnumber, hstart, htake, Bool.false_eq_true, if_false, if_true]

/-- A word of small letters. -/
theorem scans_lower {c : Char} (hword : (c :: cs).all Text.isLower = true) (hrest : Apart rest)
    (h : Scans rest kinds) :
    Scans (c :: (cs ++ rest)) (.ofWord (String.ofList (c :: cs)) :: kinds) := by
  rw [List.all_eq_true, List.forall_mem_cons] at hword
  exact scans_word (Text.startsWord_of_isLower hword.1)
    (fun d hd => Text.isWordChar_of_isLower (hword.2 d hd)) hrest h

/-- Behind a number without an exponent stands no mark of an exponent. -/
theorem exponent_of_apart (h : Apart rest) : NumberLexeme.exponent rest = [] := by
  match rest, h with
  | [], _ => rfl
  | c :: rest, h =>
    have hmark : ¬(c = 'e' ∨ c = 'E') := by
      have hclass := (h c rfl).1
      rintro (rfl | rfl)
      · rw [Text.isWordChar_of_isLower rfl] at hclass
        cases hclass
      · rw [Text.isWordChar_of_startsWord (by decide +kernel)] at hclass
        cases hclass
    simp [NumberLexeme.exponent, hmark]

/-- A number without an exponent is read up to its end. What is behind it starts with neither a
digit nor a point nor the mark of an exponent. -/
theorem read_plain {text : List Char} (htext : NumberLexeme.Plain text) (hrest : Apart rest) :
    NumberLexeme.read (text ++ rest) = text := by
  obtain ⟨whole, point, rfl, -, hwhole, hpoint⟩ := htext
  have hbreak : ∀ c ∈ rest.head?, c.isDigit = false := by
    intro c hc
    rw [Bool.eq_false_iff]
    intro hdigit
    have hclass := (hrest c hc).1
    rw [Text.isWordChar_of_isDigit hdigit] at hclass
    cases hclass
  have hexponent := exponent_of_apart hrest
  have htake : (whole ++ (point ++ rest)).takeWhile Char.isDigit = whole := by
    refine NumberLexeme.takeWhile_append hwhole ?_
    rcases hpoint with rfl | ⟨digits, rfl, -⟩
    · exact hbreak
    · rintro _ ⟨⟩
      rfl
  have hfraction : NumberLexeme.fraction (point ++ rest) = point := by
    rcases hpoint with rfl | ⟨digits, rfl, hdigits⟩
    · match rest, hrest with
      | [], _ => rfl
      | c :: rest, hrest =>
        have hpoint := (hrest c rfl).2
        simp [NumberLexeme.fraction, hpoint]
    · rw [List.cons_append, NumberLexeme.fraction, NumberLexeme.takeWhile_append hdigits hbreak]
  rw [List.append_assoc, NumberLexeme.read]
  simp only [htake, List.drop_left, hfraction, hexponent, List.append_nil]

/-- A number without an exponent in front of characters that do not go on with it. -/
theorem scans_number {text : List Char} {d : Decimal} (htext : NumberLexeme.Plain text)
    (hvalue : Decimal.ofText? text = some d) (hrest : Apart rest) (h : Scans rest kinds) :
    Scans (text ++ rest) (.number (Scalar.ofDecimal d) :: kinds) := by
  have hread := read_plain htext hrest
  obtain ⟨c, cs, rfl, hdigit⟩ := htext.exists_cons
  have hblank := Text.isBlank_of_isDigit hdigit
  have hstart := @NumberLexeme.starts_of_isDigit c (cs ++ rest) hdigit
  refine scans_lexeme ?_ h
  rw [List.cons_append] at hread
  simp only [Piece.next, hblank, hstart, hread, hvalue, Bool.false_eq_true, if_false, if_true]

end Token

end SurfaceGeometry
