import SurfaceGeometry.Expr.Error
import SurfaceGeometry.Text.Numeral

/-!
# Reading tokens

A text is cut into pieces from left to right: blank characters, and lexemes, which are the
characters of one token. `Piece.next` reads one piece, `Piece.scan` all of them, and
`Token.ofPieces` gives the tokens their positions. The pieces of a text, put together again, are
the text (`Piece.flatMap_chars_scan`), and no piece is empty.

A number takes its exponent only when digits follow the mark: `2e` is the number `2` and the
name `e`.
-/

namespace SurfaceGeometry

/-! ## Numbers -/

namespace NumberLexeme

/-- The fraction at the start of a text: a point and the digits after it, or nothing. -/
def fraction : List Char → List Char
  | '.' :: cs => '.' :: cs.takeWhile Char.isDigit
  | _ => []

/-- The sign at the start of a text, or nothing. -/
def sign : List Char → List Char
  | '+' :: _ => ['+']
  | '-' :: _ => ['-']
  | _ => []

/-- The exponent at the start of a text: the mark, a sign or none, and digits. Without digits it
is none. -/
def exponent : List Char → List Char
  | [] => []
  | mark :: cs =>
    if mark = 'e' ∨ mark = 'E' then
      let digits := (cs.drop (sign cs).length).takeWhile Char.isDigit
      if digits.isEmpty then [] else mark :: (sign cs ++ digits)
    else []

/-- The longest number at the start of a text that begins with a digit, or with a point and a
digit. -/
def read (cs : List Char) : List Char :=
  let whole := cs.takeWhile Char.isDigit
  let afterWhole := cs.drop whole.length
  let point := fraction afterWhole
  whole ++ point ++ exponent (afterWhole.drop point.length)

/-- Whether a number starts here. -/
def starts : List Char → Bool
  | [] => false
  | c :: cs => c.isDigit || (c == '.' && cs.head?.any Char.isDigit)

/-- The fraction is at the start of the text. -/
theorem fraction_isPrefix (cs : List Char) : fraction cs <+: cs := by
  unfold fraction
  split
  · exact List.cons_prefix_cons.2 ⟨rfl, List.takeWhile_prefix _⟩
  · exact List.nil_prefix

/-- The sign is at the start of the text. -/
theorem sign_isPrefix (cs : List Char) : sign cs <+: cs := by
  unfold sign
  split
  · simp
  · simp
  · exact List.nil_prefix

/-- A start of a text, and a start of what is left behind it, are together a start of it. -/
theorem append_isPrefix {as bs cs : List Char} (ha : as <+: cs) (hb : bs <+: cs.drop as.length) :
    as ++ bs <+: cs := by
  obtain ⟨rest, rfl⟩ := ha
  rw [List.drop_left] at hb
  exact List.prefix_append_right_inj as |>.2 hb

/-- The exponent is at the start of the text. -/
theorem exponent_isPrefix (cs : List Char) : exponent cs <+: cs := by
  unfold exponent
  split
  · exact List.nil_prefix
  · rename_i mark cs
    split
    · simp only
      split
      · exact List.nil_prefix
      · exact List.cons_prefix_cons.2
          ⟨rfl, append_isPrefix (sign_isPrefix cs) (List.takeWhile_prefix _)⟩
    · exact List.nil_prefix

/-- The number that is read is at the start of the text. -/
theorem read_isPrefix (cs : List Char) : read cs <+: cs := by
  have h₁ : cs.takeWhile Char.isDigit <+: cs := List.takeWhile_prefix _
  have h₂ := append_isPrefix h₁ (fraction_isPrefix _)
  refine append_isPrefix h₂ ?_
  rw [List.length_append, ← List.drop_drop]
  exact exponent_isPrefix _

/-- Where a number starts, the number that is read has a character at least. -/
theorem read_ne_nil {cs : List Char} (h : starts cs = true) : read cs ≠ [] := by
  match cs, h with
  | c :: cs, h =>
    by_cases hd : c.isDigit = true
    · simp [read, hd]
    · have hc : c = '.' := by
        simp only [starts, hd, Bool.false_or, Bool.and_eq_true, beq_iff_eq] at h
        exact h.1
      subst hc
      simp [read, hd, fraction]

end NumberLexeme

/-! ## Pieces -/

/-- A piece of a text: a blank character, or the characters of a token. -/
inductive Piece (α : Type) where
  | blank (c : Char)
  | lexeme (chars : List Char) (kind : TokenKind α)

namespace Piece

variable {α : Type}

/-- The characters of a piece. -/
def chars : Piece α → List Char
  | blank c => [c]
  | lexeme cs _ => cs

/-- Reads the first piece of a text that is not empty. -/
def next [Scalar α] (c : Char) (cs : List Char) : Except (ParseFault α) (Piece α) :=
  if Text.isBlank c then .ok (blank c)
  else if NumberLexeme.starts (c :: cs) then
    let text := NumberLexeme.read (c :: cs)
    match Decimal.ofText? text with
    | some d => .ok (lexeme text (.number (Scalar.ofDecimal d)))
    | none => .error (.malformedNumber (String.ofList text))
  else if Text.startsWord c then
    let word := c :: cs.takeWhile Text.isWordChar
    .ok (lexeme word (.ofWord (String.ofList word)))
  else
    match TokenKind.ofOperator? c with
    | some kind => .ok (lexeme [c] kind)
    | none => .error (.strangeCharacter c)

/-- A piece is a start of the text it was read from. -/
theorem next_isPrefix [Scalar α] {c : Char} {cs : List Char} {piece : Piece α}
    (h : next c cs = .ok piece) : piece.chars <+: c :: cs := by
  unfold next at h
  split at h
  · cases h
    simp [chars]
  · split at h
    · dsimp only at h
      split at h
      · cases h
        exact NumberLexeme.read_isPrefix _
      · cases h
    · split at h
      · cases h
        exact List.cons_prefix_cons.2 ⟨rfl, List.takeWhile_prefix _⟩
      · split at h
        · cases h
          simp [chars]
        · cases h

/-- Every piece has a character at least, so that the scanner ends. -/
theorem next_ne_nil [Scalar α] {c : Char} {cs : List Char} {piece : Piece α}
    (h : next c cs = .ok piece) : piece.chars ≠ [] := by
  unfold next at h
  split at h
  · cases h
    simp [chars]
  · split at h
    · rename_i hstart
      dsimp only at h
      split at h
      · cases h
        exact NumberLexeme.read_ne_nil hstart
      · cases h
    · split at h
      · cases h
        simp [chars]
      · split at h
        · cases h
          simp [chars]
        · cases h

/-- Cuts a text into pieces. A failure tells how many characters were cut off before it, counted
from `position`. -/
def scan [Scalar α] (position : Nat) :
    List Char → Except (ParseFault α × Nat) (List (Piece α))
  | [] => .ok []
  | c :: cs =>
    match h : next c cs with
    | .error fault => .error (fault, position)
    | .ok piece =>
      have : (cs.drop (piece.chars.length - 1)).length < (c :: cs).length := by
        rw [List.length_drop, List.length_cons]
        omega
      (scan (position + piece.chars.length) (cs.drop (piece.chars.length - 1))).map (piece :: ·)
termination_by cs => cs.length

/-- The pieces of a text tile it. -/
theorem flatMap_chars_scan [Scalar α] {position : Nat} {cs : List Char} {pieces : List (Piece α)}
    (h : scan position cs = .ok pieces) : pieces.flatMap chars = cs := by
  fun_induction @scan α _ position cs generalizing pieces with
  | case1 => cases h; rfl
  | case2 => cases h
  | case3 position c cs piece hnext _ ih =>
    obtain ⟨rest, hrest, rfl⟩ : ∃ rest, scan (position + piece.chars.length)
        (cs.drop (piece.chars.length - 1)) = .ok rest ∧ piece :: rest = pieces := by
      generalize @scan α _ (position + piece.chars.length) _ = result at h
      cases result with
      | error => cases h
      | ok rest => cases h; exact ⟨rest, rfl, rfl⟩
    rw [List.flatMap_cons, ih hrest]
    obtain ⟨behind, hbehind⟩ := next_isPrefix hnext
    match hchars : piece.chars, next_ne_nil hnext with
    | first :: more, _ =>
      rw [hchars] at hbehind
      obtain ⟨rfl, rfl⟩ := List.cons.inj hbehind
      simp

end Piece

/-! ## Tokens -/

namespace Token

variable {α : Type}

/-- The tokens among the pieces of a text that starts at a position. -/
def ofPieces (position : Nat) : List (Piece α) → List (Token α)
  | [] => []
  | .blank _ :: pieces => ofPieces (position + 1) pieces
  | .lexeme chars kind :: pieces =>
    ⟨kind, position⟩ :: ofPieces (position + chars.length) pieces

/-- The tokens of a text. -/
def scan [Scalar α] (text : String) : Except (ExprError α) (List (Token α)) :=
  match (Piece.scan 0 text.toList : Except (ParseFault α × Nat) (List (Piece α))) with
  | .ok pieces => .ok (ofPieces 0 pieces)
  | .error (fault, position) => .error (.malformed fault position)

end Token

end SurfaceGeometry
