import SurfaceGeometry.Proofs.Printer.Kinds
import SurfaceGeometry.Proofs.Shader.Grammar
import SurfaceGeometry.Shader.Term

/-!
# Scanning the text of a shader

One lemma for each kind of piece puts the piece in front of characters that are already scanned, as
for texts of the expression language. Signs need care here: a sign in front of another one can be
one sign with it.
-/

namespace SurfaceGeometry

/-- A word. -/
def Text.IsWord (name : String) : Prop :=
  ∃ c cs, name = String.ofList (c :: cs) ∧ Text.startsWord c = true ∧
    ∀ d ∈ cs, Text.isWordChar d = true

namespace Shader

open Token (Apart)

variable {α : Type} [Scalar α] {c : Char} {cs rest : List Char} {kinds ks : List (TokenKind α)}

/-! ## Tokens -/

@[simp] theorem scan_nil : scan [] = some ([] : List (TokenKind α)) := by
  rw [scan]

/-- A first piece is cut off and the rest is scanned. -/
theorem scan_of_next {piece : Piece α} (h : next c (cs ++ rest) = some piece)
    (hchars : piece.chars = c :: cs) :
    scan (c :: (cs ++ rest)) = (scan rest).map (Piece.kinds [piece] ++ ·) := by
  rw [scan, h]
  simp [hchars]

/-- The characters of a token in front of scanned characters. -/
theorem scan_lexeme {kind : TokenKind α}
    (hnext : next c (cs ++ rest) = some (.lexeme (c :: cs) kind))
    (h : scan rest = some kinds) : scan (c :: (cs ++ rest)) = some (kind :: kinds) := by
  rw [scan_of_next hnext rfl, h]
  rfl

/-- A blank is skipped. -/
theorem scan_blank (h : scan rest = some kinds) : scan (' ' :: rest) = some kinds := by
  have hstep := @scan_of_next α _ ' ' [] rest (.blank ' ') rfl rfl
  rw [List.nil_append, h] at hstep
  exact hstep

/-- The characters that signs have. -/
def signs : List Char := ['+', '-', '*', '/', '!', '&', '|', '(', ')', ',']

/-- A sign is not blank and starts neither a number nor a word. -/
theorem next_sign (h : c ∈ signs) : (next c cs : Option (Piece α)) = nextSign c cs := by
  have hclass :
      Text.isBlank c = false ∧ c.isDigit = false ∧ c ≠ '.' ∧ Text.startsWord c = false := by
    simp only [signs, List.mem_cons, List.not_mem_nil, or_false] at h
    rcases h with rfl | rfl | rfl | rfl | rfl | rfl | rfl | rfl | rfl | rfl <;>
      exact ⟨rfl, rfl, by decide, by decide +kernel⟩
  obtain ⟨hblank, hdigit, hpoint, hstart⟩ := hclass
  have hnumber : NumberLexeme.starts (c :: cs) = false := by
    simp [NumberLexeme.starts, hdigit, hpoint]
  simp only [next, hblank, hnumber, hstart, Bool.false_eq_true, if_false]

omit [Scalar α] in
/-- The characters of operators are among those of signs. -/
theorem mem_signs_of_operatorOfChar? {kind : TokenKind α} (h : operatorOfChar? c = some kind) :
    c ∈ signs := by
  unfold operatorOfChar? at h
  split at h <;> simp_all [signs]

/-- A sign of one character, where the next character does not make another one of it. -/
theorem scan_char {kind : TokenKind α} (hop : operatorOfChar? c = some kind)
    (hpair : ∀ d ∈ rest.head?, (c, d) ∉ pairs) (h : scan rest = some kinds) :
    scan (c :: rest) = some (kind :: kinds) := by
  refine @scan_lexeme α _ c [] rest kinds kind ?_ h
  have hnone : rest.head?.filter (fun d => (c, d) ∈ pairs) = none := by
    rw [Option.filter_eq_none_iff]
    intro d hd
    simpa using hpair d hd
  rw [next_sign (mem_signs_of_operatorOfChar? hop), List.nil_append, nextSign, hnone]
  simp [hop]

/-- A sign of two characters. -/
theorem scan_pair {d : Char} {kind : TokenKind α} (hc : c ∈ signs) (hpair : (c, d) ∈ pairs)
    (hop : operatorOfPair? (c, d) = some kind) (h : scan rest = some kinds) :
    scan (c :: d :: rest) = some (kind :: kinds) := by
  refine @scan_lexeme α _ c [d] rest kinds kind ?_ h
  have hsome : ((d :: rest).head?.filter fun d => (c, d) ∈ pairs) = some d := by
    simp [hpair]
  rw [next_sign hc, List.singleton_append, nextSign, hsome]
  simp [hop]

/-- A word is scanned to its token, in front of characters that do not go on with it. -/
theorem scan_word (hstart : Text.startsWord c = true) (hword : ∀ d ∈ cs, Text.isWordChar d = true)
    (hrest : Apart rest) (h : scan rest = some kinds) :
    scan (c :: (cs ++ rest)) = some (.identifier (String.ofList (c :: cs)) :: kinds) := by
  refine scan_lexeme ?_ h
  have hblank := Text.isBlank_of_startsWord hstart
  have hnumber := @NumberLexeme.starts_of_startsWord c (cs ++ rest) hstart
  have htake := Token.takeWhile_isWordChar hword hrest
  simp only [next, hblank, hnumber, hstart, htake, Bool.false_eq_true, if_false, if_true]

/-- A number with a point in front of characters that do not go on with it. -/
theorem scan_number {text : List Char} {d : Decimal} (htext : NumberLexeme.Plain text)
    (hpoint : '.' ∈ text) (hvalue : Decimal.ofText? text = some d) (hrest : Apart rest)
    (h : scan rest = some kinds) :
    scan (text ++ rest) = some (.number (Scalar.ofDecimal d) :: kinds) := by
  have hread := Token.read_plain htext hrest
  obtain ⟨c, cs, rfl, hdigit⟩ := htext.exists_cons
  have hblank := Text.isBlank_of_isDigit hdigit
  have hstart := @NumberLexeme.starts_of_isDigit c (cs ++ rest) hdigit
  have hfloat : (c :: cs).all Char.isDigit = false :=
    List.all_eq_false.2 ⟨'.', hpoint, by decide⟩
  refine scan_lexeme ?_ h
  rw [List.cons_append] at hread
  simp only [next, hblank, hstart, hread, hfloat, hvalue, Bool.false_eq_true, if_false, if_true]
  rfl

end Shader

end SurfaceGeometry
