import SurfaceGeometry.Text.Numeral

/-!
# Classes of characters

A word starts with a letter or an underscore, which are neither blank nor digits nor points, and
goes on with characters among which are the digits. The tables of ranges are compared with each
other range by range.
-/

namespace SurfaceGeometry

namespace Text

variable {c : Char} {ranges ranges' : List (Nat × Nat)}

/-- A character in one of the ranges of a table is in the table. -/
theorem inRanges_of_mem {range : Nat × Nat} (h : range ∈ ranges) (hlow : range.1 ≤ c.toNat)
    (hhigh : c.toNat ≤ range.2) : inRanges ranges c = true :=
  List.any_eq_true.2 ⟨range, h, by simp [hlow, hhigh]⟩

/-- No range of the one table meets a range of the other. -/
def disjoint (ranges ranges' : List (Nat × Nat)) : Bool :=
  ranges.all fun range => ranges'.all fun range' => range.2 < range'.1 || range'.2 < range.1

/-- A character of one table is in no other table that is disjoint from it. -/
theorem inRanges_eq_false (hdisjoint : disjoint ranges ranges' = true)
    (h : inRanges ranges c = true) : inRanges ranges' c = false := by
  obtain ⟨range, hmem, hrange⟩ := List.any_eq_true.1 h
  simp only [Bool.and_eq_true, decide_eq_true_eq] at hrange
  refine List.any_eq_false.2 fun range' hmem' hrange' => ?_
  have hapart := List.all_eq_true.1 (List.all_eq_true.1 hdisjoint range hmem) range' hmem'
  simp only [Bool.or_eq_true, Bool.and_eq_true, decide_eq_true_eq] at hapart hrange'
  omega

/-- No letter is blank. -/
theorem letters_disjoint_blanks : disjoint letterRanges blankRanges = true := by decide +kernel

/-- The space and the signs up to the slash, and the caret. -/
def signRanges : List (Nat × Nat) := [(0x20, 0x2f), (0x5e, 0x5e)]

/-- The digits of ASCII. -/
def digitRanges : List (Nat × Nat) := [(0x30, 0x39)]

/-- No letter is a sign. -/
theorem letters_disjoint_signs : disjoint letterRanges signRanges = true := by decide +kernel

/-- No letter is a digit of ASCII. -/
theorem letters_disjoint_digits : disjoint letterRanges digitRanges = true := by decide +kernel

/-- No numeral character of any script is a sign. -/
theorem numerals_disjoint_signs : disjoint numeralRanges signRanges = true := by decide +kernel

/-- The digits of ASCII by their codes. -/
theorem isDigit_iff : c.isDigit = true ↔ 0x30 ≤ c.toNat ∧ c.toNat ≤ 0x39 := by
  simp only [Char.isDigit, Bool.and_eq_true, decide_eq_true_eq, ge_iff_le, UInt32.le_iff_toNat_le]
  exact Iff.rfl

/-- Words go on with digits. -/
theorem isWordChar_of_isDigit (h : c.isDigit = true) : isWordChar c = true := by
  have hrange := isDigit_iff.1 h
  have hnumeral : isNumeral c = true := inRanges_of_mem (List.mem_cons_self ..) hrange.1 hrange.2
  simp [isWordChar, hnumeral]

/-- What starts a word can go on with it. -/
theorem isWordChar_of_startsWord (h : startsWord c = true) : isWordChar c = true := by
  simp only [startsWord, Bool.or_eq_true] at h
  simp only [isWordChar, Bool.or_eq_true]
  exact h.imp_left .inl

/-- No digit is blank. -/
theorem isBlank_of_isDigit (h : c.isDigit = true) : isBlank c = false := by
  have hrange := isDigit_iff.1 h
  have hdigit : inRanges digitRanges c = true :=
    inRanges_of_mem (List.mem_cons_self ..) hrange.1 hrange.2
  exact inRanges_eq_false (by decide) hdigit

/-- No numeral character of any script is blank. -/
theorem numerals_disjoint_blanks : disjoint numeralRanges blankRanges = true := by decide +kernel

/-- No character of a word is blank. -/
theorem isBlank_of_isWordChar (h : isWordChar c = true) : isBlank c = false := by
  simp only [isWordChar, Bool.or_eq_true, beq_iff_eq] at h
  rcases h with (hletter | hnumeral) | rfl
  · exact inRanges_eq_false letters_disjoint_blanks hletter
  · exact inRanges_eq_false numerals_disjoint_blanks hnumeral
  · decide

/-- What starts a word is not blank. -/
theorem isBlank_of_startsWord (h : startsWord c = true) : isBlank c = false :=
  isBlank_of_isWordChar (isWordChar_of_startsWord h)

/-- A space or a sign is in no word. -/
theorem isWordChar_of_sign (h : inRanges signRanges c = true) : isWordChar c = false := by
  rw [Bool.eq_false_iff]
  intro hword
  simp only [isWordChar, Bool.or_eq_true, beq_iff_eq] at hword
  rcases hword with (hletter | hnumeral) | rfl
  · rw [inRanges_eq_false letters_disjoint_signs hletter] at h
    cases h
  · rw [inRanges_eq_false numerals_disjoint_signs hnumeral] at h
    cases h
  · cases h

/-- What starts a word is no digit. -/
theorem isDigit_of_startsWord (h : startsWord c = true) : c.isDigit = false := by
  rw [Bool.eq_false_iff]
  intro hdigit
  have hrange := isDigit_iff.1 hdigit
  have hdigit' : inRanges digitRanges c = true :=
    inRanges_of_mem (List.mem_cons_self ..) hrange.1 hrange.2
  simp only [startsWord, Bool.or_eq_true, beq_iff_eq] at h
  rcases h with h | rfl
  · rw [inRanges_eq_false letters_disjoint_digits h] at hdigit'
    cases hdigit'
  · cases hdigit

/-- What starts a word is no point. -/
theorem ne_point_of_startsWord (h : startsWord c = true) : c ≠ '.' := by
  rintro rfl
  have hword := isWordChar_of_startsWord h
  rw [isWordChar_of_sign rfl] at hword
  cases hword

/-- Whether a character is a small letter of ASCII. -/
def isLower (c : Char) : Bool :=
  0x61 ≤ c.toNat && c.toNat ≤ 0x7a

/-- A small letter of ASCII starts a word. -/
theorem startsWord_of_isLower (h : isLower c = true) : startsWord c = true := by
  simp only [isLower, Bool.and_eq_true, decide_eq_true_eq] at h
  have hletter : isLetter c = true :=
    inRanges_of_mem (List.mem_cons_of_mem _ (List.mem_cons_self ..)) h.1 h.2
  rw [startsWord, hletter, Bool.true_or]

/-- A small letter of ASCII can go on with a word. -/
theorem isWordChar_of_isLower (h : isLower c = true) : isWordChar c = true :=
  isWordChar_of_startsWord (startsWord_of_isLower h)

end Text

end SurfaceGeometry
