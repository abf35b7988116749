import SurfaceGeometry.Proofs.Token.Scanning

/-!
# The longest number

`NumberLexeme.Numeral` is the grammar of numbers: digits, and a point and digits or nothing, with at
least one digit among them, and an exponent or none. Of the numbers a text starts with,
`NumberLexeme.read` gives the longest (`NumberLexeme.numeral_read`, `NumberLexeme.length_le_read`),
and every number is read as a decimal (`NumberLexeme.Numeral.exists_ofText?`), so no number is
malformed.

Each of the three parts is read as far as it goes. A number that ends its digits earlier has nothing
behind them, since neither a point nor the mark of an exponent is a digit.
-/

namespace SurfaceGeometry

namespace NumberLexeme

/-! ## The grammar -/

/-- Characters that are all digits. -/
def Digits (cs : List Char) : Prop :=
  ∀ c ∈ cs, c.isDigit = true

/-- A point and digits, or nothing. -/
inductive Fraction : List Char → Prop where
  | none : Fraction []
  | point {digits} (hdigits : Digits digits) : Fraction ('.' :: digits)

/-- The mark of an exponent, a sign or none, and one or more digits; or nothing. -/
inductive Exponent : List Char → Prop where
  | none : Exponent []
  | power {mark signs digits} (hmark : mark = 'e' ∨ mark = 'E')
      (hsigns : signs = [] ∨ signs = ['+'] ∨ signs = ['-']) (hne : digits ≠ [])
      (hdigits : Digits digits) : Exponent (mark :: (signs ++ digits))

/-- A number, with at least one digit outside its exponent. -/
inductive Numeral : List Char → Prop where
  | parts {whole point power} (hwhole : Digits whole) (hpoint : Fraction point)
      (hpower : Exponent power) (hdigit : ∃ c ∈ whole ++ point, c.isDigit = true) :
      Numeral (whole ++ point ++ power)

variable {cs digits point power more rest : List Char}

/-- An exponent does not start with a digit. -/
theorem Exponent.head_not_isDigit (h : Exponent power) : ∀ c ∈ power.head?, c.isDigit = false := by
  cases h with
  | none => simp
  | power hmark =>
    rintro _ ⟨⟩
    rcases hmark with rfl | rfl <;> rfl

/-- What follows the digits in front of the point does not start with a digit, with or without a
point. -/
theorem Fraction.head_not_isDigit (h : Fraction point) (hpower : Exponent power) :
    ∀ c ∈ (point ++ power).head?, c.isDigit = false := by
  cases h with
  | none => exact hpower.head_not_isDigit
  | point =>
    rintro _ ⟨⟩
    rfl

/-- A number starts with a digit, or with a point and a digit. -/
theorem Numeral.starts {text : List Char} (h : Numeral text) : starts (text ++ rest) = true := by
  cases h with
  | @parts whole point power hwhole hpoint _ hdigit =>
    cases whole with
    | cons c whole => simp [NumberLexeme.starts, hwhole c (List.mem_cons_self ..)]
    | nil =>
      cases hpoint with
      | none => simp at hdigit
      | @point digits hdigits =>
        cases digits with
        | nil => simp at hdigit
        | cons d digits => simp [NumberLexeme.starts, hdigits d (List.mem_cons_self ..)]

/-- No character of an exponent is blank. -/
theorem Exponent.not_isBlank (h : Exponent power) : ∀ c ∈ power, Text.isBlank c = false := by
  cases h with
  | none => simp
  | power hmark hsigns _ hdigits =>
    refine List.forall_mem_cons.2 ⟨?_, fun c hc => ?_⟩
    · rcases hmark with rfl | rfl <;> rfl
    · rcases List.mem_append.1 hc with hc | hc
      · rcases hsigns with rfl | rfl | rfl
        · cases hc
        all_goals
          obtain rfl := List.mem_singleton.1 hc
          rfl
      · exact Text.isBlank_of_isDigit (hdigits c hc)

/-- No character of a fraction is blank. -/
theorem Fraction.not_isBlank (h : Fraction point) : ∀ c ∈ point, Text.isBlank c = false := by
  cases h with
  | none => simp
  | point hdigits =>
    exact List.forall_mem_cons.2 ⟨rfl, fun c hc => Text.isBlank_of_isDigit (hdigits c hc)⟩

/-- No character of a number is blank. -/
theorem Numeral.not_isBlank {text : List Char} (h : Numeral text) :
    ∀ c ∈ text, Text.isBlank c = false := by
  cases h with
  | parts hwhole hpoint hpower =>
    intro c hc
    rcases List.mem_append.1 hc with hc | hc
    · rcases List.mem_append.1 hc with hc | hc
      · exact Text.isBlank_of_isDigit (hwhole c hc)
      · exact hpoint.not_isBlank c hc
    · exact hpower.not_isBlank c hc

/-! ## What is read is a number -/

/-- The digits that a text starts with are digits. -/
theorem digits_takeWhile (cs : List Char) : Digits (cs.takeWhile Char.isDigit) :=
  fun _ h => List.all_eq_true.1 List.all_takeWhile _ h

/-- What is read as a fraction is one. -/
theorem fraction_fraction (cs : List Char) : Fraction (fraction cs) := by
  unfold fraction
  split
  · exact .point (digits_takeWhile _)
  · exact .none

/-- What is read as a sign is a sign, or nothing. -/
theorem sign_cases (cs : List Char) : sign cs = [] ∨ sign cs = ['+'] ∨ sign cs = ['-'] := by
  unfold sign
  split <;> simp

/-- What is read as an exponent is one. -/
theorem exponent_exponent (cs : List Char) : Exponent (exponent cs) := by
  unfold exponent
  split
  · exact .none
  · next mark cs =>
    split
    · next hmark =>
      dsimp only
      split
      · exact .none
      · next hdigits =>
        rw [List.isEmpty_iff] at hdigits
        exact .power hmark (sign_cases cs) hdigits (digits_takeWhile _)
    · exact .none

/-- What is read as a number is one. -/
theorem numeral_read (h : starts cs = true) : Numeral (read cs) := by
  refine .parts (digits_takeWhile cs) (fraction_fraction _) (exponent_exponent _) ?_
  cases cs with
  | nil => cases h
  | cons c cs =>
    by_cases hc : c.isDigit = true
    · exact ⟨c, by simp [hc], hc⟩
    · simp only [NumberLexeme.starts, hc, Bool.false_or, Bool.and_eq_true, beq_iff_eq] at h
      obtain ⟨rfl, hnext⟩ := h
      cases cs with
      | nil => cases hnext
      | cons d cs =>
        have hd : d.isDigit = true := hnext
        exact ⟨d, by simp [hd, fraction], hd⟩

/-! ## No number is longer -/

/-- What stands behind the first part of a text is at the start of what is left without that part.
-/
theorem isPrefix_drop {as bs : List Char} (h : as ++ bs <+: cs) : bs <+: cs.drop as.length := by
  obtain ⟨rest, rfl⟩ := h
  simp

/-- Digits at the start of a text are among the digits that it starts with. -/
theorem Digits.isPrefix_takeWhile (h : Digits digits) (hfront : digits <+: cs) :
    digits <+: cs.takeWhile Char.isDigit := by
  obtain ⟨rest, rfl⟩ := hfront
  rw [List.takeWhile_append_of_pos h]
  exact List.prefix_append _ _

/-- Digits that end before the digits of the text do have nothing behind them. -/
theorem Digits.eq_takeWhile_or_eq_nil (h : Digits digits)
    (hmore : ∀ c ∈ more.head?, c.isDigit = false) (hfront : digits ++ more <+: cs) :
    digits = cs.takeWhile Char.isDigit ∨ more = [] := by
  obtain ⟨rest, rfl⟩ := hfront
  cases more with
  | nil => exact .inr rfl
  | cons c more =>
    refine .inl ?_
    rw [List.append_assoc]
    exact (takeWhile_append h (by simpa using hmore)).symm

/-- A sign in front of digits is read as that sign. Without digits behind it, it would be no part of
an exponent. -/
theorem sign_of_digits {signs : List Char} (hsigns : signs = [] ∨ signs = ['+'] ∨ signs = ['-'])
    (hne : digits ≠ []) (hdigits : Digits digits) (hfront : signs ++ digits <+: cs) :
    sign cs = signs := by
  obtain ⟨rest, rfl⟩ := hfront
  obtain ⟨d, digits, rfl⟩ := List.exists_cons_of_ne_nil hne
  rcases hsigns with rfl | rfl | rfl
  · have hd := hdigits d (List.mem_cons_self ..)
    show sign (d :: (digits ++ rest)) = []
    unfold sign
    split
    · next h => cases h; cases hd
    · next h => cases h; cases hd
    · rfl
  · rfl
  · rfl

/-- No exponent at the start of a text is longer than the one that is read. -/
theorem Exponent.length_le (h : Exponent power) (hfront : power <+: cs) :
    power.length ≤ (exponent cs).length := by
  cases h with
  | none => exact Nat.zero_le _
  | @power mark signs digits hmark hsigns hne hdigits =>
    obtain ⟨rest, rfl⟩ := hfront
    have hsign := @sign_of_digits (signs ++ (digits ++ rest)) digits signs hsigns hne hdigits
      ⟨rest, by simp⟩
    have htake : (digits ++ rest).takeWhile Char.isDigit = digits ++ rest.takeWhile Char.isDigit :=
      List.takeWhile_append_of_pos hdigits
    simp only [exponent, List.cons_append, List.append_assoc, hmark, hsign, List.drop_left, htake,
      List.isEmpty_iff, List.append_eq_nil_iff, hne, false_and, if_true, if_false, List.length_cons,
      List.length_append]
    omega

/-- No fraction with an exponent at the start of a text is longer than what is read. Without a
fraction, the exponent could only start where a point stands. -/
theorem Fraction.length_le (hpoint : Fraction point) (hpower : Exponent power)
    (hfront : point ++ power <+: cs) :
    (point ++ power).length ≤ (fraction cs ++ exponent (cs.drop (fraction cs).length)).length := by
  cases hpoint with
  | none =>
    by_cases hhead : ∃ behind, cs = '.' :: behind
    · obtain ⟨behind, rfl⟩ := hhead
      cases hpower with
      | none => exact Nat.zero_le _
      | power hmark =>
        obtain ⟨rfl, -⟩ := List.cons_prefix_cons.1 hfront
        rcases hmark with hmark | hmark <;> cases hmark
    · have hnone : fraction cs = [] := by
        unfold fraction
        split
        · exact absurd ⟨_, rfl⟩ hhead
        · rfl
      rw [hnone]
      exact hpower.length_le hfront
  | @point digits hdigits =>
    obtain ⟨behind, rfl, hbehind⟩ : ∃ behind, cs = '.' :: behind ∧ digits ++ power <+: behind := by
      obtain ⟨rest, rfl⟩ := hfront
      exact ⟨digits ++ power ++ rest, rfl, List.prefix_append _ _⟩
    have hdigits' := hdigits.isPrefix_takeWhile ((List.prefix_append digits power).trans hbehind)
    rcases hdigits.eq_takeWhile_or_eq_nil hpower.head_not_isDigit hbehind with htake | rfl
    · have hpower' := hpower.length_le (isPrefix_drop hbehind)
      simp only [fraction, ← htake, List.length_append, List.length_cons, List.drop_succ_cons]
      omega
    · have hlength := hdigits'.length_le
      simp only [fraction, List.length_append, List.length_cons, List.length_nil]
      omega

/-- A number at the start of a text is not longer than the one that is read. -/
theorem length_le_read {text : List Char} (h : Numeral text) (hfront : text <+: cs) :
    text.length ≤ (read cs).length := by
  cases h with
  | @parts whole point power hwhole hpoint hpower =>
    rw [List.append_assoc] at hfront ⊢
    have hwhole' := hwhole.isPrefix_takeWhile ((List.prefix_append whole _).trans hfront)
    rcases hwhole.eq_takeWhile_or_eq_nil (hpoint.head_not_isDigit hpower) hfront with htake | hnil
    · have hbehind := hpoint.length_le hpower (isPrefix_drop hfront)
      rw [List.length_append] at hbehind
      simp only [read, ← htake, List.length_append] at hbehind ⊢
      omega
    · have hlength := hwhole'.length_le
      rw [hnil, List.append_nil, read, List.length_append, List.length_append]
      omega

/-! ## Every number has a value -/

/-- The text of an exponent has a mark and the text of an integer. -/
theorem Exponent.exists_exponentOfText? {mark : Char} (h : Exponent (mark :: rest)) :
    (mark = 'e' ∨ mark = 'E') ∧ ∃ n, Decimal.exponentOfText? rest = some n := by
  cases h with
  | @power mark signs digits hmark hsigns hne hdigits =>
    refine ⟨hmark, ?_⟩
    have hall : digits.all Char.isDigit = true := List.all_eq_true.2 hdigits
    obtain ⟨d, digits, rfl⟩ := List.exists_cons_of_ne_nil hne
    have hd := hdigits d (List.mem_cons_self ..)
    rcases hsigns with rfl | rfl | rfl
    · have hplus : d ≠ '+' := by rintro rfl; cases hd
      have hminus : d ≠ '-' := by rintro rfl; cases hd
      exact ⟨Decimal.natOfDigits (d :: digits),
        by simp [Decimal.exponentOfText?, hplus, hminus, hall]⟩
    · exact ⟨Decimal.natOfDigits (d :: digits), by simp [Decimal.exponentOfText?, hall]⟩
    · exact ⟨-Decimal.natOfDigits (d :: digits), by simp [Decimal.exponentOfText?, hall]⟩

/-- What is left behind a run of characters of a class starts with the first one that is not of the
class. -/
theorem dropWhile_append {p : Char → Bool} (hcs : ∀ c ∈ cs, p c = true)
    (hrest : ∀ c ∈ rest.head?, p c = false) : (cs ++ rest).dropWhile p = rest := by
  rw [List.dropWhile_append_of_pos hcs]
  cases rest with
  | nil => rfl
  | cons c rest => simp [hrest c rfl]

/-- What is behind the point and its digits is an exponent or nothing. -/
theorem Numeral.exists_ofText? {text : List Char} (h : Numeral text) :
    ∃ d, Decimal.ofText? text = some d := by
  cases h with
  | @parts whole point power hwhole hpoint hpower hdigit =>
    have htake := takeWhile_append hwhole (hpoint.head_not_isDigit hpower)
    have hdrop := dropWhile_append hwhole (hpoint.head_not_isDigit hpower)
    unfold Decimal.ofText?
    rw [List.append_assoc, htake, hdrop]
    cases hpoint with
    | none =>
      have hne : whole ≠ [] := by
        rintro rfl
        simp at hdigit
      cases power with
      | nil => exact ⟨⟨Decimal.natOfDigits whole, 0⟩, by simp [hne]⟩
      | cons mark power =>
        obtain ⟨hmark, n, hn⟩ := hpower.exists_exponentOfText?
        have hpoint : mark ≠ '.' := by
          rintro rfl
          rcases hmark with hmark | hmark <;> cases hmark
        exact ⟨⟨Decimal.natOfDigits whole, n⟩, by simp [hne, hmark, hpoint, hn]⟩
    | @point digits hdigits =>
      have htake' := takeWhile_append hdigits hpower.head_not_isDigit
      have hdrop' := dropWhile_append hdigits hpower.head_not_isDigit
      have hne : ¬(whole = [] ∧ digits = []) := by
        rintro ⟨rfl, rfl⟩
        simp at hdigit
      cases power with
      | nil =>
        exact ⟨⟨Decimal.natOfDigits (whole ++ digits), -digits.length⟩, by
          simp only [List.append_nil] at htake' hdrop'
          simp [htake', hdrop', hne]⟩
      | cons mark power =>
        obtain ⟨hmark, n, hn⟩ := hpower.exists_exponentOfText?
        exact ⟨⟨Decimal.natOfDigits (whole ++ digits), n - digits.length⟩, by
          simp [htake', hdrop', hne, hmark, hn]⟩

end NumberLexeme

end SurfaceGeometry
