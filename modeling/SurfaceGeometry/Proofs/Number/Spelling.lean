import SurfaceGeometry.Proofs.Number.Shortest
import SurfaceGeometry.Proofs.Token.Scanning
import Mathlib.Data.List.TakeWhile

/-!
# The positional spelling of decimals

A decimal is spelled by digits, and a point and digits or nothing, and the text is read as a decimal
of the same value, not always with the same digits: `1.5` for `15 * 10 ^ -1` gives the digits back,
but `0.05` for `5 * 10 ^ -2` has zeros in front of them, and `500` for `5 * 10 ^ 2` behind them.
-/

namespace SurfaceGeometry

namespace Decimal

/-! ## Digits -/

/-- Digits behind digits count as many places lower as they are. -/
theorem natOfDigits_append (as bs : List Char) :
    natOfDigits (as ++ bs) = natOfDigits as * 10 ^ bs.length + natOfDigits bs := by
  have hstart : ∀ (bs : List Char) (n : Nat),
      bs.foldl (fun n c => 10 * n + (c.toNat - '0'.toNat)) n =
        n * 10 ^ bs.length + natOfDigits bs := by
    intro bs
    induction bs with
    | nil => simp [natOfDigits]
    | cons b bs ih =>
      intro n
      rw [natOfDigits, List.foldl_cons, List.foldl_cons, ih, ih (10 * 0 + _), List.length_cons]
      ring
  rw [natOfDigits, List.foldl_append, hstart bs]
  rfl

/-- Zeros have the value zero. -/
theorem natOfDigits_zeros (n : Nat) : natOfDigits (List.replicate n '0') = 0 := by
  induction n with
  | zero => rfl
  | succ n ih =>
    rw [List.replicate_succ', natOfDigits_append, ih]
    rfl

/-- The digits of a number have it as their value. -/
theorem natOfDigits_toDigits (n : Nat) : natOfDigits (Nat.toDigits 10 n) = n := by
  induction n using Nat.strongRecOn with
  | ind n ih =>
    rw [Nat.toDigits_eq_if (by decide)]
    split
    · next hn =>
      show 10 * 0 + (n.digitChar.toNat - 48) = n
      rw [Nat.toNat_digitChar_of_lt_ten hn]
      omega
    · next hn =>
      have hdigit : natOfDigits [(n % 10).digitChar] = n % 10 := by
        show 10 * 0 + ((n % 10).digitChar.toNat - 48) = n % 10
        rw [Nat.toNat_digitChar_of_lt_ten (by omega)]
        omega
      rw [natOfDigits_append, ih (n / 10) (by omega), hdigit, List.length_singleton]
      omega

/-- The digits of a number are digits. -/
theorem isDigit_of_mem_toDigits {n : Nat} {c : Char} (h : c ∈ Nat.toDigits 10 n) :
    c.isDigit = true :=
  Nat.isDigit_of_mem_toDigits (by decide) (by decide) h

/-! ## Reading -/

/-- Digits without a point are read as a whole number. -/
theorem ofText?_whole {whole : List Char} (hne : whole ≠ []) (hwhole : ∀ c ∈ whole, c.isDigit) :
    ofText? whole = some ⟨natOfDigits whole, 0⟩ := by
  have htake : whole.takeWhile Char.isDigit = whole := List.takeWhile_eq_self_iff.2 hwhole
  have hdrop : whole.dropWhile Char.isDigit = [] := List.dropWhile_eq_nil_iff.2 hwhole
  unfold ofText?
  simp [htake, hdrop, hne]

/-- Digits with a point are read as a number with as many decimal places as there are behind it. -/
theorem ofText?_point {whole digits : List Char} (hne : whole ≠ [])
    (hwhole : ∀ c ∈ whole, c.isDigit) (hdigits : ∀ c ∈ digits, c.isDigit) :
    ofText? (whole ++ '.' :: digits) = some ⟨natOfDigits (whole ++ digits), -digits.length⟩ := by
  have htake : (whole ++ '.' :: digits).takeWhile Char.isDigit = whole :=
    NumberLexeme.takeWhile_append hwhole (by rintro _ ⟨⟩; rfl)
  have hdrop : (whole ++ '.' :: digits).dropWhile Char.isDigit = '.' :: digits := by
    rw [List.dropWhile_append_of_pos hwhole]
    rfl
  have htake' : digits.takeWhile Char.isDigit = digits := List.takeWhile_eq_self_iff.2 hdigits
  have hdrop' : digits.dropWhile Char.isDigit = [] := List.dropWhile_eq_nil_iff.2 hdigits
  unfold ofText?
  simp [htake, hdrop, htake', hdrop', hne]

/-! ## Writing -/

/-- A text that is a number without sign and exponent, and is read as a decimal of a value. -/
def Spells (text : List Char) (v : ℚ) : Prop :=
  NumberLexeme.Plain text ∧ ∃ d, ofText? text = some d ∧ d.value = v

/-- Digits without a point spell their value. -/
theorem spells_whole {whole : List Char} (hne : whole ≠ []) (hwhole : ∀ c ∈ whole, c.isDigit) :
    Spells whole (natOfDigits whole) := by
  refine ⟨⟨whole, [], by simp, hne, hwhole, .inl rfl⟩, _, ofText?_whole hne hwhole, ?_⟩
  simp [value]

/-- Digits with a point spell the value of all of them, divided by a power of ten. -/
theorem spells_point {whole digits : List Char} (hne : whole ≠ [])
    (hwhole : ∀ c ∈ whole, c.isDigit) (hdigits : ∀ c ∈ digits, c.isDigit) :
    Spells (whole ++ '.' :: digits) (natOfDigits (whole ++ digits) * 10 ^ (-digits.length : Int)) :=
  ⟨⟨whole, '.' :: digits, rfl, hne, hwhole, .inr ⟨digits, rfl, hdigits⟩⟩, _,
    ofText?_point hne hwhole hdigits, rfl⟩

section

variable {text : List Char} {n : Nat} (hne : text ≠ []) (hdigits : ∀ c ∈ text, c.isDigit = true)

include hdigits

/-- Digits with zeros in front of them are digits. -/
theorem isDigit_of_mem_zeros_append {c : Char} (h : c ∈ List.replicate n '0' ++ text) :
    c.isDigit = true := by
  rcases List.mem_append.1 h with hc | hc
  · rw [List.eq_of_mem_replicate hc]
    rfl
  · exact hdigits c hc

include hne

/-- Zeros behind the digits. -/
theorem spells_zeros : Spells (text ++ List.replicate n '0') (natOfDigits text * 10 ^ n) := by
  have hwhole : ∀ c ∈ text ++ List.replicate n '0', c.isDigit = true := fun c hc =>
    isDigit_of_mem_zeros_append hdigits (List.mem_append.2 (List.mem_append.1 hc).symm)
  have hspells := spells_whole (List.append_ne_nil_of_left_ne_nil hne _) hwhole
  rw [natOfDigits_append, natOfDigits_zeros, List.length_replicate] at hspells
  exact_mod_cast hspells

/-- A point among the digits. -/
theorem spells_split (hplaces : n < text.length) :
    Spells (text.take (text.length - n) ++ '.' :: text.drop (text.length - n))
      (natOfDigits text * 10 ^ (-n : Int)) := by
  have htake : text.take (text.length - n) ≠ [] := by
    rw [ne_eq, List.take_eq_nil_iff]
    rintro (h | h)
    · omega
    · exact hne h
  have hspells := @spells_point _ (text.drop (text.length - n)) htake
    (fun c hc => hdigits c (List.mem_of_mem_take hc))
    (fun c hc => hdigits c (List.mem_of_mem_drop hc))
  have hcount : text.length - (text.length - n) = n := by omega
  rwa [List.take_append_drop, List.length_drop, hcount] at hspells

omit hne in
/-- A point and zeros in front of the digits. -/
theorem spells_fraction (hplaces : text.length ≤ n) :
    Spells ('0' :: '.' :: List.replicate (n - text.length) '0' ++ text)
      (natOfDigits text * 10 ^ (-n : Int)) := by
  have hspells := @spells_point ['0'] (List.replicate (n - text.length) '0' ++ text) (by simp)
    (by simp) fun c hc => isDigit_of_mem_zeros_append hdigits hc
  have hvalue : natOfDigits (['0'] ++ (List.replicate (n - text.length) '0' ++ text)) =
      natOfDigits text := by
    rw [natOfDigits_append, natOfDigits_append, natOfDigits_zeros]
    simp [natOfDigits]
  have hcount : (List.replicate (n - text.length) '0' ++ text).length = n := by
    rw [List.length_append, List.length_replicate]
    omega
  rwa [hvalue, hcount] at hspells

end

/-- The positional spelling of a decimal is read as a decimal of the same value. -/
theorem spells_positional (d : Decimal) : Spells d.positional.toList d.value := by
  have htext : (toString d.digits).toList = Nat.toDigits 10 d.digits := Nat.toList_repr
  have hne : Nat.toDigits 10 d.digits ≠ [] := Nat.toDigits_ne_nil
  have hdigits : ∀ c ∈ Nat.toDigits 10 d.digits, c.isDigit = true :=
    fun c hc => isDigit_of_mem_toDigits hc
  have hvalue := natOfDigits_toDigits d.digits
  unfold positional
  dsimp only
  rw [htext]
  generalize Nat.toDigits 10 d.digits = text at *
  rw [value, ← hvalue]
  split
  · next hexponent =>
    obtain ⟨n, hn⟩ := Int.eq_ofNat_of_zero_le hexponent
    rw [String.toList_ofList, hn, Int.toNat_natCast, zpow_natCast]
    exact spells_zeros hne hdigits
  · next hexponent =>
    obtain ⟨n, hn⟩ := Int.eq_ofNat_of_zero_le (show 0 ≤ -d.exponent by omega)
    have hn' : d.exponent = -(n : Int) := by omega
    rw [hn', neg_neg, Int.toNat_natCast]
    split
    · next hplaces =>
      rw [String.toList_ofList]
      exact spells_split hne hdigits hplaces
    · next hplaces =>
      rw [String.toList_ofList]
      exact spells_fraction hdigits (not_lt.1 hplaces)

end Decimal

end SurfaceGeometry
