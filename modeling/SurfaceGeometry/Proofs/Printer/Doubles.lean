import SurfaceGeometry.Proofs.Number.Reading
import SurfaceGeometry.Proofs.Printer.Parsed

/-!
# Printed trees of doubles

The round trip of `Expr.parse_text_eq` for doubles, whose texts read back.
-/

namespace SurfaceGeometry

open TokenKind

namespace Double

/-- A finite number other than the negative zero. -/
def Plain (x : Float) : Prop :=
  x.isFinite = true ∧ x.toBits ≠ (-0.0 : Float).toBits

/-- A double without a sign whose text reads back is spelled. -/
theorem Plain.spelled {x : Float} (h : Plain x) : NumberText.Spelled x := by
  refine Double.spelled h.1 fun hbits => h.2 (UInt64.toNat_inj.1 ?_)
  have hzero : bits (-0.0) = 2 ^ 63 := by decide +kernel
  exact hbits.trans hzero.symm

end Double

namespace Expr

/-- Printing and parsing. A tree without negative zeros and numbers that are not finite, with words
as names and arguments for every call, is parsed from its text to itself, but for its negative
constants, which become negations. A tree that was parsed from a text with finite literals is parsed
from its own text to itself. -/
theorem parse_text :
    (∀ t : Expr Float, t.Writable Double.Plain → parse t.text = .ok t.signed) ∧
    ∀ (source : String) (tokens : List (Token Float)) (t : Expr Float),
      Token.scan source = .ok tokens →
      (∀ value, number value ∈ Token.kinds tokens → value.isFinite = true) →
      parse source = .ok t → parse t.text = .ok t := by
  have hprinted : ∀ t : Expr Float, t.Writable Double.Plain → parse t.text = .ok t.signed :=
    fun t ht => parse_text_eq (ht.mono fun _ => Double.Plain.spelled)
  refine ⟨hprinted, fun source tokens t hscan hliterals hparse => ?_⟩
  have hwritable := writable_of_parse hscan hliterals hparse
  have hbits : ∀ value : Float, value.isFinite = true ∧ Piece.OfDecimal value →
      Double.bits value < 2 ^ 63 := by
    rintro _ ⟨hfinite, d, rfl⟩
    exact Double.bits_ofDecimal_lt d hfinite
  have hsigned : t.signed = t := by
    refine signed_eq_self (hwritable.mono fun value hvalue hnegative => ?_)
    have hsign := (Double.lt_zero_iff hvalue.1).1 hnegative
    have hlt := hbits value hvalue
    omega
  have hplain : t.Writable Double.Plain := by
    refine hwritable.mono fun value hvalue => ⟨hvalue.1, fun hzero => ?_⟩
    have hlt := hbits value hvalue
    rw [Double.bits, hzero] at hlt
    exact absurd hlt (by decide +kernel)
  have hparsed := hprinted t hplain
  rwa [hsigned] at hparsed

/-- A negative constant under a power, and a literal before a name. -/
theorem parse_text_signs :
    parse (binary .pow (const (-2.0)) (symbol "x") : Expr Float).text =
        .ok (binary .pow (unary .neg (const 2.0)) (symbol "x")) ∧
      parse (binary .mul (const (Double.ofDecimal ⟨2, 0⟩)) (symbol "x") : Expr Float).text =
        .ok (binary .mul (const (Double.ofDecimal ⟨2, 0⟩)) (symbol "x")) := by
  constructor
  · have hname : Text.IsName "x" :=
      ⟨'x', [], rfl, Text.startsWord_of_isLower rfl, by simp, by decide⟩
    exact parse_text.1 _ (.binary (.const ⟨by decide +kernel, by decide +kernel⟩) (.symbol hname))
  · have hscans : Token.Scans "2 x".toList
        [number (Double.ofDecimal ⟨2, 0⟩), identifier "x"] := by
      have hdigit : NumberLexeme.Plain ['2'] := ⟨['2'], [], rfl, by simp, by simp, .inl rfl⟩
      refine @Token.scans_number Float _ _ _ ['2'] _ hdigit rfl Token.apart_blank ?_
      exact Token.scans_blank (@Token.scans_lower Float _ [] [] [] 'x' rfl Token.apart_nil
        Token.scans_nil)
    obtain ⟨tokens, hscan, hkinds⟩ := hscans.tokens
    refine parse_text.2 "2 x" tokens _ hscan (fun value hvalue => ?_) ?_
    · rw [hkinds] at hvalue
      have hvalue' : value = Double.ofDecimal ⟨2, 0⟩ := by simpa using hvalue
      rw [hvalue']
      decide +kernel
    · rw [parse_eq_ofTokens hscan, ofTokens_eq_ok_iff, hkinds]
      have hproduct := @Derives.juxtaposed Float false [number (Double.ofDecimal ⟨2, 0⟩)]
        [identifier "x"] _ _ rfl (.operand (.unsigned (.base (.number _))))
        (.unsigned (.base (.name "x")))
      exact .operand (.operand (.operand hproduct))

end Expr

end SurfaceGeometry
