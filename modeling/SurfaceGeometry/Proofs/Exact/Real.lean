import SurfaceGeometry.Proofs.Exact.Evaluation

/-!
# The real numbers as scalars

Exact arithmetic over the reals, with the elementary functions of analysis, and where these are
defined (`Definedness.real`).
-/

namespace SurfaceGeometry

noncomputable instance : ElementaryFunctions ℝ where
  pow a b := a ^ b
  atan2 a b := Complex.arg ⟨b, a⟩
  sin := Real.sin
  cos := Real.cos
  tan := Real.tan
  asin := Real.arcsin
  acos := Real.arccos
  atan := Real.arctan
  sinh := Real.sinh
  cosh := Real.cosh
  tanh := Real.tanh
  exp := Real.exp
  ln := Real.log
  sqrt := Real.sqrt
  ceil a := ⌈a⌉
  floor a := ⌊a⌋
  round a := if 0 ≤ a then ⌊a + 1 / 2⌋ else ⌈a - 1 / 2⌉
  pow_intCast := Real.rpow_intCast

/-- Where the functions of the real numbers are defined. A power of a negative number needs a whole
exponent, and one of zero an exponent that is not negative. -/
def Definedness.real : Definedness ℝ where
  unary
    | .tan, a => Real.cos a ≠ 0
    | .asin, a | .acos, a => -1 ≤ a ∧ a ≤ 1
    | .ln, a | .log10, a => 0 < a
    | .sqrt, a => 0 ≤ a
    | _, _ => True
  binary
    | .log, a, b => 0 < a ∧ 0 < b ∧ b ≠ 1
    | _, _, _ => True
  pow a b := 0 < a ∨ (a = 0 ∧ 0 ≤ b) ∨ ∃ n : ℤ, a ≠ 0 ∧ b = n

end SurfaceGeometry
