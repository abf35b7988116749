import SurfaceGeometry.Number.Shortest

/-!
# Spellings of a double

The texts in which doubles leave the library. `Double.positional` is the spelling inside
expressions and messages: the shortest digits that read back, without an exponent and without a
point for whole numbers. `Double.scientific` is the spelling of results: the shortest digits, or
a given number of significant digits, with a power of ten. The sign of zero is kept; a number
that is not finite has a name instead of digits.
-/

namespace SurfaceGeometry

namespace Double

/-- The name of a double that is not finite. A number without value has no sign. -/
def nonFiniteName (x : Float) : String :=
  if x.isNaN then "NaN" else if x < 0 then "-inf" else "inf"

/-- Spells a finite double: the sign, then the decimal chosen for its magnitude. -/
def spellWith (choose : Nat → Int → Decimal) (spell : Decimal → String) (x : Float) : String :=
  if x.isFinite then
    let p := parts x
    let d := if p.mantissa = 0 then ⟨0, 0⟩ else choose p.mantissa p.exponent
    (if p.negative then "-" else "") ++ spell d
  else nonFiniteName x

/-- Shortest digits, positional: `0.5`, `-2`, `1000000000000000000000`. -/
def positional : Float → String :=
  spellWith shortest Decimal.positional

/-- Shortest digits with a power of ten: `5e-1`, `-2e0`, `1e21`. -/
def scientific : Float → String :=
  spellWith shortest Decimal.scientific

/-- At most `count` significant digits with a power of ten: `3.33e-1`. -/
def significant (count : Nat) : Float → String :=
  spellWith (rounded count) Decimal.scientific

end Double

end SurfaceGeometry
