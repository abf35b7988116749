import SurfaceGeometry.Number.Decimal

/-!
# Doubles and exact numbers

A finite double is a whole number times a power of two. This module takes a double apart
(`Double.parts`) and finds the double nearest to a quotient of naturals (`Double.ofRatio`) or
to a decimal (`Double.ofDecimal`), by exact integer arithmetic throughout.
-/

namespace SurfaceGeometry

namespace Double

/-- The number `(-1) ^ negative * mantissa * 2 ^ exponent`. -/
structure Parts where
  negative : Bool
  mantissa : Nat
  exponent : Int
deriving DecidableEq, Repr

/-- The exact value of a finite double. The least exponent is `-1074`, and a mantissa below
`2 ^ 52` occurs with that exponent only. -/
def parts (x : Float) : Parts :=
  let bits : Nat := x.toBits.toNat
  let fraction : Nat := bits % Nat.pow 2 52
  let biased : Nat := bits / Nat.pow 2 52 % Nat.pow 2 11
  let negative := bits / Nat.pow 2 63 % 2 == 1
  if biased = 0 then ⟨negative, fraction, -1074⟩
  else ⟨negative, Nat.pow 2 52 + fraction, (biased : Int) - 1075⟩

/-- The double `mantissa * 2 ^ exponent`, for a mantissa of at most `2 ^ 53` and an exponent of
at least `-1074`, the mantissa being at least `2 ^ 52` unless the exponent is the least one.
Numbers past the largest finite double become infinity. -/
def ofParts (mantissa : Nat) (exponent : Int) : Float :=
  let bits := (exponent + 1074).toNat * Nat.pow 2 52 + mantissa
  Float.ofBits (UInt64.ofNat (min bits (2047 * Nat.pow 2 52)))

/-- Whether `num / den` is below `2 ^ e`. -/
def ratioBelowPower (num den : Nat) (e : Int) : Bool :=
  if 0 ≤ e then num < den * Nat.pow 2 e.toNat else num * Nat.pow 2 (-e).toNat < den

/-- The double nearest to `num / den`; ties go to the even mantissa. -/
def ofRatio (num den : Nat) : Float :=
  if num = 0 then ofParts 0 (-1074)
  else
    let estimate : Int := (num.log2 : Int) - (den.log2 : Int)
    let magnitude := if ratioBelowPower num den estimate then estimate - 1 else estimate
    let exponent := max (magnitude - 52) (-1074)
    let mantissa :=
      if 0 ≤ exponent then roundRatio num (den * Nat.pow 2 exponent.toNat)
      else roundRatio (num * Nat.pow 2 (-exponent).toNat) den
    ofParts mantissa exponent

/-- The double nearest to a decimal. Decimals of more than 310 places before the point are past
every double, and those that start more than 330 places behind it are below half of the least
one, so powers of ten beyond that are never formed. -/
def ofDecimal (d : Decimal) : Float :=
  let place : Int := (digitCount d.digits : Int) + d.exponent
  if d.digits = 0 ∨ place < -330 then ofParts 0 (-1074)
  else if 310 < place then ofParts 0 973
  else if 0 ≤ d.exponent then ofRatio (d.digits * Nat.pow 10 d.exponent.toNat) 1
  else ofRatio d.digits (Nat.pow 10 (-d.exponent).toNat)

/-- The integer that a finite double is equal to, if there is one. -/
def toInt? (x : Float) : Option Int :=
  if x.isFinite then
    let p := parts x
    let signed (n : Nat) : Int := if p.negative then -(n : Int) else n
    if 0 ≤ p.exponent then some (signed (p.mantissa * Nat.pow 2 p.exponent.toNat))
    else
      let unit := Nat.pow 2 (-p.exponent).toNat
      if p.mantissa % unit = 0 then some (signed (p.mantissa / unit)) else none
  else none

end Double

end SurfaceGeometry
