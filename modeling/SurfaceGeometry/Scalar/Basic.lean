import SurfaceGeometry.Number.Decimal

/-!
# Scalars

The arithmetic that expressions, splines, steppers and surfaces are written over. A `Scalar`
type has the four operations, a literal for every natural and every decimal, comparisons that
can be decided, and the elementary functions; no law is asked of them. Doubles are one instance,
and everything stated for an arbitrary `Scalar` holds of exact arithmetic too.

Operations that are made from the others are here as well: the integer power by repeated
squaring, the greater and the lesser of two numbers, and the sign.
-/

namespace SurfaceGeometry

/-- The operations of a number type. `==` is the equality of numbers, which need not be
reflexive; `nan` stands for a number without value. -/
class Scalar (α : Type) extends
    Add α, Sub α, Mul α, Div α, Neg α, NatCast α, BEq α, LT α, LE α where
  decideLt : DecidableLT α
  decideLe : DecidableLE α
  /-- The number nearest to a decimal. -/
  ofDecimal : Decimal → α
  /-- The integer that a number is equal to, if there is one. -/
  toInt? : α → Option Int
  isFinite : α → Bool
  isNaN : α → Bool
  nan : α
  pi : α
  /-- The base of the natural logarithm. -/
  euler : α
  tau : α
  /-- The natural logarithm of ten. -/
  lnTen : α
  pow : α → α → α
  atan2 : α → α → α
  sin : α → α
  cos : α → α
  tan : α → α
  asin : α → α
  acos : α → α
  atan : α → α
  sinh : α → α
  cosh : α → α
  tanh : α → α
  exp : α → α
  ln : α → α
  log10 : α → α
  sqrt : α → α
  abs : α → α
  ceil : α → α
  floor : α → α
  /-- The nearest whole number, halves away from zero. -/
  round : α → α

/-- Numbers are spelled without an exponent, as inside expressions and messages. -/
class NumberText (α : Type) where
  positional : α → String

namespace Scalar

variable {α : Type} [Scalar α]

instance (priority := low) instDecidableLT : DecidableLT α := Scalar.decideLt

instance (priority := low) instDecidableLE : DecidableLE α := Scalar.decideLe

instance (priority := low) instOfNat (n : Nat) : OfNat α n := ⟨NatCast.natCast n⟩

instance (priority := low) instOfScientific : OfScientific α where
  ofScientific digits negative exponent :=
    Scalar.ofDecimal ⟨digits, if negative then -(exponent : Int) else exponent⟩

/-! ## Powers -/

/-- Multiplies `result` by `base ^ n`, reading `n` from its lowest binary digit; `count` bounds
the number of digits. -/
def squarings : (count : Nat) → (result base : α) → (n : Nat) → α
  | 0, result, _, _ => result
  | count + 1, result, base, n =>
    let next := if n % 2 = 1 then result * base else result
    if n / 2 = 0 then next else squarings count next (base * base) (n / 2)

/-- The power with an integer exponent, by repeated squaring; a negative exponent takes the
reciprocal of the power. -/
def powInt (a : α) (n : Int) : α :=
  let power := squarings (n.natAbs.log2 + 1) (1 : α) a n.natAbs
  if n < 0 then 1 / power else power

/-! ## Comparisons -/

/-- The greater of two numbers; a number without value gives way to the other. -/
def greater (a b : α) : α :=
  if isNaN a then b else if isNaN b then a else if a < b then b else a

/-- The lesser of two numbers; a number without value gives way to the other. -/
def lesser (a b : α) : α :=
  if isNaN a then b else if isNaN b then a else if b < a then b else a

/-- One, minus one, or the number itself where it is neither positive nor negative. -/
def sign (a : α) : α :=
  if a > 0 then 1 else if a < 0 then -1 else a

/-! ## Truth -/

/-- Every number but zero counts as true. -/
def truthy (a : α) : Bool :=
  a != 0

/-- One for true and zero for false. -/
def ofBool (b : Bool) : α :=
  if b then 1 else 0

end Scalar

end SurfaceGeometry
