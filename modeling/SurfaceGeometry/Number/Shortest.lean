import SurfaceGeometry.Number.Double

/-!
# Decimal digits of a double

Two ways to choose decimal digits for a finite double other than zero: the fewest digits that
read back as the same double (`Double.shortest`), and a given number of significant digits of
the exact value (`Double.rounded`). Both work on the exact value as a quotient of naturals and
look at the decimal grid whose unit is a power of ten.
-/

namespace SurfaceGeometry

namespace Double

/-- A quotient `num / den` of naturals, held against multiples of powers of ten. -/
structure Ratio where
  num : Nat
  den : Nat

namespace Ratio

/-- The quotient divided by `10 ^ e`. -/
def shift (r : Ratio) (e : Int) : Ratio :=
  if 0 ≤ e then ⟨r.num, r.den * Nat.pow 10 e.toNat⟩ else ⟨r.num * Nat.pow 10 (-e).toNat, r.den⟩

/-- The quotient `mantissa * 2 ^ exponent`. -/
def ofBinary (mantissa : Nat) (exponent : Int) : Ratio :=
  if 0 ≤ exponent then ⟨mantissa * Nat.pow 2 exponent.toNat, 1⟩
  else ⟨mantissa, Nat.pow 2 (-exponent).toNat⟩

/-- The `p` with `10 ^ p ≤ r < 10 ^ (p + 1)`, for a quotient other than zero that lies between
`2 ^ log` and `2 ^ (log + 1)`: the estimate from `log` is `p` or one less. -/
def decade (r : Ratio) (log : Int) : Int :=
  let estimate := (log * 30103).fdiv 100000
  let above := r.shift (estimate + 1)
  if above.den ≤ above.num then estimate + 1 else estimate

end Ratio

/-- The power of ten of the first digit of `mantissa * 2 ^ exponent`. -/
def decade (mantissa : Nat) (exponent : Int) : Int :=
  (Ratio.ofBinary mantissa exponent).decade (mantissa.log2 + exponent)

/-- The reals that round to a double, in quarters of the unit of its mantissa: `value` is the
double itself, `low` and `high` are the ends of the interval, which belong to it when `closed`. -/
structure Neighbourhood where
  value : Nat
  low : Nat
  high : Nat
  closed : Bool

/-- Half a unit to each side, but a quarter below a power of two, where the doubles are twice as
dense; the ends round to the even mantissa. -/
def neighbourhood (mantissa : Nat) (exponent : Int) : Neighbourhood where
  value := 4 * mantissa
  low := if mantissa = Nat.pow 2 52 ∧ -1074 < exponent then 4 * mantissa - 1 else 4 * mantissa - 2
  high := 4 * mantissa + 2
  closed := mantissa % 2 == 0

/-- The best decimal of unit `10 ^ grid` that reads back as the double, if that grid has one:
of the two multiples around the value the nearer, and the greater where they are equally near. -/
def onGrid? (mantissa : Nat) (exponent grid : Int) : Option Decimal :=
  let n := neighbourhood mantissa exponent
  let unit := (Ratio.ofBinary 1 (exponent - 2)).shift grid
  let value := n.value * unit.num
  let low := n.low * unit.num
  let high := n.high * unit.num
  let inside (k : Nat) : Bool :=
    let point := k * unit.den
    if n.closed then low ≤ point && point ≤ high else low < point && point < high
  let below := value / unit.den
  let nearerBelow := 2 * value < (2 * below + 1) * unit.den
  match inside below, inside (below + 1) with
  | true, true => some ⟨if nearerBelow then below else below + 1, grid⟩
  | true, false => some ⟨below, grid⟩
  | false, true => some ⟨below + 1, grid⟩
  | false, false => none

/-- The decimal with the fewest digits that reads back as `mantissa * 2 ^ exponent`, and among
those the nearest. Seventeen digits always suffice; the exact value stands behind that. -/
def shortest (mantissa : Nat) (exponent : Int) : Decimal :=
  let top := decade mantissa exponent
  let exact : Decimal :=
    if 0 ≤ exponent then ⟨mantissa * Nat.pow 2 exponent.toNat, 0⟩
    else ⟨mantissa * Nat.pow 5 (-exponent).toNat, exponent⟩
  let onCoarsest := (List.range 17).findSome? fun (i : Nat) => onGrid? mantissa exponent (top - i)
  (onCoarsest.getD exact).normalize

/-- `mantissa * 2 ^ exponent` rounded to `count` significant digits, ties to the even digit. -/
def rounded (count : Nat) (mantissa : Nat) (exponent : Int) : Decimal :=
  let grid := decade mantissa exponent + 1 - count
  let r := (Ratio.ofBinary mantissa exponent).shift grid
  Decimal.normalize ⟨roundRatio r.num r.den, grid⟩

end Double

end SurfaceGeometry
