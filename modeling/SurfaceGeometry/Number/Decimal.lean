/-!
# Decimal numbers

A `Decimal` is a natural number of digits times a power of ten. This module reads one from its
characters (`Decimal.ofText?`), brings it to the form without trailing zeros
(`Decimal.normalize`), and writes it in the two spellings that the library uses: positional,
which never has an exponent, and scientific, which has one digit before the point.

`roundRatio`, the natural number nearest to a quotient, is shared by everything that rounds.
-/

namespace SurfaceGeometry

/-- The natural number nearest to `num / den`; a quotient halfway between two of them goes to
the even one. -/
def roundRatio (num den : Nat) : Nat :=
  let whole := num / den
  let twice := 2 * (num % den)
  if twice < den then whole
  else if den < twice then whole + 1
  else if whole % 2 = 0 then whole else whole + 1

/-- How many decimal digits a natural number has; zero has one. -/
def digitCount (n : Nat) : Nat :=
  if n < 10 then 1 else digitCount (n / 10) + 1
termination_by n
decreasing_by omega

/-- The number `digits * 10 ^ exponent`. -/
structure Decimal where
  digits : Nat
  exponent : Int
deriving DecidableEq, Repr

namespace Decimal

/-! ## Reading -/

/-- The value of a run of digit characters in base ten. -/
def natOfDigits (cs : List Char) : Nat :=
  cs.foldl (fun n c => 10 * n + (c.toNat - '0'.toNat)) 0

/-- The value of an exponent as it stands after the mark: an optional sign and at least one
digit. -/
def exponentOfText? (cs : List Char) : Option Int :=
  let signed := match cs with
    | '+' :: ds => (false, ds)
    | '-' :: ds => (true, ds)
    | ds => (false, ds)
  if signed.2.isEmpty || !signed.2.all Char.isDigit then none
  else
    let n : Int := natOfDigits signed.2
    some (if signed.1 then -n else n)

/-- Reads digits with an optional point, at least one digit in all, and an optional exponent
after `e` or `E`. Any other text is refused. -/
def ofText? (cs : List Char) : Option Decimal :=
  let whole := cs.takeWhile Char.isDigit
  let afterWhole := cs.dropWhile Char.isDigit
  let pointed := match afterWhole with
    | '.' :: r => (r.takeWhile Char.isDigit, r.dropWhile Char.isDigit)
    | r => ([], r)
  let fraction := pointed.1
  if whole.isEmpty && fraction.isEmpty then none
  else
    let shift : Int := fraction.length
    let digits := natOfDigits (whole ++ fraction)
    match pointed.2 with
    | [] => some ⟨digits, -shift⟩
    | mark :: r =>
      if mark = 'e' ∨ mark = 'E' then
        (exponentOfText? r).map fun e => ⟨digits, e - shift⟩
      else none

/-! ## Normal form -/

/-- Moves trailing zeros of the digits into the exponent. Zero becomes `0 * 10 ^ 0`. -/
def normalize (d : Decimal) : Decimal :=
  if d.digits = 0 then ⟨0, 0⟩
  else if d.digits % 10 = 0 then normalize ⟨d.digits / 10, d.exponent + 1⟩
  else d
termination_by d.digits
decreasing_by omega

/-! ## Writing -/

/-- Writes the number without an exponent, and without a point when it is whole. Meant for
numbers in normal form. -/
def positional (d : Decimal) : String :=
  let text := (toString d.digits).toList
  if 0 ≤ d.exponent then
    String.ofList (text ++ List.replicate d.exponent.toNat '0')
  else
    let places := (-d.exponent).toNat
    if places < text.length then
      let split := text.length - places
      String.ofList (text.take split ++ '.' :: text.drop split)
    else
      String.ofList ('0' :: '.' :: List.replicate (places - text.length) '0' ++ text)

/-- Writes the number with one digit before the point, the further digits behind it, and the
power of ten after `e`. Meant for numbers in normal form. -/
def scientific (d : Decimal) : String :=
  let text := (toString d.digits).toList
  let power : Int := if d.digits = 0 then 0 else d.exponent + (text.length - 1 : Nat)
  let tail := text.drop 1
  let mantissa := text.take 1 ++ (if tail.isEmpty then [] else '.' :: tail)
  String.ofList mantissa ++ "e" ++ toString power

end Decimal

end SurfaceGeometry
