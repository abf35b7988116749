import SurfaceGeometry.Scalar.Basic
import SurfaceGeometry.Number.Notation

/-!
# Doubles as scalars

The instance in which the library computes: binary64 arithmetic, the elementary functions of the
platform, and the shortest positional spelling.
-/

namespace SurfaceGeometry

instance : Scalar Float where
  natCast := Float.ofNat
  decideLt := inferInstance
  decideLe := inferInstance
  ofDecimal := Double.ofDecimal
  toInt? := Double.toInt?
  isFinite := Float.isFinite
  isNaN := Float.isNaN
  nan := 0 / 0
  pi := Double.ofDecimal ⟨3141592653589793, -15⟩
  euler := Double.ofDecimal ⟨2718281828459045, -15⟩
  tau := Double.ofDecimal ⟨6283185307179586, -15⟩
  lnTen := Double.ofDecimal ⟨2302585092994046, -15⟩
  pow := Float.pow
  atan2 := Float.atan2
  sin := Float.sin
  cos := Float.cos
  tan := Float.tan
  asin := Float.asin
  acos := Float.acos
  atan := Float.atan
  sinh := Float.sinh
  cosh := Float.cosh
  tanh := Float.tanh
  exp := Float.exp
  ln := Float.log
  log10 := Float.log10
  sqrt := Float.sqrt
  abs := Float.abs
  ceil := Float.ceil
  floor := Float.floor
  round := Float.round

instance : NumberText Float where
  positional := Double.positional

end SurfaceGeometry
