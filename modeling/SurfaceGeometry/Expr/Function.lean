import SurfaceGeometry.Scalar.Basic

/-!
# Named functions and constants

The table of functions that an expression can call: which names stand for a function of one
argument (`UnaryFunction.ofName?`) or of two (`BinaryFunction.ofName?`), and what the function
computes. A name can stand for both, as `log` does. `Scalar.named?` is the table of the constants
that have a name.
-/

namespace SurfaceGeometry

/-! ## Functions of one argument -/

/-- The functions of one argument. -/
inductive UnaryFunction where
  | sin | cos | tan | asin | acos | atan
  | sinh | cosh | tanh
  | exp | ln | log10 | sqrt
  | abs | sign | ceil | floor | round
deriving DecidableEq, Repr

namespace UnaryFunction

/-- The function that a name stands for when it is called with one argument. The natural
logarithm has two names. -/
def ofName? (name : String) : Option UnaryFunction :=
  match name with
  | "sin" => some sin
  | "cos" => some cos
  | "tan" => some tan
  | "asin" => some asin
  | "acos" => some acos
  | "atan" => some atan
  | "sinh" => some sinh
  | "cosh" => some cosh
  | "tanh" => some tanh
  | "exp" => some exp
  | "log" => some ln
  | "ln" => some ln
  | "log10" => some log10
  | "sqrt" => some sqrt
  | "abs" => some abs
  | "sign" => some sign
  | "ceil" => some ceil
  | "floor" => some floor
  | "round" => some round
  | _ => none

/-- The name under which the function is listed in compiled code. -/
def label : UnaryFunction → String
  | sin => "sin"
  | cos => "cos"
  | tan => "tan"
  | asin => "asin"
  | acos => "acos"
  | atan => "atan"
  | sinh => "sinh"
  | cosh => "cosh"
  | tanh => "tanh"
  | exp => "exp"
  | ln => "ln"
  | log10 => "log10"
  | sqrt => "sqrt"
  | abs => "abs"
  | sign => "sign"
  | ceil => "ceil"
  | floor => "floor"
  | round => "round"

/-- The value of the function. -/
def apply {α : Type} [Scalar α] : UnaryFunction → α → α
  | sin => Scalar.sin
  | cos => Scalar.cos
  | tan => Scalar.tan
  | asin => Scalar.asin
  | acos => Scalar.acos
  | atan => Scalar.atan
  | sinh => Scalar.sinh
  | cosh => Scalar.cosh
  | tanh => Scalar.tanh
  | exp => Scalar.exp
  | ln => Scalar.ln
  | log10 => Scalar.log10
  | sqrt => Scalar.sqrt
  | abs => Scalar.abs
  | sign => Scalar.sign
  | ceil => Scalar.ceil
  | floor => Scalar.floor
  | round => Scalar.round

end UnaryFunction

/-! ## Functions of two arguments -/

/-- The functions of two arguments. -/
inductive BinaryFunction where
  | atan2
  /-- The logarithm of the first argument to the base of the second. -/
  | log
  | max
  | min
deriving DecidableEq, Repr

namespace BinaryFunction

/-- The function that a name stands for when it is called with two arguments. -/
def ofName? (name : String) : Option BinaryFunction :=
  match name with
  | "atan2" => some atan2
  | "log" => some log
  | "max" => some max
  | "min" => some min
  | _ => none

/-- The name under which the function is listed in compiled code. -/
def label : BinaryFunction → String
  | atan2 => "atan2"
  | log => "log"
  | max => "max"
  | min => "min"

/-- The value of the function. -/
def apply {α : Type} [Scalar α] : BinaryFunction → α → α → α
  | atan2, a, b => Scalar.atan2 a b
  | log, a, b => Scalar.ln a / Scalar.ln b
  | max, a, b => Scalar.greater a b
  | min, a, b => Scalar.lesser a b

end BinaryFunction

/-! ## Arities -/

/-- The numbers of arguments with which a known name can be called. -/
inductive Arities where
  | one
  | two
  | oneOrTwo
deriving DecidableEq, Repr

namespace Arities

/-- The arities of a name, if it is the name of a function at all. -/
def ofName? (name : String) : Option Arities :=
  match (UnaryFunction.ofName? name).isSome, (BinaryFunction.ofName? name).isSome with
  | true, true => some oneOrTwo
  | true, false => some one
  | false, true => some two
  | false, false => none

/-- How a message counts the arguments that a function takes. -/
def text : Arities → String
  | one => "1"
  | two => "2"
  | oneOrTwo => "1 or 2"

end Arities

/-! ## Constants -/

namespace Scalar

/-- The value of a named constant. The names are reserved: no parameter may have one. -/
def named? {α : Type} [Scalar α] (name : String) : Option α :=
  match name with
  | "pi" => some pi
  | "π" => some pi
  | "e" => some euler
  | "tau" => some tau
  | "τ" => some tau
  | _ => none

end Scalar

end SurfaceGeometry
