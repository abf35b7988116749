import SurfaceGeometry.Document.Quoted
import SurfaceGeometry.Document.Value
import SurfaceGeometry.Number.Double

/-!
# Reading documents

The value that a written document stands for: null, truth values, numbers, quoted texts, lists in
square and records in curly brackets, with blanks between them. Of two members of a record with
one name the last one counts.
-/

namespace SurfaceGeometry

namespace Document

/-- Whether a character can stand between the parts of a document. -/
def isGap (c : Char) : Bool := c == ' ' || c == '\t' || c == '\n' || c == '\r'

/-- Whether a character can stand in a number. -/
def inNumber (c : Char) : Bool :=
  c.isDigit || c == '-' || c == '+' || c == '.' || c == 'e' || c == 'E'

/-- A number. One with digits only is whole, apart from the negative zero. -/
def ofNumber? (cs : List Char) : Option Document :=
  let signed := match cs with
    | '-' :: rest => (true, rest)
    | rest => (false, rest)
  if signed.2.all Char.isDigit && !signed.2.isEmpty then
    let n : Int := Decimal.natOfDigits signed.2
    some (if !signed.1 then whole n else if n = 0 then number (-0.0) else whole (-n))
  else
    (Decimal.ofText? signed.2).map fun d =>
      let magnitude := Double.ofDecimal d
      number (if signed.1 then -magnitude else magnitude)

/-- Adds a member, in the place of an earlier one of its name. -/
def addMember (members : List (String × Document)) (name : String) (value : Document) :
    List (String × Document) :=
  members.filter (·.1 != name) ++ [(name, value)]

/-- What follows a character that has to be the next one behind gaps. -/
def expect? (c : Char) (cs : List Char) : Option (List Char) :=
  match cs.dropWhile isGap with
  | next :: rest => if next = c then some rest else none
  | [] => none

mutual

/-- Reads a value; `count` bounds the number of nested readings. -/
def readValue : (count : Nat) → List Char → Option (Document × List Char)
  | 0, _ => none
  | count + 1, cs =>
    match cs.dropWhile isGap with
    | 'n' :: 'u' :: 'l' :: 'l' :: rest => some (null, rest)
    | 't' :: 'r' :: 'u' :: 'e' :: rest => some (bool true, rest)
    | 'f' :: 'a' :: 'l' :: 's' :: 'e' :: rest => some (bool false, rest)
    | '\x22' :: rest => (Quoted.decode? rest).map fun read => (text read.1, read.2)
    | '[' :: rest =>
      match rest.dropWhile isGap with
      | ']' :: rest => some (list [], rest)
      | rest => readItems count [] rest
    | '\x7b' :: rest =>
      match rest.dropWhile isGap with
      | '\x7d' :: rest => some (record [], rest)
      | rest => readMembers count [] rest
    | rest => (ofNumber? (rest.takeWhile inNumber)).map fun d => (d, rest.dropWhile inNumber)

/-- Reads items and the closing bracket behind them; the items before them are given, the last
one first. -/
def readItems : (count : Nat) → List Document → List Char → Option (Document × List Char)
  | 0, _, _ => none
  | count + 1, before, cs => do
    let (item, rest) ← readValue count cs
    match rest.dropWhile isGap with
    | ',' :: rest => readItems count (item :: before) rest
    | ']' :: rest => some (list (item :: before).reverse, rest)
    | _ => none

/-- Reads members and the closing bracket behind them; the members before them are given. -/
def readMembers : (count : Nat) → List (String × Document) → List Char →
    Option (Document × List Char)
  | 0, _, _ => none
  | count + 1, before, cs => do
    let (name, rest) ← Quoted.decode? (← expect? '\x22' cs)
    let (value, rest) ← readValue count (← expect? ':' rest)
    let members := addMember before name value
    match rest.dropWhile isGap with
    | ',' :: rest => readMembers count members rest
    | '\x7d' :: rest => some (record members, rest)
    | _ => none

end

/-- The document that a text stands for. -/
def ofText? (text : String) : Option Document :=
  let cs := text.toList
  match readValue (2 * cs.length + 1) cs with
  | some (d, rest) => if rest.all isGap then some d else none
  | none => none

end Document

end SurfaceGeometry
