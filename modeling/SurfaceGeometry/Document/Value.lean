/-!
# Documents

Structured data as a document holds it: null, truth values, numbers, texts, lists, and records
of named members. Whole numbers written without a point or an exponent are told apart from the
others, because only they can be counts.

Reading is strict: a value of another kind than the one asked for is refused, and so is null.
-/

namespace SurfaceGeometry

/-- A value of a document. -/
inductive Document where
  | null
  | bool (value : Bool)
  | whole (value : Int)
  | number (value : Float)
  | text (value : String)
  | list (items : List Document)
  | record (members : List (String × Document))
deriving Inhabited

namespace Document

/-- The value of a member of a record. -/
def member? (d : Document) (name : String) : Option Document :=
  match d with
  | record members => members.lookup name
  | _ => none

/-- The text, if the document is one. -/
def text? : Document → Option String
  | text value => some value
  | _ => none

/-- The members, if the document is a list. -/
def list? : Document → Option (List Document)
  | list items => some items
  | _ => none

/-- A count: a whole number that is not negative and fits into 64 bits. -/
def count? : Document → Option Nat
  | whole value => if 0 ≤ value ∧ value.toNat < UInt64.size then some value.toNat else none
  | _ => none

/-- The members with the given names, in that order: those of a record by name, others being
passed over, or the items of a list that is not longer than the names. A member that is missing
has no value. -/
def members? (names : List String) : Document → Option (List (Option Document))
  | record members => some (names.map fun name => members.lookup name)
  | list items =>
    if items.length ≤ names.length then
      some (items.map some ++ List.replicate (names.length - items.length) none)
    else none
  | _ => none

/-- The members with the given names, none of which may be missing. -/
def allMembers? (names : List String) (d : Document) : Option (List Document) :=
  (d.members? names).bind fun members => members.mapM id

end Document

end SurfaceGeometry
