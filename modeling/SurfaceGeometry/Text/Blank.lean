/-!
# Blank characters

The characters with the Unicode property White_Space, and the search in a table of ranges that
the tables of letters and numerals share.
-/

namespace SurfaceGeometry

namespace Text

/-- Whether a character lies in one of the ranges, whose ends belong to them. -/
def inRanges (ranges : List (Nat × Nat)) (c : Char) : Bool :=
  ranges.any fun range => range.1 ≤ c.toNat && c.toNat ≤ range.2

/-- The ranges of the Unicode property White_Space. -/
def blankRanges : List (Nat × Nat) := [
  (0x9, 0xd), (0x20, 0x20), (0x85, 0x85), (0xa0, 0xa0), (0x1680, 0x1680), (0x2000, 0x200a),
  (0x2028, 0x2029), (0x202f, 0x202f), (0x205f, 0x205f), (0x3000, 0x3000)]

/-- Whether a character only separates tokens. -/
def isBlank (c : Char) : Bool :=
  inRanges blankRanges c

end Text

end SurfaceGeometry
