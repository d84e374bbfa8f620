/-!
# Sets of characters as ranges

A class of characters is a list of closed ranges of code points. This module holds the membership
test; the classes themselves stand in the modules named for them.
-/

set_option autoImplicit false

namespace MustacheMarkup.Text

/-- A closed range of code points. -/
structure Range where
  /-- the first code point of the range -/
  first : Nat
  /-- the last code point of the range -/
  last : Nat
deriving Repr, DecidableEq

/-- Whether a code point lies in a range. -/
def Range.holds (r : Range) (n : Nat) : Bool :=
  r.first ≤ n && n ≤ r.last

/-- Whether a character lies in one of the ranges. -/
def memRanges (rs : List Range) (c : Char) : Bool :=
  rs.any fun r => r.holds c.toNat

/-- A list of ranges that are not empty, ascend and do not touch. -/
def Range.ascending : List Range → Bool
  | [] => true
  | [r] => r.first ≤ r.last
  | r :: s :: rest => r.first ≤ r.last && r.last + 1 < s.first && Range.ascending (s :: rest)

/-- How many code points the ranges hold together. -/
def Range.total (rs : List Range) : Nat :=
  rs.foldr (fun r n => r.last + 1 - r.first + n) 0

end MustacheMarkup.Text
