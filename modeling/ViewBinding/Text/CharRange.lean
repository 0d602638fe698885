/-!
# Sets of characters given by ranges

A property of characters that no formula describes is a list of inclusive ranges of code points.
-/

namespace ViewBinding.Text

/-- The characters whose code points lie between `first` and `last`, both included. -/
structure CharRange where
  first : Nat
  last : Nat
  deriving DecidableEq, Repr

/-- Whether the range holds the character. -/
def CharRange.holds (r : CharRange) (c : Char) : Bool :=
  r.first ≤ c.toNat && c.toNat ≤ r.last

/-- Whether some range of the list holds the character. -/
def inRanges (ranges : List CharRange) (c : Char) : Bool :=
  ranges.any (·.holds c)

end ViewBinding.Text
