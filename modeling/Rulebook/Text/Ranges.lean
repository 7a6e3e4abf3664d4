/-! # Sets of characters given by ranges -/

namespace Rulebook.Text

/-- Whether the code point of `c` lies between two others, both included. -/
def inRange (low high : Nat) (c : Char) : Bool := low ≤ c.toNat && c.toNat ≤ high

/-- Whether the code point of `c` lies in one of the ranges, ends included. -/
def inRanges (table : List (Nat × Nat)) (c : Char) : Bool :=
  table.any fun r => inRange r.1 r.2 c

end Rulebook.Text
