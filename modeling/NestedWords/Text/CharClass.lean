/-!
# Classes of characters

A class of characters is given by the code points at which it begins and ends in turn: a
code point is inside if an odd number of these boundaries lie at or below it.
-/
namespace NestedWords.Text

/-- The characters between the boundaries. -/
structure CharClass where
  boundaries : Array Nat

namespace CharClass

/-- The number of ascending boundaries at or below `c`, found by halving the span from `low`
to `high` in which it lies. -/
def countBelow (boundaries : Array Nat) (c : Nat) : Nat → Nat → Nat → Nat
  | 0, low, _ => low
  | fuel + 1, low, high =>
    if low < high then
      let middle := (low + high) / 2
      if boundaries.getD middle 0 ≤ c then countBelow boundaries c fuel (middle + 1) high
      else countBelow boundaries c fuel low middle
    else low

def contains (k : CharClass) (c : Char) : Bool :=
  countBelow k.boundaries c.toNat k.boundaries.size 0 k.boundaries.size % 2 == 1

end CharClass

end NestedWords.Text
