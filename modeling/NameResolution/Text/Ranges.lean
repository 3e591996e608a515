/-!
# Sets of characters given by ranges

Properties of characters come as tables of code point ranges, and a character has the property
when its code point lies in one of them.
-/

namespace NameResolution.Text

/-- Ranges of code points, both ends included. -/
abbrev Ranges := List (Nat × Nat)

/-- Whether the code point of `c` lies in one of the ranges. -/
def Ranges.contains (ranges : Ranges) (c : Char) : Bool :=
  ranges.any fun r => r.1 ≤ c.toNat && c.toNat ≤ r.2

end NameResolution.Text
