/-!
# Ranges of character codes

Classes of characters are given as tables of code ranges.
-/

namespace Sprig.Text

/-- The codes from the first to the second number, both included. -/
abbrev CodeRange := Nat × Nat

/-- Whether the character's code lies in one of the ranges. -/
def inRanges (table : List CodeRange) (c : Char) : Bool :=
  table.any fun r => r.1 ≤ c.toNat && c.toNat ≤ r.2

end Sprig.Text
