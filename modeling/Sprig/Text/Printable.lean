import Sprig.Text.Ignorable
import Sprig.Text.Invisible
import Sprig.Text.Mark

/-!
# Printable characters

The characters that quoted text writes as themselves: those with a picture of their own. ASCII is
decided without the tables.
-/

namespace Sprig.Text

/-- Whether the character stands for itself in quoted text: it has a picture that every display
shows, and it does not extend the character before it. -/
def isPrintable (c : Char) : Bool :=
  if c.toNat < 0x7f then 0x20 ≤ c.toNat
  else !inRanges invisible c && !inRanges marks c && !inRanges ignorable c

end Sprig.Text
