import Sprig.Text.Ignorable
import Sprig.Text.Mark
import Sprig.Text.Wide

/-!
# Column widths

White space, and how many columns a character takes where it is displayed.
-/

namespace Sprig.Text

/-- Whether the character is white space: the ASCII controls from tab to carriage return, the next
line control, and the spaces and separators of every script. -/
def isSpace (c : Char) : Bool :=
  inRanges [(0x9, 0xd), (0x20, 0x20), (0x85, 0x85), (0xa0, 0xa0), (0x1680, 0x1680),
    (0x2000, 0x200a), (0x2028, 0x2029), (0x202f, 0x202f), (0x205f, 0x205f), (0x3000, 0x3000)] c

/-- The characters that are drawn within the space of a neighbour though they are not marks: the
Arabic and Syriac signs that enclose or span what follows them, the caret of Devanagari, and the
vowels and final consonants of a Hangul syllable written in parts. -/
def merged : List CodeRange :=
  [(0x605, 0x605), (0x70f, 0x70f), (0x890, 0x891), (0x8e2, 0x8e2), (0x1160, 0x11ff),
   (0xa8fa, 0xa8fa), (0xd7b0, 0xd7c6), (0xd7cb, 0xd7fb)]

/-- The number of columns that a character takes wherever it stands. ASCII is decided without the
tables. The filler for the first consonant of a Hangul syllable is as wide as the syllable, and two
Khmer letters are written as the two or three letters that they stand for. -/
def columns (c : Char) : Nat :=
  if c.toNat < 0x7f then 1
  else if c = '\u17d8' then 3
  else if c = '\u115f' ∨ c = '\u17a4' then 2
  else if inRanges marks c || inRanges ignorable c || inRanges merged c then 0
  else if inRanges wide c then 2
  else 1

/-- The number of columns from one tab stop to the next. -/
def tabStop : Nat := 4

/-- The number of columns that a character takes if it is the one at position `col` of its line. A
tab fills the line up to the next tab stop, and any other white space takes one column. -/
def width (c : Char) (col : Nat) : Nat :=
  if c = '\t' then (col / tabStop + 1) * tabStop - col
  else if isSpace c then 1
  else columns c

end Sprig.Text
