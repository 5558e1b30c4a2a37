/-!
# Lines of a source text

A text is cut into lines after each line end; a carriage return with a line feed after it is one
line end. Each line keeps its line end, so the lines put together are the text. Here positions count
characters.
-/

namespace Sprig.Report

/-- The characters that end a line: line feed, vertical tab, form feed, carriage return, next line,
and the separators of lines and of paragraphs. -/
def isLineEnd (c : Char) : Bool :=
  c == '\n' || c == '\x0b' || c == '\x0c' || c == '\r' || c == '\u0085' ||
    c == '\u2028' || c == '\u2029'

/-- Cuts a text after each line end. -/
def cutLines : List Char → List (List Char)
  | [] => []
  | '\r' :: '\n' :: cs => ['\r', '\n'] :: cutLines cs
  | c :: cs =>
    if isLineEnd c then [c] :: cutLines cs
    else
      match cutLines cs with
      | [] => [[c]]
      | line :: lines => (c :: line) :: lines

/-- A line of a source text. -/
structure Line where
  /-- The number of characters before it. -/
  offset : Nat
  /-- Its characters, with the line end. -/
  chars : List Char

/-- The offset just after a line. -/
def Line.stop (l : Line) : Nat :=
  l.offset + l.chars.length

/-- Lines of which the first starts at the given offset. -/
def place (offset : Nat) : List (List Char) → List Line
  | [] => []
  | line :: lines => ⟨offset, line⟩ :: place (offset + line.length) lines

/-- The lines of a text. A text without characters is one line without characters. -/
def linesOf (text : List Char) : List Line :=
  match cutLines text with
  | [] => [⟨0, []⟩]
  | lines => place 0 lines

/-- The index of the line that holds a position: the last one that does not start after it. -/
def lineIndex (lines : List Line) (position : Nat) : Nat :=
  (lines.takeWhile fun l => l.offset ≤ position).length - 1

theorem flatten_cutLines (text : List Char) : (cutLines text).flatten = text := by
  fun_induction cutLines text with
  | case1 => rfl
  | case2 cs ih => simp [ih]
  | case3 c cs _ _ ih => simp [ih]
  | case4 c cs _ _ h ih => simp [h] at ih; simp [← ih]
  | case5 c cs _ _ line lines h ih => simp [h] at ih; simp [← ih]

end Sprig.Report
