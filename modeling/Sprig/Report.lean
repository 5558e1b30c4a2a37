import Sprig.Report.Line
import Sprig.SyntaxError
import Sprig.Text.Width

/-!
# Reports

A syntax error shown in its source text: a heading, the place, the lines that the error touches with
the error marked and labelled, in colour. The span of the error is taken as a range of character
positions. As spans count bytes, the place is the right one if there are only ASCII characters
before it, and further on otherwise; if the range leaves the text, the heading is all there is.
-/

namespace Sprig.Report

/-! ## Ink -/

/-- The colours of a report, by what they are for. -/
inductive Ink where
  | heading
  | margin
  /-- The margin beside lines that show no source text. -/
  | faint
  | text
  | mark

/-- The number of the colour on a terminal. -/
def Ink.code : Ink → String
  | heading => "31"
  | margin => "38;5;246"
  | faint => "38;5;240"
  | text => "38;5;249"
  | mark => "91"

/-- Text in a colour. -/
def paint (ink : Ink) (s : String) : String :=
  "\x1b[" ++ ink.code ++ "m" ++ s ++ "\x1b[0m"

/-- The same text a number of times. -/
def times (n : Nat) (s : String) : String :=
  String.join (List.replicate n s)

/-! ## What is marked -/

/-- A range of positions in a text, to be marked. -/
structure Region where
  start : Nat
  stop : Nat

namespace Region

/-- The span of an error, taken as a range of character positions. -/
def ofSpan (s : Span) : Region :=
  ⟨s.start.toNat, s.stop.toNat⟩

/-- The last position of the region, or its start if it is empty. -/
def last (r : Region) : Nat :=
  max (r.stop - 1) r.start

def contains (r : Region) (position : Nat) : Bool :=
  r.start ≤ position && position < r.stop

/-- Whether the region can be shown in a text with this number of characters. -/
def fits (r : Region) (length : Nat) : Bool :=
  r.start ≤ length && r.last ≤ length

end Region

/-- A line and a column, both counted from 1. -/
structure Location where
  line : Nat
  column : Nat

/-- Where the region starts in a text, if it can be shown there. -/
def location? (text : List Char) (r : Region) : Option Location :=
  if r.fits text.length then
    let lines := linesOf text
    let i := lineIndex lines r.start
    some ⟨i + 1, r.start - (lines[i]?.elim 0 Line.offset) + 1⟩
  else none

/-! ## One line of the source -/

/-- A line of the source without the white space at its end. -/
def Line.visible (l : Line) : List Char :=
  (l.chars.reverse.dropWhile Text.isSpace).reverse

/-- The visible characters of a line from column `col` on, those of the region in the colour of the
mark. White space is written as spaces. -/
def Line.paintFrom (l : Line) (r : Region) (col : Nat) : List Char → String
  | [] => ""
  | c :: cs =>
    let ink := if r.contains (l.offset + col) then Ink.mark else Ink.text
    let cell :=
      if Text.isSpace c then times (Text.width c col) (paint ink " ")
      else paint ink (String.singleton c)
    cell ++ l.paintFrom r (col + 1) cs

/-- A line of the source with the region marked. -/
def Line.body (l : Line) (r : Region) : String :=
  l.paintFrom r 0 l.visible

/-- What is written under a character: one text for its first column and one for each further
column. -/
structure Cell where
  head : String
  tail : String

/-- A cell that leaves its columns empty. -/
def Cell.empty : Cell :=
  ⟨" ", " "⟩

/-- A cell in the colour of the mark. -/
def Cell.mark (head tail : String) : Cell :=
  ⟨paint .mark head, paint .mark tail⟩

/-- A cell of a horizontal rule. -/
def Cell.rule : Cell :=
  .mark "─" "─"

/-- A cell as wide as the character above it. -/
def Cell.fill (cell : Cell) (width : Nat) : String :=
  (if width > 0 then cell.head else "") ++ times (width - 1) cell.tail

/-- The cells under the first `n` columns of a line; after its last visible character each is one
column wide. -/
def Line.cells (l : Line) (n : Nat) (cellAt : Nat → Cell) : String :=
  let text := l.visible
  String.join <| (List.range n).map fun col =>
    (cellAt col).fill (text[col]?.elim 1 fun c => Text.width c col)

/-! ## The frame -/

/-- What all lines of a report share. -/
structure Frame where
  region : Region
  /-- The number of columns for line numbers. -/
  numberWidth : Nat
  label : String

namespace Frame

variable (f : Frame)

/-- The margin with the number of a source line. -/
def numbered (number : Nat) : String :=
  let digits := Nat.repr number
  " " ++ paint .margin (times (f.numberWidth - digits.length) " " ++ digits ++ " │") ++ " "

/-- The margin beside marks and labels. -/
def unnumbered : String :=
  " " ++ paint .faint (times (f.numberWidth + 1) " " ++ "│") ++ " "

/-- The margin beside lines that are left out. -/
def elided : String :=
  " " ++ paint .faint (times (f.numberWidth + 1) " " ++ "┆") ++ " "

/-- The line that holds the whole region: the line itself, the mark under it and the label under the
middle of the mark. -/
def single (number : Nat) (l : Line) : String :=
  let r := f.region
  if l.offset ≤ r.start && r.stop ≤ l.stop then
    let middle := max ((r.start + r.stop) / 2) r.start - l.offset
    let n := r.stop - l.offset + 2
    let markAt (col : Nat) : Cell :=
      let inside := r.contains (l.offset + col)
      if col = middle then if inside then .mark "┬" "─" else .mark "│" " "
      else if inside then .rule
      else .empty
    let arrowAt (col : Nat) : Cell :=
      if col = middle then .mark "╰" "─" else if middle < col then .rule else .empty
    f.numbered number ++ l.body r ++ "\n" ++
      f.unnumbered ++ l.cells n markAt ++ "\n" ++
      f.unnumbered ++ l.cells n arrowAt ++ " " ++ f.label ++ "\n"
  else f.unnumbered ++ "\n"

/-- The lines of a region that takes more than one: the first and the last are shown, and the label
stands under the last. Of the lines between them one sign is left, which `eliding` says is already
there. -/
def several (eliding : Bool) (number : Nat) : List Line → String
  | [] => ""
  | l :: ls =>
    let r := f.region
    let isFirst := l.offset ≤ r.start && r.start < l.stop
    let isLast := l.offset ≤ r.last && r.last < l.stop
    if isFirst || isLast then
      let corner := if isFirst then "╭" else "├"
      let n := l.chars.length + 2
      let shown :=
        f.numbered number ++ paint .mark corner ++ paint .mark "─" ++ paint .mark "▶" ++
          paint .mark " " ++ l.body r ++ "\n"
      let labelled :=
        if isLast then
          f.unnumbered ++ paint .mark "│" ++ times 3 " " ++ l.cells n (fun _ => .empty) ++ "\n" ++
            f.unnumbered ++ paint .mark "╰" ++ times 3 (paint .mark "─") ++
            l.cells n (fun _ => .rule) ++ " " ++ f.label ++ "\n"
        else ""
      shown ++ labelled ++ several false (number + 1) ls
    else
      let sign := if eliding then "" else f.elided ++ paint .mark "┆" ++ times 3 " " ++ "\n"
      sign ++ several true (number + 1) ls

/-- The place of the error and the line under it. -/
def place (path : String) (loc : Location) : String :=
  let indent := times (f.numberWidth + 2) " "
  indent ++ paint .margin "╭" ++ paint .margin "─" ++ paint .margin "[" ++
    " " ++ path ++ ":" ++ Nat.repr loc.line ++ ":" ++ Nat.repr loc.column ++ " " ++
    paint .margin "]" ++ "\n" ++
    indent ++ paint .margin "│" ++ "\n"

/-- The line that closes a report. -/
def footer : String :=
  paint .margin (times (f.numberWidth + 2) "─" ++ "╯") ++ "\n"

end Frame

/-- The first line of a report. -/
def heading (e : SyntaxError) : String :=
  paint .heading ("[" ++ e.code ++ "] Error:") ++ " " ++ e.message ++ "\n"

/-- The report of an error in the text of a file. -/
def render (path source : String) (e : SyntaxError) : String :=
  let text := source.toList
  let region := Region.ofSpan e.span
  match location? text region with
  | none => heading e
  | some loc =>
    let lines := linesOf text
    let first := lineIndex lines region.start
    let final := lineIndex lines region.last
    let frame : Frame := ⟨region, (Nat.repr (final + 1)).length, e.cause.label⟩
    let shown := (lines.drop first).take (final + 1 - first)
    let excerpt :=
      match shown with
      | [l] => frame.single (first + 1) l
      | ls => frame.several false (first + 1) ls
    heading e ++ frame.place path loc ++ excerpt ++ frame.footer

/-- The reports of all errors, with an empty line between two of them. -/
def renderAll (path source : String) (errors : List SyntaxError) : String :=
  "\n".intercalate (errors.map (render path source))

end Sprig.Report
