import Sprig.Text.Quoted

/-!
# Structure dumps

A dump is the shape of a piece of data: constructor names, field names, strings and lists. It is
written in two layouts, on one line (`Dump.inline`) and with one item a line, indented by four
spaces a level (`Dump.indented`). Every type of the library that can be dumped has one function into
`Dump`; the two layouts are defined here and nowhere else.
-/

namespace Sprig

/-- The shape of a piece of data. -/
inductive Dump where
  /-- A bare word: a number, a truth value or the name of a constructor without arguments. -/
  | word (text : String)
  /-- A string, which is written in quotes. -/
  | string (content : String)
  /-- A constructor with positional arguments. -/
  | node (name : String) (items : List Dump)
  /-- A constructor with named fields. If some of its fields are left out, two dots say so. -/
  | record (name : String) (fields : List (String × Dump)) (complete : Bool)
  /-- A list. -/
  | list (items : List Dump)

namespace Dump

/-- An optional piece of data. -/
def option : Option Dump → Dump
  | none => word "None"
  | some d => node "Some" [d]

/-- A constructor with all of its named fields. -/
def fields (name : String) (fs : List (String × Dump)) : Dump :=
  record name fs true

/-! ## One line -/

section Inline

variable (plain : Char → Bool)

mutual

/-- The dump on one line. -/
def inline : Dump → String
  | word text => text
  | string content => Text.quote plain content
  | node name items => name ++ "(" ++ inlineItems items ++ ")"
  | record name fs true => name ++ " \x7b " ++ inlineFields fs ++ " \x7d"
  | record name fs false => name ++ " \x7b " ++ inlineFields fs ++ ", .. \x7d"
  | list items => "[" ++ inlineItems items ++ "]"

/-- The items, separated by commas. -/
def inlineItems : List Dump → String
  | [] => ""
  | [d] => inline d
  | d :: ds => inline d ++ ", " ++ inlineItems ds

/-- The named fields, separated by commas. -/
def inlineFields : List (String × Dump) → String
  | [] => ""
  | [(name, d)] => name ++ ": " ++ inline d
  | (name, d) :: fs => name ++ ": " ++ inline d ++ ", " ++ inlineFields fs

end

end Inline

/-! ## One item a line -/

/-- The margin of level `n`. -/
def margin (n : Nat) : String :=
  String.ofList (List.replicate (4 * n) ' ')

section Indented

variable (plain : Char → Bool)

mutual

/-- The dump as it stands at level `n`: its first line continues a line that is already begun, and
each further line carries its own margin. -/
def indentedAt (n : Nat) : Dump → String
  | word text => text
  | string content => Text.quote plain content
  | node name items => name ++ "(\n" ++ indentedItems (n + 1) items ++ margin n ++ ")"
  | record name fs true =>
    name ++ " \x7b\n" ++ indentedFields (n + 1) fs ++ margin n ++ "\x7d"
  | record name fs false =>
    name ++ " \x7b\n" ++ indentedFields (n + 1) fs ++ margin (n + 1) ++ "..\n" ++ margin n ++ "\x7d"
  | list [] => "[]"
  | list (d :: ds) => "[\n" ++ indentedItems (n + 1) (d :: ds) ++ margin n ++ "]"

/-- The items at level `n`, each on lines of its own and followed by a comma. -/
def indentedItems (n : Nat) : List Dump → String
  | [] => ""
  | d :: ds => margin n ++ indentedAt n d ++ ",\n" ++ indentedItems n ds

/-- The named fields at level `n`, each on lines of its own and followed by a comma. -/
def indentedFields (n : Nat) : List (String × Dump) → String
  | [] => ""
  | (name, d) :: fs =>
    margin n ++ name ++ ": " ++ indentedAt n d ++ ",\n" ++ indentedFields n fs

end

/-- The dump with one item a line. -/
def indented (d : Dump) : String :=
  indentedAt plain 0 d

end Indented

end Dump

end Sprig
