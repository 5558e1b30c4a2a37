import Sprig.SyntaxError
import Sprig.Text.Bytes

/-!
# Token listings

How a single token is listed: in short, with its text where the kind alone does not tell it, or as a
dump.
-/

namespace Sprig

namespace Token

/-- The dump of a token. -/
def dump (t : Token) : Dump :=
  .fields "Token" [("kind", .word t.kind.name), ("literal", .string t.literal),
    ("span", t.span.dump)]

/-- The text of the source under a token, or nothing if its span is no stretch of the source. -/
def sourceText (source : String) (t : Token) : String :=
  String.ofList <|
    (Text.byteSlice? source.toList t.span.start.toNat t.span.stop.toNat).getD []

/-- A token of the given source in short. A string is listed as it is written and then without its
quotes. -/
def summary (source : String) (t : Token) : String :=
  match t.kind with
  | .string => t.kind.label ++ " " ++ t.sourceText source ++ " " ++ t.literal
  | .ident | .integer | .illegal => t.kind.label ++ " " ++ t.literal
  | _ => t.kind.label

end Token

end Sprig
