import Sprig.Text.Bytes
import Sprig.Token

/-!
# From text to tokens

`Lexeme.read` takes the longest lexeme off the front of a text that does not start with a blank;
`Token.readAll` skips blanks and reads lexemes until the text is used up, counting bytes as it
goes. Nothing is lost on the way: a lexeme, as written, followed by the text after it, is the text
it was read from (`Lexeme.written_append_rest`).
-/

namespace Sprig

/-! ## Character classes -/

/-- The characters between tokens: space, tab, line feed, form feed and carriage return. -/
def isBlank (c : Char) : Bool :=
  c == ' ' || c == '\t' || c == '\n' || c == '\x0c' || c == '\r'

/-- The characters of names and keywords: the ASCII letters and the underscore. -/
def isWordChar (c : Char) : Bool :=
  c.isAlpha || c == '_'

/-! ## Lexemes -/

/-- A lexeme at the front of a text, and the text after it. -/
structure Lexeme where
  kind : TokenKind
  /-- The characters it takes in the text. -/
  written : List Char
  /-- Its characters without the quotes of a string. -/
  literal : List Char
  /-- The text after it. -/
  rest : List Char

namespace Lexeme

/-- A lexeme whose literal is what is written. -/
def plain (kind : TokenKind) (written rest : List Char) : Lexeme :=
  ⟨kind, written, written, rest⟩

/-- A run of word characters: a keyword if it is reserved, and otherwise a name. -/
def word (cs : List Char) : Lexeme :=
  let text := cs.takeWhile isWordChar
  let kind := (TokenKind.ofKeyword? (String.ofList text)).getD .ident
  plain kind text (cs.dropWhile isWordChar)

/-- A run of decimal digits. -/
def digits (cs : List Char) : Lexeme :=
  plain .integer (cs.takeWhile Char.isDigit) (cs.dropWhile Char.isDigit)

/-- A string, of which `cs` is the text after the opening quote. It reaches to the next quote, or
to the end of the text if there is none; there are no escapes. -/
def quoted (cs : List Char) : Lexeme :=
  let body := cs.takeWhile (· != '"')
  match cs.dropWhile (· != '"') with
  | [] => ⟨.string, '"' :: body, body, []⟩
  | quote :: rest => ⟨.string, '"' :: (body ++ [quote]), body, rest⟩

/-- The character `c`, or `c` and an equals sign if one follows directly. -/
def orEquals (c : Char) (alone doubled : TokenKind) : List Char → Lexeme
  | '=' :: rest => plain doubled [c, '='] rest
  | rest => plain alone [c] rest

/-- The lexeme at the front of the text `c :: cs`, where `c` is no blank. -/
def read (c : Char) (cs : List Char) : Lexeme :=
  if isWordChar c then word (c :: cs)
  else if c.isDigit then digits (c :: cs)
  else if c = '"' then quoted cs
  else if c = '=' then orEquals '=' .assign .equalEqual cs
  else if c = '!' then orEquals '!' .bang .bangEqual cs
  else plain ((TokenKind.ofSymbol? c).getD .illegal) [c] cs

/-- The token of a lexeme that starts at byte `offset` of the source text. -/
def token (l : Lexeme) (offset : Nat) : Token :=
  ⟨l.kind, String.ofList l.literal, Span.ofNat offset (Text.byteLength l.written)⟩

private theorem written_append_rest_quoted (cs : List Char) :
    (quoted cs).written ++ (quoted cs).rest = '"' :: cs := by
  have h := List.takeWhile_append_dropWhile (p := (· != '"')) (l := cs)
  unfold quoted
  cases hd : cs.dropWhile (· != '"') with
  | nil => simpa [hd] using h
  | cons q r => simpa [hd] using h

private theorem written_append_rest_orEquals (c : Char) (k d : TokenKind) (cs : List Char) :
    (orEquals c k d cs).written ++ (orEquals c k d cs).rest = c :: cs := by
  unfold orEquals
  split <;> simp [plain]

/-- Reading a lexeme loses nothing. -/
theorem written_append_rest (c : Char) (cs : List Char) :
    (read c cs).written ++ (read c cs).rest = c :: cs := by
  unfold read
  split
  · simp [word, plain, List.takeWhile_append_dropWhile]
  split
  · simp [digits, plain, List.takeWhile_append_dropWhile]
  split
  · simp [written_append_rest_quoted, *]
  split
  · simp [written_append_rest_orEquals, *]
  split
  · simp [written_append_rest_orEquals, *]
  · simp [plain]

/-- A lexeme is never empty. -/
theorem written_ne_nil (c : Char) (cs : List Char) : (read c cs).written ≠ [] := by
  unfold read
  split
  · simp [word, plain, *]
  split
  · simp [digits, plain, *]
  split
  · unfold quoted
    cases cs.dropWhile (· != '"') <;> simp
  split
  · unfold orEquals
    split <;> simp [plain]
  split
  · unfold orEquals
    split <;> simp [plain]
  · simp [plain]

/-- The text after a lexeme is shorter than the text it was read from. -/
theorem length_rest_le (c : Char) (cs : List Char) : (read c cs).rest.length ≤ cs.length := by
  have h := congrArg List.length (written_append_rest c cs)
  have h' := List.length_pos_iff.2 (written_ne_nil c cs)
  simp only [List.length_append, List.length_cons] at h
  omega

end Lexeme

/-! ## The tokens of a text -/

/-- The tokens of a text whose first character stands at byte `offset` of the source. -/
def Token.readAll (offset : Nat) : List Char → List Token
  | [] => []
  | c :: cs =>
    if isBlank c then Token.readAll (offset + c.utf8Size) cs
    else
      (Lexeme.read c cs).token offset ::
        Token.readAll (offset + Text.byteLength (Lexeme.read c cs).written) (Lexeme.read c cs).rest
termination_by cs => cs.length
decreasing_by
  · simp
  · exact Nat.lt_succ_of_le (Lexeme.length_rest_le c cs)

/-- The tokens of a source text; the input runs out at its last byte. -/
def TokenStream.ofSource (source : String) : TokenStream :=
  ⟨Token.readAll 0 source.toList, Span.ofNat (Text.byteLength source.toList) 0⟩

end Sprig
