import Sprig.Token.Lexer
import Sprig.Tree.Reader

/-!
# Parsed programs

The program that a source text or a token stream holds, together with what is wrong with it. The
statements that could be read are kept even if others could not. A `Reader` can also be asked for
one thing after the other; it stays on the last token of an expression, and errors add up.
-/

namespace Sprig

/-- A program as far as it could be read, and all syntax errors. -/
structure Parsed where
  program : Program
  errors : List SyntaxError
  /-- How many statements were left out, at any depth. -/
  dropped : Nat
  /-- How many blocks ended with the input, for want of a closing brace. -/
  unclosed : Nat

/-- A reader in the middle of its tokens. -/
structure Reader where
  /-- The tokens from the current one on. -/
  tokens : List Token
  /-- Where the input ends. -/
  stop : Span
  /-- The errors noticed so far. -/
  errors : List SyntaxError

namespace Reader

/-- A reader at the start of a stream. -/
def ofStream (s : TokenStream) : Reader :=
  ⟨s.tokens, s.endSpan, []⟩

/-- Reads statements up to the end of the input. -/
def readProgram (r : Reader) : Program × Reader :=
  let reading := statements r.stop false r.tokens
  (⟨reading.value⟩, ⟨reading.rest, r.stop, r.errors ++ reading.errors⟩)

/-- Reads an expression whose operators all bind tighter than `p`, and stays on its last token. -/
def readExpression (p : Precedence) (r : Reader) : Option Expr × Reader :=
  let reading := expression r.stop p r.tokens
  (reading.value, ⟨reading.rest, r.stop, r.errors ++ reading.errors⟩)

end Reader

/-- Reads a whole token stream. -/
def Parsed.ofStream (s : TokenStream) : Parsed :=
  let reading := Reader.statements s.endSpan false s.tokens
  ⟨⟨reading.value⟩, reading.errors, reading.dropped, reading.unclosed⟩

/-- Reads a source text. -/
def Parsed.ofSource (source : String) : Parsed :=
  Parsed.ofStream (TokenStream.ofSource source)

end Sprig
