import Sprig.Span

/-!
# Tokens

A token is a kind, a literal and the span of the source text it was read from. The literal is the
token's text, except that a string literal comes without its quotes and that the token at the end
of the input has none.
-/

namespace Sprig

/-- What a token is. -/
inductive TokenKind where
  /-- A character that starts no token of the language. -/
  | illegal
  /-- The end of the input. -/
  | eof
  | ident
  | integer
  | string
  | assign
  | plus
  | minus
  | bang
  | star
  | slash
  | lessThan
  | greaterThan
  | equalEqual
  | bangEqual
  | comma
  | semicolon
  | leftParen
  | rightParen
  | leftBrace
  | rightBrace
  | kwFn
  | kwLet
  | kwTrue
  | kwFalse
  | kwIf
  | kwElse
  | kwReturn
deriving DecidableEq, Inhabited

namespace TokenKind

/-- All kinds, in the order of the definition. -/
def all : List TokenKind :=
  [illegal, eof, ident, integer, string, assign, plus, minus, bang, star, slash, lessThan,
    greaterThan, equalEqual, bangEqual, comma, semicolon, leftParen, rightParen, leftBrace,
    rightBrace, kwFn, kwLet, kwTrue, kwFalse, kwIf, kwElse, kwReturn]

/-- The kind as messages and token listings write it: a symbol as itself, any other kind in
capitals. -/
def label : TokenKind → String
  | illegal => "ILLEGAL"
  | eof => "EOF"
  | ident => "IDENT"
  | integer => "INT"
  | string => "STRING"
  | assign => "="
  | plus => "+"
  | minus => "-"
  | bang => "!"
  | star => "*"
  | slash => "/"
  | lessThan => "<"
  | greaterThan => ">"
  | equalEqual => "=="
  | bangEqual => "!="
  | comma => ","
  | semicolon => ";"
  | leftParen => "("
  | rightParen => ")"
  | leftBrace => "\x7b"
  | rightBrace => "\x7d"
  | kwFn => "FUNCTION"
  | kwLet => "LET"
  | kwTrue => "TRUE"
  | kwFalse => "FALSE"
  | kwIf => "IF"
  | kwElse => "ELSE"
  | kwReturn => "RETURN"

/-- The kind as structure dumps write it. -/
def name : TokenKind → String
  | illegal => "Illegal"
  | eof => "Eof"
  | ident => "Ident"
  | integer => "IntegerLiteral"
  | string => "StringLiteral"
  | assign => "Assign"
  | plus => "Plus"
  | minus => "Minus"
  | bang => "Bang"
  | star => "Star"
  | slash => "Slash"
  | lessThan => "LessThan"
  | greaterThan => "GreaterThan"
  | equalEqual => "EqualEqual"
  | bangEqual => "BangEqual"
  | comma => "Comma"
  | semicolon => "Semicolon"
  | leftParen => "LeftParenthesis"
  | rightParen => "RightParenthesis"
  | leftBrace => "LeftBrace"
  | rightBrace => "RightBrace"
  | kwFn => "KeywordFn"
  | kwLet => "KeywordLet"
  | kwTrue => "KeywordTrue"
  | kwFalse => "KeywordFalse"
  | kwIf => "KeywordIf"
  | kwElse => "KeywordElse"
  | kwReturn => "KeywordReturn"

/-- The kind with the given dump name. -/
def ofName? (name : String) : Option TokenKind :=
  all.find? (fun k => k.name == name)

/-- The kind of a word that is reserved. -/
def ofKeyword? : String → Option TokenKind
  | "fn" => some kwFn
  | "let" => some kwLet
  | "true" => some kwTrue
  | "false" => some kwFalse
  | "if" => some kwIf
  | "else" => some kwElse
  | "return" => some kwReturn
  | _ => none

/-- The kind of a character that is a token whatever follows it. -/
def ofSymbol? : Char → Option TokenKind
  | '+' => some plus
  | '-' => some minus
  | '*' => some star
  | '/' => some slash
  | '<' => some lessThan
  | '>' => some greaterThan
  | ',' => some comma
  | ';' => some semicolon
  | '(' => some leftParen
  | ')' => some rightParen
  | '\x7b' => some leftBrace
  | '\x7d' => some rightBrace
  | _ => none

end TokenKind

/-- A token of the source text. -/
structure Token where
  kind : TokenKind
  literal : String
  span : Span
deriving DecidableEq, Inhabited

/-- What a reader of tokens is given: finitely many tokens, and then the end of the input for ever.
The kind `eof` may also stand among the tokens; whoever reads them stops there. -/
structure TokenStream where
  /-- The tokens before the input runs out. -/
  tokens : List Token
  /-- Where the input runs out. -/
  endSpan : Span
deriving DecidableEq

namespace TokenStream

/-- The token delivered once the input has run out. -/
def endToken (s : TokenStream) : Token :=
  ⟨.eof, "", s.endSpan⟩

/-- The token delivered at position `i`, counted from 0. -/
def get (s : TokenStream) (i : Nat) : Token :=
  s.tokens.getD i s.endToken

theorem get_of_lt {s : TokenStream} {i : Nat} (h : i < s.tokens.length) :
    s.get i = s.tokens[i] := by
  simp [get, h]

theorem get_of_length_le {s : TokenStream} {i : Nat} (h : s.tokens.length ≤ i) :
    s.get i = s.endToken := by
  simp [get, List.getElem?_eq_none h]

end TokenStream

end Sprig
