import Sprig.Text.Printable
import Sprig.Token

/-!
# Syntax errors

What can be wrong with a sequence of tokens, and the words for it. An error carries the span of the
token at which it was noticed.
-/

namespace Sprig

/-- Why a sequence of tokens is no program. -/
inductive SyntaxError.Cause where
  /-- A token of one kind stands where another kind has to. -/
  | unexpected (actual expected : TokenKind)
  /-- A token stands where an expression has to start, and cannot start one. -/
  | notExpression (kind : TokenKind)
  /-- An integer literal is no 64-bit integer. -/
  | badInteger (literal : String)
deriving DecidableEq

/-- A syntax error and where it was noticed. -/
structure SyntaxError where
  cause : SyntaxError.Cause
  span : Span
deriving DecidableEq

namespace SyntaxError

/-- The code under which errors of this kind are reported. -/
def Cause.code : Cause → String
  | unexpected _ _ => "SY001"
  | notExpression _ => "SY002"
  | badInteger _ => "SY003"

/-- The error in words. -/
def Cause.message : Cause → String
  | unexpected actual expected =>
    "expected next token to be " ++ expected.label ++ ", got=" ++ actual.label ++ " instead"
  | notExpression kind => "no prefix parse function for " ++ kind.label ++ " found"
  | badInteger literal =>
    "could not parse " ++ Text.quote Text.isPrintable literal ++ " as integer"

/-- The words that a report writes beside the marked text. -/
def Cause.label : Cause → String
  | unexpected actual expected => "Expected " ++ expected.label ++ " but got " ++ actual.label
  | notExpression kind => kind.label ++ " can not start an expression"
  | badInteger _ => "Integer literal out of range"

/-- The dump of a cause. -/
def Cause.dump : Cause → Dump
  | unexpected actual expected =>
    .fields "UnexpectedToken" [("actual", .word actual.name), ("expected", .word expected.name)]
  | notExpression kind => .node "NonExpression" [.word kind.name]
  | badInteger literal => .node "InvalidInteger" [.string literal]

def code (e : SyntaxError) : String :=
  e.cause.code

def message (e : SyntaxError) : String :=
  e.cause.message

/-- A list of errors in words, each indented by a tab and on a line of its own. -/
def messages (errors : List SyntaxError) : String :=
  "\n".intercalate (errors.map fun e => "\t" ++ e.message)

/-- The dump of a syntax error. -/
def dump (e : SyntaxError) : Dump :=
  .fields "ParserError" [("kind", e.cause.dump), ("span", e.span.dump)]

end SyntaxError

end Sprig
