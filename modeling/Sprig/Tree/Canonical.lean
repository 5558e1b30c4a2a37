import Sprig.Text.Decimal
import Sprig.Tree

/-!
# Canonical text

A program on one line, with every operator application in parentheses. Statements follow each other
without a separator of their own, a conditional runs its keyword into the condition, and strings
are written without quotes, so the text shows the structure of expressions and is not meant to be
read back in general.
-/

namespace Sprig

mutual

/-- An expression with all of its parentheses. -/
def Expr.canonical : Expr → String
  | .ident name => name
  | .int value => Text.showInt64 value
  | .str content => content
  | .bool true => "true"
  | .bool false => "false"
  | .unary op operand => "(" ++ op.symbol ++ operand.canonical ++ ")"
  | .binary op lhs rhs => "(" ++ lhs.canonical ++ " " ++ op.symbol ++ " " ++ rhs.canonical ++ ")"
  | .cond test consequence alternative =>
    "if" ++ test.canonical ++ " " ++ Block.canonical consequence ++ Block.canonicalElse alternative
  | .fn params body => "fn(" ++ ", ".intercalate params ++ ")" ++ Block.canonical body
  | .call callee args => callee.canonical ++ "(" ++ Expr.canonicalArgs args ++ ")"

/-- The arguments of a call, separated by commas. -/
def Expr.canonicalArgs : List Expr → String
  | [] => ""
  | [e] => e.canonical
  | e :: es => e.canonical ++ ", " ++ Expr.canonicalArgs es

/-- A statement; only bindings and returns end in a semicolon. -/
def Stmt.canonical : Stmt → String
  | .bind name value => "let " ++ name ++ " = " ++ value.canonical ++ ";"
  | .ret value => "return " ++ value.canonical ++ ";"
  | .expr value => value.canonical
  | .block body => Block.canonical body

/-- The statements of a block, one after the other. -/
def Block.canonical : List Stmt → String
  | [] => ""
  | s :: ss => s.canonical ++ Block.canonical ss

/-- The `else` part of a conditional. -/
def Block.canonicalElse : Option (List Stmt) → String
  | none => ""
  | some body => "else " ++ Block.canonical body

end

/-- The canonical text of a program. -/
def Program.canonical (p : Program) : String :=
  Block.canonical p.statements

end Sprig
