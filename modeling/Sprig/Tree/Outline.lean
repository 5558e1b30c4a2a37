import Sprig.Dump
import Sprig.Text.Decimal
import Sprig.Tree

/-!
# The dump of a tree

Every node with its constructor name and its parts. Unlike the canonical text it shows strings in
quotes and keeps every block apart.
-/

namespace Sprig

/-- A name as a node of its own. -/
def Dump.identifier (name : String) : Dump :=
  .fields "Identifier" [("name", .string name)]

/-- A block, of which the dumps of the statements are given. -/
def Dump.block (statements : List Dump) : Dump :=
  .fields "BlockStatement" [("statements", .list statements)]

mutual

/-- The dump of an expression. -/
def Expr.dump : Expr → Dump
  | .ident name => .node "Identifier" [.identifier name]
  | .int value => .node "IntegerLiteral" [.word (Text.showInt64 value)]
  | .str content => .node "StringLiteral" [.string content]
  | .bool true => .node "BooleanLiteral" [.word "true"]
  | .bool false => .node "BooleanLiteral" [.word "false"]
  | .unary op operand =>
    .fields "Prefix" [("operator", .word op.name), ("operand", operand.dump)]
  | .binary op lhs rhs =>
    .fields "Infix" [("operator", .word op.name), ("lhs", lhs.dump), ("rhs", rhs.dump)]
  | .cond test consequence alternative =>
    .fields "If" [("condition", test.dump), ("consequence", .block (Stmt.dumpAll consequence)),
      ("alternative", Stmt.dumpElse alternative)]
  | .fn params body =>
    .fields "Function" [("parameters", .list (params.map .identifier)),
      ("body", .block (Stmt.dumpAll body))]
  | .call callee args =>
    .fields "Call" [("callee", callee.dump), ("arguments", .list (Expr.dumpAll args))]

/-- The dumps of a list of expressions. -/
def Expr.dumpAll : List Expr → List Dump
  | [] => []
  | e :: es => e.dump :: Expr.dumpAll es

/-- The dump of a statement. -/
def Stmt.dump : Stmt → Dump
  | .bind name value => .fields "Let" [("name", .identifier name), ("value", value.dump)]
  | .ret value => .node "Return" [value.dump]
  | .expr value => .node "Expression" [value.dump]
  | .block body => .node "Block" [.block (Stmt.dumpAll body)]

/-- The dumps of the statements of a block. -/
def Stmt.dumpAll : List Stmt → List Dump
  | [] => []
  | s :: ss => s.dump :: Stmt.dumpAll ss

/-- The dump of the `else` part of a conditional. -/
def Stmt.dumpElse : Option (List Stmt) → Dump
  | none => .word "None"
  | some body => .node "Some" [.block (Stmt.dumpAll body)]

end

/-- The dump of a program. -/
def Program.dump (p : Program) : Dump :=
  .fields "Program" [("statements", .list (Stmt.dumpAll p.statements))]

end Sprig
