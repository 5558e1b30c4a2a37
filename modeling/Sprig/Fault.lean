import Sprig.Dump
import Sprig.Operator

/-!
# Faults

What can go wrong while a program runs, and the words for it. A fault names the kinds of the values
that did not fit, never the values themselves.
-/

namespace Sprig

/-- What kind of value a value is. -/
inductive ValueKind where
  | integer
  | boolean
  | string
  | null
  | function
  | builtin
  | error
deriving DecidableEq

namespace ValueKind

/-- The kind as messages write it. -/
def label : ValueKind → String
  | integer => "INTEGER"
  | boolean => "BOOLEAN"
  | string => "STRING"
  | null => "NULL"
  | function => "FUNCTION"
  | builtin => "BUILTIN"
  | error => "ERROR"

/-- The kind as dumps write it. -/
def name : ValueKind → String
  | integer => "Integer"
  | boolean => "Boolean"
  | string => "String"
  | null => "Null"
  | function => "Function"
  | builtin => "Builtin"
  | error => "Error"

end ValueKind

/-- The functions that need no definition. -/
inductive Builtin where
  /-- The length of a string in bytes. -/
  | len
deriving DecidableEq

namespace Builtin

def name : Builtin → String
  | len => "len"

/-- The function as dumps write it. -/
def dumpName : Builtin → String
  | len => "NativeLen"

/-- The function of the given name. -/
def ofName? : String → Option Builtin
  | "len" => some len
  | _ => none

theorem name_injective {a b : Builtin} (_ : a.name = b.name) : a = b := by
  cases a; cases b; rfl

end Builtin

/-- Why a program cannot go on. -/
inductive Fault where
  | typeMismatch (lhs : ValueKind) (op : BinaryOp) (rhs : ValueKind)
  | unknownUnary (op : UnaryOp) (operand : ValueKind)
  | unknownBinary (lhs : ValueKind) (op : BinaryOp) (rhs : ValueKind)
  | unbound (name : String)
  | notAFunction (kind : ValueKind)
  | argumentCount (actual expected : Nat)
  | unsupportedArgument (builtin : Builtin) (kind : ValueKind)
  | divisionByZero
  /-- Calls nest deeper than the limit allows. -/
  | tooDeep (limit : Nat)
deriving DecidableEq

namespace Fault

/-- The code under which faults of this kind are reported. -/
def code : Fault → String
  | typeMismatch .. => "RT001"
  | unknownUnary .. => "RT002"
  | unknownBinary .. => "RT003"
  | unbound _ => "RT004"
  | notAFunction _ => "RT005"
  | argumentCount .. => "RT006"
  | unsupportedArgument .. => "RT007"
  | divisionByZero => "RT008"
  | tooDeep _ => "RT009"

/-- The fault in words. -/
def message : Fault → String
  | typeMismatch lhs op rhs =>
    "type mismatch: " ++ lhs.label ++ " " ++ op.symbol ++ " " ++ rhs.label
  | unknownUnary op operand => "unknown op: " ++ op.symbol ++ operand.label
  | unknownBinary lhs op rhs => "unknown op: " ++ lhs.label ++ " " ++ op.symbol ++ " " ++ rhs.label
  | unbound name => "identifier not found: " ++ name
  | notAFunction kind => "not a function: " ++ kind.label
  | argumentCount actual expected =>
    "wrong number of arguments. got=" ++ Nat.repr actual ++ ", want=" ++ Nat.repr expected
  | unsupportedArgument builtin kind =>
    "argument to `" ++ builtin.name ++ "` is not supported, got " ++ kind.label
  | divisionByZero => "division by zero"
  | tooDeep limit => "maximum recursion depth exceeded (limit: " ++ Nat.repr limit ++ ")"

/-- The dump of a fault. -/
def dump : Fault → Dump
  | typeMismatch lhs op rhs =>
    .fields "TypeMismatch"
      [("lhs", .word lhs.name), ("operator", .word op.name), ("rhs", .word rhs.name)]
  | unknownUnary op operand =>
    .fields "UnknownPrefixOperator" [("operator", .word op.name), ("operand", .word operand.name)]
  | unknownBinary lhs op rhs =>
    .fields "UnknownInfixOperator"
      [("lhs", .word lhs.name), ("operator", .word op.name), ("rhs", .word rhs.name)]
  | unbound name => .node "IdentifierNotFound" [.string name]
  | notAFunction kind => .node "NotAFunction" [.word kind.name]
  | argumentCount actual expected =>
    .fields "InvalidArgumentCount"
      [("actual", .word (Nat.repr actual)), ("expected", .word (Nat.repr expected))]
  | unsupportedArgument builtin kind =>
    .fields "UnsupportedArgument" [("function", .string builtin.name), ("kind", .word kind.name)]
  | divisionByZero => .word "DivisionByZero"
  | tooDeep limit => .fields "StackOverflow" [("depth", .word (Nat.repr limit))]

end Fault

end Sprig
