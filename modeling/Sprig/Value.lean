import Sprig.Fault
import Sprig.Text.Printable
import Sprig.Tree.Canonical
import Sprig.Tree.Outline

/-!
# Values

What expressions evaluate to. A function value is a *closure*: it remembers the scope in which its
literal was evaluated, and it has a number of its own, so that functions are told apart by where
they come from and not by what they do. A fault can be kept as a value; no program makes one.
-/

namespace Sprig

/-- The number of a scope in the store. -/
abbrev ScopeId := Nat

/-- A function value. -/
structure Closure where
  /-- The number given to it when its literal was evaluated. -/
  id : Nat
  params : List String
  body : Block
  /-- The scope in which its literal was evaluated. -/
  scope : ScopeId
deriving DecidableEq

/-- A value. -/
inductive Value where
  | int (value : Int64)
  | bool (value : Bool)
  | str (content : String)
  | null
  | function (closure : Closure)
  | builtin (function : Builtin)
  | error (fault : Fault)
deriving DecidableEq

namespace Value

def kind : Value → ValueKind
  | int _ => .integer
  | bool _ => .boolean
  | str _ => .string
  | null => .null
  | function _ => .function
  | builtin _ => .builtin
  | error _ => .error

/-- Whether the value counts as true in a condition. Only `false` and null do not. -/
def isTruthy : Value → Bool
  | bool false | null => false
  | _ => true

def isError : Value → Bool
  | error _ => true
  | _ => false

/-- Equality as programs see it: by content for data, by identity for functions. Values of different
kinds are never equal, and an error equals nothing. -/
def equals : Value → Value → Bool
  | int a, int b => a == b
  | bool a, bool b => a == b
  | str a, str b => a == b
  | null, null => true
  | function f, function g => f.id == g.id
  | builtin a, builtin b => a.name == b.name
  | _, _ => false

/-- Splits a value into its success and its fault. -/
def toExcept : Value → Except Fault Value
  | error e => .error e
  | v => .ok v

/-! ## Texts -/

/-- The value as a session shows it. -/
def display : Value → String
  | int n => Text.showInt64 n
  | bool true => "true"
  | bool false => "false"
  | str s => s
  | null => "null"
  | function f =>
    "fn(" ++ ", ".intercalate f.params ++ ") \x7b\n" ++ Block.canonical f.body ++ "\n\x7d"
  | builtin _ => "builtin function"
  | error e => "ERROR: " ++ e.message

/-- The value with its kind; of a function only the parameters are shown. -/
def tagged : Value → String
  | int n => "Integer(" ++ Text.showInt64 n ++ ")"
  | bool true => "Boolean(true)"
  | bool false => "Boolean(false)"
  | str s => "String(" ++ Text.quote Text.isPrintable s ++ ")"
  | null => "Null"
  | function f => "Function(" ++ ", ".intercalate f.params ++ ")"
  | builtin b => "Builtin(" ++ b.name ++ ")"
  | error e => "Error(" ++ Text.quote Text.isPrintable e.message ++ ")"

/-- The dump of a value. The scope of a function is left out, for it often holds that function. -/
def dump : Value → Dump
  | int n => .node "Integer" [.word (Text.showInt64 n)]
  | bool true => .node "Boolean" [.word "true"]
  | bool false => .node "Boolean" [.word "false"]
  | str s => .node "String" [.string s]
  | null => .word "Null"
  | function f =>
    .node "Function" [.record "Function"
      [("parameters", .list (f.params.map .identifier)), ("body", .block (Stmt.dumpAll f.body))]
      false]
  | builtin b => .node "Builtin" [.word b.dumpName]
  | error e => .node "Error" [e.dump]

end Value

end Sprig
