import Sprig.Token

/-!
# Operators and their precedence

Two unary and eight binary operators, each with its symbol, the name that dumps give it and how
tightly it binds. Every binary operator associates to the left.
-/

namespace Sprig

/-- How tightly an operator binds, from the loosest to the tightest. -/
inductive Precedence where
  | lowest
  | equals
  | lessGreater
  | sum
  | product
  | unary
  | call
deriving DecidableEq

namespace Precedence

/-- The place of a precedence in the order, counted from the loosest. -/
def rank : Precedence → Nat
  | lowest => 0
  | equals => 1
  | lessGreater => 2
  | sum => 3
  | product => 4
  | unary => 5
  | call => 6

instance : LT Precedence := ⟨fun p q => p.rank < q.rank⟩

instance (p q : Precedence) : Decidable (p < q) :=
  inferInstanceAs (Decidable (p.rank < q.rank))

instance : Ord Precedence := ⟨fun p q => compare p.rank q.rank⟩

theorem lt_iff_rank_lt {p q : Precedence} : p < q ↔ p.rank < q.rank := Iff.rfl

/-- All precedences, from the loosest to the tightest. -/
def all : List Precedence :=
  [lowest, equals, lessGreater, sum, product, unary, call]

/-- The name of a precedence. -/
def name : Precedence → String
  | lowest => "Lowest"
  | equals => "Equals"
  | lessGreater => "LessGreater"
  | sum => "Sum"
  | product => "Product"
  | unary => "Prefix"
  | call => "Call"

/-- The precedence with the given name. -/
def ofName? (name : String) : Option Precedence :=
  all.find? (fun p => p.name == name)

end Precedence

/-- The operators in front of one operand. -/
inductive UnaryOp where
  | not
  | negate
deriving DecidableEq

namespace UnaryOp

def symbol : UnaryOp → String
  | not => "!"
  | negate => "-"

/-- The operator as dumps write it. -/
def name : UnaryOp → String
  | not => "Bang"
  | negate => "Minus"

def precedence (_ : UnaryOp) : Precedence :=
  .unary

/-- The unary operator that a token writes. -/
def ofKind? : TokenKind → Option UnaryOp
  | .bang => some not
  | .minus => some negate
  | _ => none

end UnaryOp

/-- The operators between two operands. -/
inductive BinaryOp where
  | add
  | subtract
  | multiply
  | divide
  | lessThan
  | greaterThan
  | equal
  | notEqual
deriving DecidableEq

namespace BinaryOp

/-- All binary operators. -/
def all : List BinaryOp :=
  [add, subtract, multiply, divide, lessThan, greaterThan, equal, notEqual]

def symbol : BinaryOp → String
  | add => "+"
  | subtract => "-"
  | multiply => "*"
  | divide => "/"
  | lessThan => "<"
  | greaterThan => ">"
  | equal => "=="
  | notEqual => "!="

/-- The operator as dumps write it. -/
def name : BinaryOp → String
  | add => "Add"
  | subtract => "Subtract"
  | multiply => "Multiply"
  | divide => "Divide"
  | lessThan => "LessThan"
  | greaterThan => "GreaterThan"
  | equal => "EqualEqual"
  | notEqual => "BangEqual"

def precedence : BinaryOp → Precedence
  | equal | notEqual => .equals
  | lessThan | greaterThan => .lessGreater
  | add | subtract => .sum
  | multiply | divide => .product

/-- The binary operator that a token writes. -/
def ofKind? : TokenKind → Option BinaryOp
  | .plus => some add
  | .minus => some subtract
  | .star => some multiply
  | .slash => some divide
  | .lessThan => some lessThan
  | .greaterThan => some greaterThan
  | .equalEqual => some equal
  | .bangEqual => some notEqual
  | _ => none

end BinaryOp

/-- How tightly a token binds to the expression before it. An opening parenthesis there starts the
arguments of a call; a token that cannot continue an expression binds loosest. -/
def TokenKind.precedence (k : TokenKind) : Precedence :=
  match BinaryOp.ofKind? k with
  | some op => op.precedence
  | none => if k = .leftParen then .call else .lowest

end Sprig
