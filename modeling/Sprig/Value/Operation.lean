import Sprig.Text.Bytes
import Sprig.Value

/-!
# Operations on values

The operators and the built-in functions. Integers are 64-bit words: sums, differences, products and
negation wrap around, and division drops the fraction; the least integer divided by -1 is the least
integer.
-/

namespace Sprig

namespace Value

/-- Applies a binary operator to two integers. -/
def integerBinary : BinaryOp → Int64 → Int64 → Except Fault Value
  | .add, a, b => .ok (int (a + b))
  | .subtract, a, b => .ok (int (a - b))
  | .multiply, a, b => .ok (int (a * b))
  | .divide, a, b => if b = 0 then .error .divisionByZero else .ok (int (a / b))
  | .lessThan, a, b => .ok (bool (decide (a < b)))
  | .greaterThan, a, b => .ok (bool (decide (b < a)))
  | .equal, a, b => .ok (bool (a == b))
  | .notEqual, a, b => .ok (bool (a != b))

/-- Applies a binary operator. Any two values can be compared for equality; otherwise the operands
have to be of one kind, and besides integers only strings can be joined. -/
def binary : BinaryOp → Value → Value → Except Fault Value
  | op, int a, int b => integerBinary op a b
  | .equal, a, b => .ok (bool (a.equals b))
  | .notEqual, a, b => .ok (bool (!a.equals b))
  | .add, str a, str b => .ok (str (a ++ b))
  | op, a, b =>
    if a.kind ≠ b.kind then .error (.typeMismatch a.kind op b.kind)
    else .error (.unknownBinary a.kind op b.kind)

/-- Applies a unary operator. Any value can be negated as a condition, only integers as numbers. -/
def unary : UnaryOp → Value → Except Fault Value
  | .not, a => .ok (bool (!a.isTruthy))
  | .negate, int a => .ok (int (-a))
  | .negate, a => .error (.unknownUnary .negate a.kind)

end Value

/-- Calls a built-in function. It checks its arguments itself and answers with an error value if
they do not fit. -/
def Builtin.call : Builtin → List Value → Value
  | .len, [.str s] => .int (Int64.ofNat (Text.byteLength s.toList))
  | .len, [v] => .error (.unsupportedArgument .len v.kind)
  | .len, args => .error (.argumentCount args.length 1)

end Sprig
