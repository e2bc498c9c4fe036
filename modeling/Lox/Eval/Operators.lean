import Lox.Machine.Error
import Lox.Syntax
import Lox.Value

/-!
What operators make of values.
-/

namespace Lox

def UnaryOp.apply : UnaryOp → Value → Except RuntimeError.Cause Value
  | negate, .number x => .ok (.number (-x))
  | negate, _ => .error .operandMustBeNumber
  | not, value => .ok (.boolean !value.isTruthy)

def BinaryOp.applyNumbers (x y : Float) : BinaryOp → Value
  | equal => .boolean (Value.isEqual (.number x) (.number y))
  | notEqual => .boolean !(Value.isEqual (.number x) (.number y))
  | less => .boolean (x < y)
  | lessEqual => .boolean (x ≤ y)
  | greater => .boolean (y < x)
  | greaterEqual => .boolean (y ≤ x)
  | add => .number (x + y)
  | subtract => .number (x - y)
  | multiply => .number (x * y)
  | divide => .number (x / y)

/-- What a binary operator makes of two values. Any two values can be compared for equality, texts
can be joined, and the rest is for numbers. -/
def BinaryOp.apply : BinaryOp → Value → Value → Except RuntimeError.Cause Value
  | equal, left, right => .ok (.boolean (left.isEqual right))
  | notEqual, left, right => .ok (.boolean !(left.isEqual right))
  | add, .text left, .text right => .ok (.text (left ++ right))
  | op, .number x, .number y => .ok (op.applyNumbers x y)
  | add, _, _ => .error .invalidAddOperands
  | _, _, _ => .error .operandsMustBeNumbers

def LogicalOp.isDecidedBy : LogicalOp → Value → Bool
  | or, left => left.isTruthy
  | and, left => !left.isTruthy

end Lox
