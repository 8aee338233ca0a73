import Stepwise.Run.Error

/-!
# Applying operators

Every operator is total: it gives a value, or the fault that says why it has none. Integer division
is truncated toward zero, and the remainder has the dividend's sign.
-/

namespace Stepwise

/-- Compares by a strict order and an equality, which decide all six comparisons. -/
def Comparison.holds (op : Comparison) (eq lt gt : Bool) : Bool :=
  match op with
  | .equal => eq
  | .notEqual => !eq
  | .greater => gt
  | .greaterEqual => gt || eq
  | .less => lt
  | .lessEqual => lt || eq

/-- The comparison of two values of one type: numbers by size, strings by code points, and false
before true. A float that is no number is different from every float and on no side of it. -/
def Comparison.apply? (op : Comparison) : Value → Value → Option Bool
  | .int a, .int b => some (op.holds (a == b) (decide (a < b)) (decide (b < a)))
  | .float a, .float b =>
    some (op.holds (a == b) (decide (a < b)) (decide (b < a)))
  | .string a, .string b =>
    some (op.holds (a == b) (decide (a < b)) (decide (b < a)))
  | .bool a, .bool b => some (op.holds (a == b) (!a && b) (a && !b))
  | _, _ => none

/-- Whether the operator divides. -/
def Arithmetic.divides : Arithmetic → Bool
  | .divide | .modulo => true
  | _ => false

/-- Arithmetic on integers; the divisor is not zero. -/
def Arithmetic.onInt : Arithmetic → Int → Int → Int
  | .add, a, b => a + b
  | .subtract, a, b => a - b
  | .multiply, a, b => a * b
  | .divide, a, b => a.tdiv b
  | .modulo, a, b => a.tmod b

/-- Arithmetic on floats; the divisor is not zero. -/
def Arithmetic.onFloat : Arithmetic → Float → Float → Float
  | .add, a, b => a + b
  | .subtract, a, b => a - b
  | .multiply, a, b => a * b
  | .divide, a, b => a / b
  | .modulo, a, b => ((Binary64.ofFloat a).remainder (Binary64.ofFloat b)).toFloat

/-- The value of a binary operator on two values. -/
def BinaryOp.apply (op : BinaryOp) (left right : Value) : Except Fault Value :=
  match op with
  | .compare c =>
    match c.apply? left right with
    | some b => .ok (.bool b)
    | none => .error (.binaryOperands op left.type right.type)
  | .arith a =>
    match left, right with
    | .int m, .int n =>
      if a.divides && n == 0 then .error (.divisionByZero op) else .ok (.int (a.onInt m n))
    | .float x, .float y =>
      if a.divides && y == 0 then .error (.divisionByZero op) else .ok (.float (a.onFloat x y))
    | .string s, .string t =>
      if a = .add then .ok (.string (s ++ t)) else .error (.binaryOperands op .string .string)
    | _, _ => .error (.binaryOperands op left.type right.type)

/-- The value of a unary operator on a value. -/
def UnaryOp.apply (op : UnaryOp) (operand : Value) : Except Fault Value :=
  match op, operand with
  | .negate, .int n => .ok (.int (-n))
  | .negate, .float x => .ok (.float (-x))
  | .not, .bool b => .ok (.bool !b)
  | _, _ => .error (.unaryOperand op operand.type)

end Stepwise
