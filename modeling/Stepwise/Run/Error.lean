import Stepwise.Operator.Basic
import Stepwise.Source.Span
import Stepwise.Value

/-!
# Errors of a running program

A cause keeps what went wrong as data; `message` is the only place that words it.
-/

namespace Stepwise

/-- What a running program did wrong. -/
inductive Fault where
  | uninitialized (name : String)
  | undeclared (name : String)
  | shortCircuitOperand (op : ShortCircuitOp) (type : Ty)
  | binaryOperands (op : BinaryOp) (left right : Ty)
  | unaryOperand (op : UnaryOp) (type : Ty)
  | condition (type : Ty)
  | divisionByZero (op : BinaryOp)
deriving DecidableEq

/-- The wording of a fault. -/
def Fault.message : Fault → String
  | .uninitialized name => "variable '" ++ name ++ "' is uninitialized"
  | .undeclared name => "variable '" ++ name ++ "' does not exist"
  | .shortCircuitOperand op type =>
    "invalid operand type for operator '" ++ op.symbol ++ "': expected bool, got " ++ type.name
  | .binaryOperands op left right =>
    "invalid operand types for operator '" ++ op.symbol ++ "': " ++ left.name ++ " and " ++
      right.name
  | .unaryOperand op type =>
    "invalid operand type for operator '" ++ op.symbol ++ "': " ++ type.name
  | .condition type => "expected condition of type bool, got " ++ type.name
  | .divisionByZero op => "division by zero in operator '" ++ op.symbol ++ "'"

/-- A fault and the place in the program to blame. -/
structure RunError where
  fault : Fault
  span : Span
deriving DecidableEq

/-- Why a program cannot be run at all, whatever it computes: a construct that the language can
write but not execute, or a tree with a hole in it. -/
inductive Failure where
  | unsupported (span : Span) (feature : String)
  | missingStatement
  | missingExpression
deriving DecidableEq

/-- The wording of a failure. -/
def Failure.message : Failure → String
  | .unsupported _ feature => feature ++ " are not supported"
  | .missingStatement => "Statement not supported: Stmt"
  | .missingExpression => "Expression not supported: Expr"

/-- What ends a run early. -/
inductive Stop where
  | error (error : RunError)
  | failure (failure : Failure)
deriving DecidableEq

end Stepwise
