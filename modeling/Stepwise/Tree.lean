import Stepwise.Operator.Basic
import Stepwise.Source.Span
import Stepwise.Value

/-!
# Programs as trees

Every node carries the span it was read from, from its first to its last token; operators and the
keywords of conditions carry their own. A tree that was not read from a text may have holes: places
where a statement or an expression is missing.
-/

namespace Stepwise

/-- An expression. -/
inductive Expr where
  | var (span : Span) (name : String)
  | literal (span : Span) (value : Value)
  | paren (span : Span) (inner : Expr)
  | call (span : Span) (callee : Expr) (arguments : List Expr)
  | shortCircuit (span : Span) (left : Expr) (op : Located ShortCircuitOp) (right : Expr)
  | binary (span : Span) (left : Expr) (op : Located BinaryOp) (right : Expr)
  | unary (span : Span) (op : Located UnaryOp) (operand : Expr)
  | hole (span : Span)

/-- The place of an expression. -/
def Expr.span : Expr → Span
  | .var span _ | .literal span _ | .paren span _ | .call span _ _ | .shortCircuit span _ _ _
  | .binary span _ _ _ | .unary span _ _ | .hole span => span

/-- A statement. -/
inductive Stmt where
  | block (span : Span) (body : List Stmt)
  | expr (span : Span) (expr : Expr)
  | print (span : Span) (expr : Expr)
  | declare (span : Span) (name : String) (initializer : Option Expr)
  | assign (span : Span) (name : String) (value : Expr)
  | branch (span keyword : Span) (condition : Expr) (yes : Stmt) (no : Option Stmt)
  | loop (span keyword : Span) (condition : Expr) (body : Stmt)
  | hole (span : Span)

/-- The place of a statement. -/
def Stmt.span : Stmt → Span
  | .block span _ | .expr span _ | .print span _ | .declare span _ _ | .assign span _ _
  | .branch span _ _ _ _ | .loop span _ _ _ | .hole span => span

end Stepwise
