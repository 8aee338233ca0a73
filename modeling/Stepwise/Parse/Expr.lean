import Stepwise.Parse.Error
import Stepwise.Token.Basic
import Stepwise.Tree

/-!
# Reading expressions

An expression is read one token at a time. What has been read is a stack: operators that wait for
their right operand, grouped by the parentheses and argument lists that are still open. A new
operator first takes everything that binds at least as tightly as itself as its left operand, which
makes all levels left-associative; a closing parenthesis takes everything in its group.

From loosest to tightest: `||`, `&&`, equality, comparison, sums, products, the operators in front
of an operand, calls.
-/

namespace Stepwise

/-- An operator between two operands. -/
inductive InfixOp where
  | shortCircuit (op : ShortCircuitOp)
  | binary (op : BinaryOp)
deriving DecidableEq

/-- The operator that a symbol stands for between two operands. -/
def InfixOp.ofSymbol? : Symbol → Option InfixOp
  | .doublePipe => some (.shortCircuit .or)
  | .doubleAmpersand => some (.shortCircuit .and)
  | .doubleEqual => some (.binary (.compare .equal))
  | .bangEqual => some (.binary (.compare .notEqual))
  | .greater => some (.binary (.compare .greater))
  | .greaterEqual => some (.binary (.compare .greaterEqual))
  | .less => some (.binary (.compare .less))
  | .lessEqual => some (.binary (.compare .lessEqual))
  | .plus => some (.binary (.arith .add))
  | .minus => some (.binary (.arith .subtract))
  | .star => some (.binary (.arith .multiply))
  | .slash => some (.binary (.arith .divide))
  | .percent => some (.binary (.arith .modulo))
  | _ => none

/-- How tightly an operator binds. -/
def InfixOp.level : InfixOp → Nat
  | .shortCircuit .or => 0
  | .shortCircuit .and => 1
  | .binary (.compare .equal) | .binary (.compare .notEqual) => 2
  | .binary (.compare _) => 3
  | .binary (.arith .add) | .binary (.arith .subtract) => 4
  | .binary (.arith _) => 5

/-- The operator that a symbol stands for in front of an operand. -/
def UnaryOp.ofSign? : Symbol → Option UnaryOp
  | .bang => some .not
  | .minus => some .negate
  | _ => none

/-- An operator that waits for its right operand. -/
inductive PendingOp where
  | unary (op : Located UnaryOp)
  | binary (left : Expr) (op : Located InfixOp)

namespace PendingOp

/-- How tightly the operator binds. -/
def level : PendingOp → Nat
  | .unary _ => 6
  | .binary _ op => op.value.level

/-- The operation, once its right operand is there. -/
def fill (right : Expr) : PendingOp → Expr
  | .unary op => .unary (op.span.join right.span) op right
  | .binary left op =>
    match op.value with
    | .shortCircuit o => .shortCircuit (left.span.join right.span) left ⟨op.span, o⟩ right
    | .binary o => .binary (left.span.join right.span) left ⟨op.span, o⟩ right

/-- Gives `e` to all pending operators, the innermost first. -/
def fillAll (e : Expr) (ops : List PendingOp) : Expr := ops.foldl fill e

/-- Gives `e` to the pending operators that bind at least as tightly as `level`; the others
stay. -/
def reduce (level : Nat) (e : Expr) : List PendingOp → List PendingOp × Expr
  | [] => ([], e)
  | p :: ps => if level ≤ p.level then reduce level (p.fill e) ps else (p :: ps, e)

end PendingOp

/-- What an open parenthesis belongs to. -/
inductive Enclosure where
  /-- The parenthesis of an expression in parentheses. -/
  | paren (opener : Span)
  /-- The parenthesis after a callee, with the arguments that are complete. -/
  | arguments (callee : Expr) (args : List Expr)

/-- What is wrong if the enclosed expression is followed by anything but its end. -/
def Enclosure.complaint : Enclosure → ParseError.Cause
  | .paren _ => .unclosedParen
  | .arguments _ _ => .unclosedArguments

/-- An open parenthesis and the operators that wait for what it encloses. -/
structure Enclosing where
  enclosure : Enclosure
  ops : List PendingOp

/-- What may come next. -/
inductive Focus where
  /-- An operand. -/
  | operand
  /-- An argument, or the end of an empty argument list. -/
  | arguments (callee : Expr)
  /-- Anything that may follow the complete operand. -/
  | after (e : Expr)

/-- An expression that has been read in part. -/
structure ExprReader where
  focus : Focus := .operand
  /-- The pending operators of the innermost group, innermost first. -/
  ops : List PendingOp := []
  /-- The open groups around it, innermost first. -/
  outer : List Enclosing := []

/-- What a token does to an expression that is being read. -/
inductive ExprReader.Step where
  /-- The token belongs to the expression. -/
  | more (reader : ExprReader)
  /-- The expression is complete and the token is not part of it. -/
  | done (e : Expr)
  /-- Neither the expression nor what may follow it goes on like this. -/
  | fail (cause : ParseError.Cause)

namespace ExprReader

/-- Reads a token where an operand must stand. -/
def stepOperand (r : ExprReader) (token : Token) : Step :=
  match token.lexeme with
  | .identifier name => .more { r with focus := .after (.var token.span name) }
  | .int n => .more { r with focus := .after (.literal token.span (.int n)) }
  | .float x => .more { r with focus := .after (.literal token.span (.float x)) }
  | .string s => .more { r with focus := .after (.literal token.span (.string s)) }
  | .bool b => .more { r with focus := .after (.literal token.span (.bool b)) }
  | .keyword _ => .fail .expectedExpression
  | .symbol .leftParen =>
    .more { focus := .operand, ops := [], outer := ⟨.paren token.span, r.ops⟩ :: r.outer }
  | .symbol s =>
    match UnaryOp.ofSign? s with
    | some op => .more { r with focus := .operand, ops := .unary ⟨token.span, op⟩ :: r.ops }
    | none => .fail .expectedExpression

/-- Reads a token that cannot go on with the innermost group, whose expression is `e`. -/
def stepClose (r : ExprReader) (e : Expr) (token : Token) : Step :=
  match r.outer with
  | [] => .done e
  | ⟨.paren opener, ops⟩ :: outer =>
    match token.lexeme with
    | .symbol .rightParen =>
      .more { focus := .after (.paren (opener.join token.span) e), ops, outer }
    | _ => .fail (Enclosure.paren opener).complaint
  | ⟨.arguments callee args, ops⟩ :: outer =>
    match token.lexeme with
    | .symbol .rightParen =>
      .more
        { focus := .after (.call (callee.span.join token.span) callee (args ++ [e])), ops, outer }
    | .symbol .comma =>
      .more
        { focus := .operand, ops := [], outer := ⟨.arguments callee (args ++ [e]), ops⟩ :: outer }
    | _ => .fail (Enclosure.arguments callee args).complaint

/-- Reads a token behind the complete operand `e`. -/
def stepAfter (r : ExprReader) (e : Expr) (token : Token) : Step :=
  match token.lexeme with
  | .symbol .leftParen => .more { r with focus := .arguments e }
  | .symbol s =>
    match InfixOp.ofSymbol? s with
    | some op =>
      let (ops, left) := PendingOp.reduce op.level e r.ops
      .more { r with focus := .operand, ops := .binary left ⟨token.span, op⟩ :: ops }
    | none => r.stepClose (PendingOp.fillAll e r.ops) token
  | _ => r.stepClose (PendingOp.fillAll e r.ops) token

/-- Reads the next token. -/
def step (r : ExprReader) (token : Token) : Step :=
  match r.focus with
  | .operand => r.stepOperand token
  | .arguments callee =>
    match token.lexeme with
    | .symbol .rightParen =>
      .more { r with focus := .after (.call (callee.span.join token.span) callee []) }
    | _ =>
      stepOperand
        { focus := .operand, ops := [], outer := ⟨.arguments callee [], r.ops⟩ :: r.outer } token
  | .after e => r.stepAfter e token

/-- The expression that has been read, if nothing follows it. -/
def close (r : ExprReader) : Except ParseError.Cause Expr :=
  match r.focus, r.outer with
  | .after e, [] => .ok (PendingOp.fillAll e r.ops)
  | .after _, around :: _ => .error around.enclosure.complaint
  | _, _ => .error .expectedExpression

/-- Reads a token of a text that is a single expression. -/
def feed (r : ExprReader) (token : Token) : Except ParseError ExprReader :=
  match r.step token with
  | .more r => .ok r
  | .done _ => .error ⟨.extraneousInput, token.span⟩
  | .fail cause => .error ⟨cause, token.span⟩

/-- The expression that a list of tokens is; `endSpan` is the place behind the last one. -/
def read (tokens : List Token) (endSpan : Span) : Except ParseError Expr := do
  let r ← tokens.foldlM feed {}
  r.close.mapError (⟨·, endSpan⟩)

end ExprReader

end Stepwise
