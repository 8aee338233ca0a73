/-!
# Operators

The operators of expressions and their symbols. Equality is written `==` in a program text; its own
symbol, used in messages, is a single `=`.
-/

namespace Stepwise

/-- Operators that compare two values of one type. -/
inductive Comparison where
  | equal
  | notEqual
  | greater
  | greaterEqual
  | less
  | lessEqual
deriving DecidableEq

/-- Operators that combine two values of one type into another of that type. -/
inductive Arithmetic where
  | add
  | subtract
  | multiply
  | divide
  | modulo
deriving DecidableEq

/-- Operators between two operands that are both evaluated. -/
inductive BinaryOp where
  | compare (op : Comparison)
  | arith (op : Arithmetic)
deriving DecidableEq

/-- Operators whose left operand may decide the result. -/
inductive ShortCircuitOp where
  | or
  | and
deriving DecidableEq

/-- Operators in front of one operand. -/
inductive UnaryOp where
  | negate
  | not
deriving DecidableEq

/-- The symbol of a comparison. -/
def Comparison.symbol : Comparison → String
  | .equal => "="
  | .notEqual => "!="
  | .greater => ">"
  | .greaterEqual => ">="
  | .less => "<"
  | .lessEqual => "<="

/-- The symbol of an arithmetic operator. -/
def Arithmetic.symbol : Arithmetic → String
  | .add => "+"
  | .subtract => "-"
  | .multiply => "*"
  | .divide => "/"
  | .modulo => "%"

/-- The symbol of an operator. -/
def BinaryOp.symbol : BinaryOp → String
  | .compare op => op.symbol
  | .arith op => op.symbol

/-- The symbol of an operator. -/
def ShortCircuitOp.symbol : ShortCircuitOp → String
  | .or => "||"
  | .and => "&&"

/-- The symbol of an operator. -/
def UnaryOp.symbol : UnaryOp → String
  | .negate => "-"
  | .not => "!"

/-- All binary operators. -/
def BinaryOp.all : List BinaryOp :=
  [Comparison.equal, .notEqual, .greater, .greaterEqual, .less, .lessEqual].map .compare ++
    [Arithmetic.add, .subtract, .multiply, .divide, .modulo].map .arith

/-- The binary operator with this symbol. -/
def BinaryOp.ofSymbol? (symbol : String) : Option BinaryOp :=
  BinaryOp.all.find? (·.symbol == symbol)

/-- The short-circuit operator with this symbol. -/
def ShortCircuitOp.ofSymbol? (symbol : String) : Option ShortCircuitOp :=
  [.or, .and].find? (·.symbol == symbol)

/-- The unary operator with this symbol. -/
def UnaryOp.ofSymbol? (symbol : String) : Option UnaryOp :=
  [.negate, .not].find? (·.symbol == symbol)

end Stepwise
