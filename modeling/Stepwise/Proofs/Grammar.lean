import Stepwise.Parse.Program

/-!
# The grammar

What a program looks like, as rules on derivations. A derivation is a tree with the tokens at its
leaves: a `Phrase` derives an expression and a `Clause` a statement. The rules say which trees are
derivations (`Phrase.Is`, `Clause.Is`). Each derivation has its tokens, from left to right, and the
tree that it stands for, in which every node has the span from its first to its last token.

Expressions have tiers, from the loosest to the tightest: `||`, `&&`, equality, comparison, sums
and products, all of them left-associative, then the operators in front of an operand, then calls
and what needs no parentheses.
-/

namespace Stepwise.Grammar

/-- The operators between operands with their symbols, tier by tier. -/
def tiers : List (List (Symbol × InfixOp)) :=
  [[(.doublePipe, .shortCircuit .or)],
   [(.doubleAmpersand, .shortCircuit .and)],
   [(.doubleEqual, .binary (.compare .equal)), (.bangEqual, .binary (.compare .notEqual))],
   [(.less, .binary (.compare .less)), (.lessEqual, .binary (.compare .lessEqual)),
    (.greater, .binary (.compare .greater)), (.greaterEqual, .binary (.compare .greaterEqual))],
   [(.plus, .binary (.arith .add)), (.minus, .binary (.arith .subtract))],
   [(.star, .binary (.arith .multiply)), (.slash, .binary (.arith .divide)),
    (.percent, .binary (.arith .modulo))]]

/-- The operators in front of an operand with their symbols. -/
def signs : List (Symbol × UnaryOp) := [(.bang, .not), (.minus, .negate)]

/-- Whether a symbol stands for an operator of a tier. -/
def Stands (k : Nat) (s : Symbol) (op : InfixOp) : Prop :=
  ∃ tier, tiers[k]? = some tier ∧ (s, op) ∈ tier

/-! ## Expressions -/

mutual

/-- How an expression is derived. -/
inductive Phrase where
  | var (token : Token) (name : String)
  | literal (token : Token) (value : Value)
  | paren (opener : Token) (inner : Phrase) (closer : Token)
  | call (callee : Phrase) (opener closer : Token)
  | callWith (callee : Phrase) (opener : Token) (arguments : Arguments) (closer : Token)
  | unary (op : UnaryOp) (sign : Token) (operand : Phrase)
  | binary (op : InfixOp) (left : Phrase) (sign : Token) (right : Phrase)

/-- How the arguments of a call are derived. -/
inductive Arguments where
  | first (argument : Phrase)
  | more (earlier : Arguments) (comma : Token) (argument : Phrase)

end

mutual

/-- The expressions of a tier. -/
inductive Phrase.Is : Nat → Phrase → Prop where
  | var {token : Token} {name : String} :
      token.lexeme = .identifier name → Phrase.Is 7 (.var token name)
  | literal {token : Token} {v : Value} :
      token.lexeme.value? = some v → Phrase.Is 7 (.literal token v)
  | paren {opener closer : Token} {inner : Phrase} :
      opener.lexeme = .symbol .leftParen → Phrase.Is 0 inner →
      closer.lexeme = .symbol .rightParen → Phrase.Is 7 (.paren opener inner closer)
  | call {callee : Phrase} {opener closer : Token} :
      Phrase.Is 7 callee → opener.lexeme = .symbol .leftParen →
      closer.lexeme = .symbol .rightParen → Phrase.Is 7 (.call callee opener closer)
  | callWith {callee : Phrase} {opener closer : Token} {arguments : Arguments} :
      Phrase.Is 7 callee → opener.lexeme = .symbol .leftParen → Arguments.Are arguments →
      closer.lexeme = .symbol .rightParen → Phrase.Is 7 (.callWith callee opener arguments closer)
  | unary {op : UnaryOp} {sign : Token} {s : Symbol} {operand : Phrase} :
      sign.lexeme = .symbol s → (s, op) ∈ signs → Phrase.Is 6 operand →
      Phrase.Is 6 (.unary op sign operand)
  | binary {k : Nat} {op : InfixOp} {sign : Token} {s : Symbol} {left right : Phrase} :
      sign.lexeme = .symbol s → Stands k s op → Phrase.Is k left → Phrase.Is (k + 1) right →
      Phrase.Is k (.binary op left sign right)
  /-- What binds more tightly may stand where something looser may. -/
  | tighter {k : Nat} {p : Phrase} : Phrase.Is (k + 1) p → Phrase.Is k p

/-- The argument lists: expressions with commas between them. -/
inductive Arguments.Are : Arguments → Prop where
  | first {argument : Phrase} : Phrase.Is 0 argument → Arguments.Are (.first argument)
  | more {earlier : Arguments} {comma : Token} {argument : Phrase} :
      Arguments.Are earlier → comma.lexeme = .symbol .comma → Phrase.Is 0 argument →
      Arguments.Are (.more earlier comma argument)

end

mutual

/-- The tokens of an expression. -/
def Phrase.tokens : Phrase → List Token
  | .var token _ => [token]
  | .literal token _ => [token]
  | .paren opener inner closer => opener :: (inner.tokens ++ [closer])
  | .call callee opener closer => callee.tokens ++ [opener, closer]
  | .callWith callee opener arguments closer =>
    callee.tokens ++ opener :: (arguments.tokens ++ [closer])
  | .unary _ sign operand => sign :: operand.tokens
  | .binary _ left sign right => left.tokens ++ sign :: right.tokens

/-- The tokens of a list of arguments. -/
def Arguments.tokens : Arguments → List Token
  | .first argument => argument.tokens
  | .more earlier comma argument => earlier.tokens ++ comma :: argument.tokens

end

/-- The first token of an expression. -/
def Phrase.head : Phrase → Token
  | .var token _ | .literal token _ => token
  | .paren opener _ _ => opener
  | .call callee _ _ | .callWith callee _ _ _ => callee.head
  | .unary _ sign _ => sign
  | .binary _ left _ _ => left.head

/-- The last token of an expression. -/
def Phrase.last : Phrase → Token
  | .var token _ | .literal token _ => token
  | .paren _ _ closer => closer
  | .call _ _ closer | .callWith _ _ _ closer => closer
  | .unary _ _ operand => operand.last
  | .binary _ _ _ right => right.last

/-- The span of an expression: from its first to its last token. -/
def Phrase.span (p : Phrase) : Span := p.head.span.join p.last.span

/-- An operation, with the place of its operator. -/
def operation (span : Span) (left : Expr) (op : Located InfixOp) (right : Expr) : Expr :=
  match op.value with
  | .shortCircuit o => .shortCircuit span left ⟨op.span, o⟩ right
  | .binary o => .binary span left ⟨op.span, o⟩ right

mutual

/-- The expression that is derived. -/
def Phrase.expr : Phrase → Expr
  | .var token name => .var token.span name
  | .literal token v => .literal token.span v
  | .paren opener inner closer => .paren (opener.span.join closer.span) inner.expr
  | .call callee _ closer => .call (callee.head.span.join closer.span) callee.expr []
  | .callWith callee _ arguments closer =>
    .call (callee.head.span.join closer.span) callee.expr arguments.exprs
  | .unary op sign operand =>
    .unary (sign.span.join operand.last.span) ⟨sign.span, op⟩ operand.expr
  | .binary op left sign right =>
    operation (left.head.span.join right.last.span) left.expr ⟨sign.span, op⟩ right.expr

/-- The arguments that are derived. -/
def Arguments.exprs : Arguments → List Expr
  | .first argument => [argument.expr]
  | .more earlier _ argument => earlier.exprs ++ [argument.expr]

end

/-- A derivation of an expression from a list of tokens. -/
def Phrase.Derives (p : Phrase) (tokens : List Token) : Prop := p.Is 0 ∧ p.tokens = tokens

/-! ## Statements -/

/-- How a statement is derived. -/
inductive Clause where
  | block (opener : Token) (body : List Clause) (closer : Token)
  | branch (keyword : Token) (condition : Phrase) (yes : Clause)
  | branchElse (keyword : Token) (condition : Phrase) (yes : Clause) (otherwise : Token)
    (no : Clause)
  | loop (keyword : Token) (condition : Phrase) (body : Clause)
  | print (keyword : Token) (value : Phrase) (semicolon : Token)
  | var (keyword : Token) (name : String) (nameToken semicolon : Token)
  | varWith (keyword : Token) (name : String) (nameToken equal : Token) (value : Phrase)
    (semicolon : Token)
  | makeVar (keyword varToken : Token) (name : String) (nameToken semicolon : Token)
  | assignTo (keyword : Token) (value : Phrase) (toToken : Token) (name : String)
    (nameToken semicolon : Token)
  | assign (name : String) (nameToken equal : Token) (value : Phrase) (semicolon : Token)
  | expr (value : Phrase) (semicolon : Token)

/-- Whether a statement is a block. -/
def Clause.IsBlock : Clause → Prop
  | .block _ _ _ => True
  | _ => False

/-- Whether a statement may follow `else`: it is a block or starts with `if`. -/
def Clause.IsElse : Clause → Prop
  | .block _ _ _ | .branch _ _ _ | .branchElse _ _ _ _ _ => True
  | _ => False

/-- The statements of a dialect. -/
inductive Clause.Is (d : Dialect) : Clause → Prop where
  | block {opener closer : Token} {body : List Clause} :
      opener.lexeme = .symbol .leftBrace → (∀ c ∈ body, Clause.Is d c) →
      closer.lexeme = .symbol .rightBrace → Clause.Is d (.block opener body closer)
  | branch {keyword : Token} {condition : Phrase} {yes : Clause} :
      keyword.lexeme = .keyword .if → condition.Is 0 → Clause.Is d yes → yes.IsBlock →
      Clause.Is d (.branch keyword condition yes)
  | branchElse {keyword otherwise : Token} {condition : Phrase} {yes no : Clause} :
      keyword.lexeme = .keyword .if → condition.Is 0 → Clause.Is d yes → yes.IsBlock →
      otherwise.lexeme = .keyword .else → Clause.Is d no → no.IsElse →
      Clause.Is d (.branchElse keyword condition yes otherwise no)
  | loop {keyword : Token} {condition : Phrase} {body : Clause} :
      keyword.lexeme = .keyword .while → condition.Is 0 → Clause.Is d body → body.IsBlock →
      Clause.Is d (.loop keyword condition body)
  | print {keyword semicolon : Token} {value : Phrase} :
      keyword.lexeme = .keyword .print → value.Is 0 → semicolon.lexeme = .symbol .semicolon →
      Clause.Is d (.print keyword value semicolon)
  | var {keyword nameToken semicolon : Token} {name : String} :
      d.allows .varDecl → keyword.lexeme = .keyword .var → nameToken.lexeme = .identifier name →
      semicolon.lexeme = .symbol .semicolon → Clause.Is d (.var keyword name nameToken semicolon)
  | varWith {keyword nameToken equal semicolon : Token} {name : String} {value : Phrase} :
      d.allows .varDecl → keyword.lexeme = .keyword .var → nameToken.lexeme = .identifier name →
      equal.lexeme = .symbol .equal → value.Is 0 → semicolon.lexeme = .symbol .semicolon →
      Clause.Is d (.varWith keyword name nameToken equal value semicolon)
  | makeVar {keyword varToken nameToken semicolon : Token} {name : String} :
      d.allows .makeDecl → keyword.lexeme = .keyword .make → varToken.lexeme = .keyword .var →
      nameToken.lexeme = .identifier name → semicolon.lexeme = .symbol .semicolon →
      Clause.Is d (.makeVar keyword varToken name nameToken semicolon)
  | assignTo {keyword toToken nameToken semicolon : Token} {name : String} {value : Phrase} :
      d.allows .keywordAssign → keyword.lexeme = .keyword .assign → value.Is 0 →
      toToken.lexeme = .keyword .to → nameToken.lexeme = .identifier name →
      semicolon.lexeme = .symbol .semicolon →
      Clause.Is d (.assignTo keyword value toToken name nameToken semicolon)
  | assign {nameToken equal semicolon : Token} {name : String} {value : Phrase} :
      d.allows .operatorAssign → nameToken.lexeme = .identifier name →
      equal.lexeme = .symbol .equal → value.Is 0 → semicolon.lexeme = .symbol .semicolon →
      Clause.Is d (.assign name nameToken equal value semicolon)
  | expr {value : Phrase} {semicolon : Token} :
      value.Is 0 → semicolon.lexeme = .symbol .semicolon → Clause.Is d (.expr value semicolon)

mutual

/-- The tokens of a statement. -/
def Clause.tokens : Clause → List Token
  | .block opener body closer => opener :: (Clause.tokensAll body ++ [closer])
  | .branch keyword condition yes => keyword :: (condition.tokens ++ yes.tokens)
  | .branchElse keyword condition yes otherwise no =>
    keyword :: (condition.tokens ++ yes.tokens ++ otherwise :: no.tokens)
  | .loop keyword condition body => keyword :: (condition.tokens ++ body.tokens)
  | .print keyword value semicolon => keyword :: (value.tokens ++ [semicolon])
  | .var keyword _ nameToken semicolon => [keyword, nameToken, semicolon]
  | .varWith keyword _ nameToken equal value semicolon =>
    keyword :: nameToken :: equal :: (value.tokens ++ [semicolon])
  | .makeVar keyword varToken _ nameToken semicolon => [keyword, varToken, nameToken, semicolon]
  | .assignTo keyword value toToken _ nameToken semicolon =>
    keyword :: (value.tokens ++ [toToken, nameToken, semicolon])
  | .assign _ nameToken equal value semicolon =>
    nameToken :: equal :: (value.tokens ++ [semicolon])
  | .expr value semicolon => value.tokens ++ [semicolon]

/-- The tokens of a list of statements. -/
def Clause.tokensAll : List Clause → List Token
  | [] => []
  | c :: rest => c.tokens ++ Clause.tokensAll rest

end

/-- The first token of a statement. -/
def Clause.head : Clause → Token
  | .block opener _ _ => opener
  | .branch keyword _ _ | .branchElse keyword _ _ _ _ | .loop keyword _ _ | .print keyword _ _
  | .var keyword _ _ _ | .varWith keyword _ _ _ _ _ | .makeVar keyword _ _ _ _
  | .assignTo keyword _ _ _ _ _ => keyword
  | .assign _ nameToken _ _ _ => nameToken
  | .expr value _ => value.head

/-- The last token of a statement. -/
def Clause.last : Clause → Token
  | .block _ _ closer => closer
  | .branch _ _ yes => yes.last
  | .branchElse _ _ _ _ no => no.last
  | .loop _ _ body => body.last
  | .print _ _ semicolon | .var _ _ _ semicolon | .varWith _ _ _ _ _ semicolon
  | .makeVar _ _ _ _ semicolon | .assignTo _ _ _ _ _ semicolon | .assign _ _ _ _ semicolon
  | .expr _ semicolon => semicolon

/-- The span of a statement: from its first to its last token. -/
def Clause.span (c : Clause) : Span := c.head.span.join c.last.span

mutual

/-- The statement that is derived. -/
def Clause.stmt : Clause → Stmt
  | .block opener body closer => .block (opener.span.join closer.span) (Clause.stmts body)
  | .branch keyword condition yes =>
    .branch (keyword.span.join yes.last.span) keyword.span condition.expr yes.stmt none
  | .branchElse keyword condition yes _ no =>
    .branch (keyword.span.join no.last.span) keyword.span condition.expr yes.stmt (some no.stmt)
  | .loop keyword condition body =>
    .loop (keyword.span.join body.last.span) keyword.span condition.expr body.stmt
  | .print keyword value semicolon => .print (keyword.span.join semicolon.span) value.expr
  | .var keyword name _ semicolon => .declare (keyword.span.join semicolon.span) name none
  | .varWith keyword name _ _ value semicolon =>
    .declare (keyword.span.join semicolon.span) name (some value.expr)
  | .makeVar keyword _ name _ semicolon => .declare (keyword.span.join semicolon.span) name none
  | .assignTo keyword value _ name _ semicolon =>
    .assign (keyword.span.join semicolon.span) name value.expr
  | .assign name nameToken _ value semicolon =>
    .assign (nameToken.span.join semicolon.span) name value.expr
  | .expr value semicolon => .expr (value.head.span.join semicolon.span) value.expr

/-- The statements that are derived. -/
def Clause.stmts : List Clause → List Stmt
  | [] => []
  | c :: rest => c.stmt :: Clause.stmts rest

end

/-- A derivation of a program from a list of tokens: a list of derivations of statements. -/
def Derives (d : Dialect) (clauses : List Clause) (tokens : List Token) : Prop :=
  (∀ c ∈ clauses, c.Is d) ∧ Clause.tokensAll clauses = tokens

/-- Tokens in the order of their places, none of which overlap. -/
def Ordered (tokens : List Token) : Prop := tokens.Pairwise fun a b => a.span.stop ≤ b.span.start

end Stepwise.Grammar
