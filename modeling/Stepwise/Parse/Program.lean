import Stepwise.Parse.Expr
import Stepwise.Token.Lexer

/-!
# Reading programs

A program is read one token at a time, like its expressions. The reader keeps the blocks that are
still open and what it has read of the current statement; every token is consumed by the step that
sees it, so reading a text is one pass over its tokens.

An `if` with its `else if`s is kept as a chain of arms until it is clear that no further arm
follows.
-/

namespace Stepwise

/-- A condition with its block, in a chain of `if` and `else if`. -/
structure Arm where
  keyword : Span
  condition : Expr
  body : Stmt

/-- The branch statement of an arm, given what is done otherwise. -/
def Arm.toStmt (arm : Arm) (no : Option Stmt) : Stmt :=
  .branch (arm.keyword.join (no.getD arm.body).span) arm.keyword arm.condition arm.body no

/-- The arms of a chain that have been read. -/
structure Chain where
  last : Arm
  /-- The arms before the last one, latest first. -/
  earlier : List Arm

/-- All arms, latest first. -/
def Chain.arms (chain : Chain) : List Arm := chain.last :: chain.earlier

/-- The statement of a chain that ends with `no`: each arm is what is done instead of
the arm before it. -/
def Chain.close (chain : Chain) (no : Option Stmt) : Stmt :=
  chain.earlier.foldl (fun s arm => arm.toStmt (some s)) (chain.last.toStmt no)

/-- Where an expression stands, with what has been read of its statement. -/
inductive Site where
  /-- At the start of a statement. -/
  | statement
  /-- After `target =`. -/
  | assigned (target : Expr)
  /-- After `print`. -/
  | printed (keyword : Span)
  /-- After `var name =`. -/
  | initializer (keyword : Span) (name : String)
  /-- After `assign`. -/
  | assignValue (keyword : Span)
  /-- After `assign value to`. -/
  | assignTarget (keyword : Span) (value : Expr)
  /-- After `if`, with the arms of the chain so far. -/
  | ifCondition (earlier : List Arm) (keyword : Span)
  /-- After `while`. -/
  | loopCondition (keyword : Span)

/-- What is wrong if the expression is followed by nothing that may follow it there. -/
def Site.complaint : Site → ParseError.Cause
  | .statement => .expectedSemicolon .expression
  | .assigned _ => .expectedSemicolon .assignment
  | .printed _ => .expectedSemicolon .print
  | .initializer _ _ => .expectedSemicolon .var
  | .assignValue _ => .expectedTo
  | .assignTarget _ _ => .expectedSemicolon .assign
  | .ifCondition _ _ => .expectedThenBlock
  | .loopCondition _ => .expectedLoopBody

/-- What has been read of the current statement. -/
inductive Mode where
  /-- Nothing. -/
  | start
  /-- An expression in part. -/
  | expr (site : Site) (reader : ExprReader)
  /-- The keyword `var`. -/
  | varName (keyword : Span)
  /-- A declaration up to its name. -/
  | varRest (keyword : Span) (name : String)
  /-- The keyword `make`. -/
  | makeVar (keyword : Span)
  /-- The keywords `make var`. -/
  | makeName (keyword : Span)
  /-- A declaration with `make` up to its name. -/
  | makeEnd (keyword : Span) (name : String)
  /-- A chain up to the block of its last arm. -/
  | afterArm (chain : Chain)
  /-- A chain up to an `else`. -/
  | afterElse (chain : Chain)

/-- What is wrong if nothing comes that may come next. -/
def Mode.complaint : Mode → ParseError.Cause
  | .start | .afterArm _ => .expectedExpression
  | .expr site _ => site.complaint
  | .varName _ | .makeName _ => .expectedName
  | .varRest _ _ => .expectedSemicolon .var
  | .makeVar _ => .expectedVar
  | .makeEnd _ _ => .expectedSemicolon .makeVar
  | .afterElse _ => .expectedElseBranch

/-- What an open block is part of. -/
inductive BlockRole where
  /-- A statement of its own. -/
  | plain
  /-- An arm of a chain. -/
  | arm (earlier : List Arm) (keyword : Span) (condition : Expr)
  /-- The last block of a chain. -/
  | otherwise (chain : Chain)
  /-- The body of a loop. -/
  | loop (keyword : Span) (condition : Expr)

/-- A block whose closing brace has not been read. -/
structure OpenBlock where
  brace : Span
  role : BlockRole
  /-- The statements before it in the list that it stands in. -/
  before : List Stmt

/-- A program that has been read in part. -/
structure ProgramReader where
  mode : Mode := .start
  /-- The complete statements of the innermost list. -/
  done : List Stmt := []
  /-- The open blocks around it, innermost first. -/
  outer : List OpenBlock := []

namespace ProgramReader

/-- The reader behind a complete statement. -/
def push (r : ProgramReader) (s : Stmt) : ProgramReader :=
  { r with mode := .start, done := r.done ++ [s] }

/-- The reader behind an opening brace. -/
def openBlock (r : ProgramReader) (brace : Span) (role : BlockRole) : ProgramReader :=
  { mode := .start, done := [], outer := ⟨brace, role, r.done⟩ :: r.outer }

/-- The reader at the start of an expression. -/
def expect (r : ProgramReader) (site : Site) : ProgramReader := { r with mode := .expr site {} }

/-- The reader behind the closing brace of the block `b`, whose statements have all been read. -/
def closeBlock (r : ProgramReader) (b : OpenBlock) (outer : List OpenBlock) (brace : Span) :
    ProgramReader :=
  let block := Stmt.block (b.brace.join brace) r.done
  let around : ProgramReader := { mode := .start, done := b.before, outer }
  match b.role with
  | .plain => around.push block
  | .arm earlier keyword condition =>
    { around with mode := .afterArm ⟨⟨keyword, condition, block⟩, earlier⟩ }
  | .otherwise chain => around.push (chain.close (some block))
  | .loop keyword condition =>
    around.push (.loop (keyword.join block.span) keyword condition block)

/-- The reader behind an assignment; only a variable can be assigned to. -/
def pushAssign (r : ProgramReader) (span : Span) (target value : Expr) :
    Except ParseError ProgramReader :=
  match target with
  | .var _ name => .ok (r.push (.assign span name value))
  | _ => .error ⟨.invalidTarget, target.span⟩

/-- Reads the token behind the complete expression `e`. -/
def stepSite (d : Dialect) (r : ProgramReader) (site : Site) (e : Expr) (token : Token) :
    Except ParseError ProgramReader :=
  match site, token.lexeme with
  | .statement, .symbol .equal =>
    if d.allows .operatorAssign then .ok (r.expect (.assigned e))
    else .error ⟨.disabled .operatorAssign, token.span⟩
  | .statement, .symbol .semicolon => .ok (r.push (.expr (e.span.join token.span) e))
  | .assigned target, .symbol .semicolon => r.pushAssign (target.span.join token.span) target e
  | .printed keyword, .symbol .semicolon => .ok (r.push (.print (keyword.join token.span) e))
  | .initializer keyword name, .symbol .semicolon =>
    .ok (r.push (.declare (keyword.join token.span) name (some e)))
  | .assignValue keyword, .keyword .to => .ok (r.expect (.assignTarget keyword e))
  | .assignTarget keyword value, .symbol .semicolon =>
    r.pushAssign (keyword.join token.span) e value
  | .ifCondition earlier keyword, .symbol .leftBrace =>
    .ok (r.openBlock token.span (.arm earlier keyword e))
  | .loopCondition keyword, .symbol .leftBrace => .ok (r.openBlock token.span (.loop keyword e))
  | _, _ => .error ⟨site.complaint, token.span⟩

/-- Reads a token where an expression is being read. -/
def stepExpr (d : Dialect) (r : ProgramReader) (site : Site) (reader : ExprReader)
    (token : Token) :
    Except ParseError ProgramReader :=
  match reader.step token with
  | .more reader => .ok { r with mode := .expr site reader }
  | .done e => r.stepSite d site e token
  | .fail cause => .error ⟨cause, token.span⟩

/-- The reader at a keyword that starts a form, if the dialect has it. -/
def startForm (d : Dialect) (form : Form) (token : Token) (next : ProgramReader) :
    Except ParseError ProgramReader :=
  if d.allows form then .ok next else .error ⟨.disabled form, token.span⟩

/-- Reads the first token of a statement, or the brace that closes a block. -/
def stepStart (d : Dialect) (r : ProgramReader) (token : Token) :
    Except ParseError ProgramReader :=
  match token.lexeme, r.outer with
  | .symbol .leftBrace, _ => .ok (r.openBlock token.span .plain)
  | .symbol .rightBrace, b :: outer => .ok (r.closeBlock b outer token.span)
  | .keyword .if, _ => .ok (r.expect (.ifCondition [] token.span))
  | .keyword .while, _ => .ok (r.expect (.loopCondition token.span))
  | .keyword .print, _ => .ok (r.expect (.printed token.span))
  | .keyword .var, _ => startForm d .varDecl token { r with mode := .varName token.span }
  | .keyword .make, _ => startForm d .makeDecl token { r with mode := .makeVar token.span }
  | .keyword .assign, _ => startForm d .keywordAssign token (r.expect (.assignValue token.span))
  | .keyword .for, _ => .error ⟨.reserved .forLoop, token.span⟩
  | .keyword .break, _ => .error ⟨.reserved .breakOut, token.span⟩
  | .keyword .continue, _ => .error ⟨.reserved .continueOn, token.span⟩
  | .keyword .return, _ => .error ⟨.reserved .returnFrom, token.span⟩
  | .keyword .fn, _ => .error ⟨.reserved .function, token.span⟩
  | _, _ => r.stepExpr d .statement {} token

/-- Reads the next token. -/
def feed (d : Dialect) (r : ProgramReader) (token : Token) : Except ParseError ProgramReader :=
  match r.mode, token.lexeme with
  | .start, _ => r.stepStart d token
  | .expr site reader, _ => r.stepExpr d site reader token
  | .varName keyword, .identifier name => .ok { r with mode := .varRest keyword name }
  | .varRest keyword name, .symbol .equal => .ok (r.expect (.initializer keyword name))
  | .varRest keyword name, .symbol .semicolon =>
    .ok (r.push (.declare (keyword.join token.span) name none))
  | .makeVar keyword, .keyword .var => .ok { r with mode := .makeName keyword }
  | .makeName keyword, .identifier name => .ok { r with mode := .makeEnd keyword name }
  | .makeEnd keyword name, .symbol .semicolon =>
    .ok (r.push (.declare (keyword.join token.span) name none))
  | .afterArm chain, .keyword .else => .ok { r with mode := .afterElse chain }
  | .afterArm chain, _ => (r.push (chain.close none)).stepStart d token
  | .afterElse chain, .keyword .if => .ok (r.expect (.ifCondition chain.arms token.span))
  | .afterElse chain, .symbol .leftBrace => .ok (r.openBlock token.span (.otherwise chain))
  | mode, _ => .error ⟨mode.complaint, token.span⟩

/-- The statements that have been read, if all blocks are closed. -/
def closeList (r : ProgramReader) : Except ParseError.Cause (List Stmt) :=
  match r.outer with
  | [] => .ok r.done
  | _ :: _ => .error .unclosedBlock

/-- The program that has been read, if nothing follows. -/
def close (r : ProgramReader) : Except ParseError.Cause (List Stmt) :=
  match r.mode with
  | .start => r.closeList
  | .afterArm chain => (r.push (chain.close none)).closeList
  | .expr site reader =>
    match reader.close with
    | .ok _ => .error site.complaint
    | .error cause => .error cause
  | mode => .error mode.complaint

/-- The program that a list of tokens is; `endSpan` is the place behind the last one. -/
def read (d : Dialect) (tokens : List Token) (endSpan : Span) : Except ParseError (List Stmt) := do
  let r ← tokens.foldlM (feed d) {}
  r.close.mapError (⟨·, endSpan⟩)

end ProgramReader

namespace Source

/-- The program of a text. All of the text is split into tokens first, so that an error there comes
before any other. -/
def parse (s : Source) (d : Dialect) : Except ParseError (List Stmt) := do
  ProgramReader.read d (← s.tokens) s.endSpan

/-- The expression that a text is. -/
def parseExpr (s : Source) : Except ParseError Expr := do
  ExprReader.read (← s.tokens) s.endSpan

end Source

end Stepwise
