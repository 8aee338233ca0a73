import Stepwise.Dialect
import Stepwise.Source.Span

/-!
# Errors of a program text

A cause says what is wrong with a text; `message` is the only place that words it. Reading stops at
the first error, which carries the span to blame.
-/

namespace Stepwise

/-- Statements that the language reserves keywords for but does not have. -/
inductive Reserved where
  | forLoop
  | breakOut
  | continueOn
  | returnFrom
  | function
deriving DecidableEq

/-- Statements that end with a semicolon. -/
inductive Terminated where
  | assignment
  | expression
  | var
  | makeVar
  | assign
  | print
deriving DecidableEq

/-- What is wrong with a program text. -/
inductive ParseError.Cause where
  | badCharacter (c : Char)
  | unterminatedString
  | reserved (construct : Reserved)
  | disabled (form : Form)
  | expectedSemicolon (after : Terminated)
  | expectedThenBlock
  | expectedElseBranch
  | expectedLoopBody
  | unclosedBlock
  | expectedName
  | expectedVar
  | expectedTo
  | invalidTarget
  | unclosedArguments
  | unclosedParen
  | expectedExpression
  | extraneousInput
deriving DecidableEq

/-- The wording for a construct that does not exist. -/
def Reserved.message : Reserved → String
  | .forLoop => "'for' loops are not supported"
  | .breakOut => "'break' is not supported"
  | .continueOn => "'continue' is not supported"
  | .returnFrom => "'return' is not supported"
  | .function => "function definitions are not supported"

/-- The wording for a form that the dialect leaves out. -/
def Form.disabledMessage : Form → String
  | .operatorAssign => "assignment with '=' is disabled by the syntax options"
  | .keywordAssign => "'assign' statements are disabled by the syntax options"
  | .varDecl => "'var' statements are disabled by the syntax options"
  | .makeDecl => "'make' statements are disabled by the syntax options"

/-- What a statement is called in messages. -/
def Terminated.name : Terminated → String
  | .assignment => "assignment statement"
  | .expression => "expression statement"
  | .var => "'var' statement"
  | .makeVar => "'make var' statement"
  | .assign => "'assign' statement"
  | .print => "'print' statement"

/-- The wording of a cause. -/
def ParseError.Cause.message : ParseError.Cause → String
  | .badCharacter c =>
    (if c.toNat < 128 then "bad character '" else "bad non-ascii character '") ++ c.toString ++ "'"
  | .unterminatedString => "unterminated string literal"
  | .reserved construct => construct.message
  | .disabled form => form.disabledMessage
  | .expectedSemicolon after => "expected ';' after " ++ after.name
  | .expectedThenBlock => "expected '\x7b' after condition of 'if' statement"
  | .expectedElseBranch => "expected either 'if' or '\x7b' after 'else'"
  | .expectedLoopBody => "expected '\x7b' after condition of 'while' loop"
  | .unclosedBlock => "expected '\x7d' to close block"
  | .expectedName => "expected variable name after 'var'"
  | .expectedVar => "expected 'var' after 'make'"
  | .expectedTo => "expected 'to'"
  | .invalidTarget => "invalid assignment target"
  | .unclosedArguments => "expected ')' after arguments"
  | .unclosedParen => "expected ')' to close parenthesized expression"
  | .expectedExpression => "expected expression"
  | .extraneousInput => "extraneous input"

/-- Why a text is not a program, and where. -/
structure ParseError where
  cause : ParseError.Cause
  span : Span
deriving DecidableEq

end Stepwise
