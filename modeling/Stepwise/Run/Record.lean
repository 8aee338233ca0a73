import Stepwise.Operator.Basic
import Stepwise.Run.State
import Stepwise.Source.Basic

/-!
# Announced actions

A running program announces each action before it takes effect. The record of an action is the
action together with the state at that moment; what a reader is shown of it (a message, the places
in the text to mark, the values that stand for operands) follows from these two.

Three actions change the state when they are committed: printing, declaring and assigning.
-/

namespace Stepwise

/-- What a running program is about to do. -/
inductive Action where
  /-- Reads a variable, declared at `declared` if it exists. -/
  | read (span : Span) (name : String) (declared : Option Span)
  /-- Applies an operator to two values. -/
  | binary (op : Located BinaryOp) (left right : Located Value)
  /-- Applies an operator to a value. -/
  | unary (op : Located UnaryOp) (operand : Located Value)
  /-- Prints a value. -/
  | print (span : Span) (operand : Located Value)
  /-- Declares a variable, with a value or without. -/
  | declare (span : Span) (name : String) (initializer : Option (Located Value))
  /-- Gives a value to a variable, declared at `declared` if it exists. -/
  | assign (span : Span) (name : String) (value : Located Value) (declared : Option Span)
  /-- Tests the condition of a branch or a loop. -/
  | check (keyword : Span) (condition : Located Value)
deriving DecidableEq

/-- The color of a marked place. -/
structure Color where
  red : Nat
  green : Nat
  blue : Nat
deriving DecidableEq

/-- The color of operands. -/
def Color.operand : Color := ⟨50, 50, 120⟩

/-- The color of declarations. -/
def Color.declaration : Color := ⟨120, 90, 20⟩

namespace Action

/-- The wording of an action. -/
def message : Action → String
  | .read _ name _ => "read variable '" ++ name ++ "'"
  | .binary op _ _ => "evaluate operation '" ++ op.value.symbol ++ "'"
  | .unary op _ => "evaluate operation '" ++ op.value.symbol ++ "'"
  | .print _ operand => "print value '" ++ operand.value.display ++ "'"
  | .declare _ name none => "make uninitialized variable '" ++ name ++ "'"
  | .declare _ name (some init) =>
    "make variable '" ++ name ++ "' with initializer " ++ init.value.diagnostic
  | .assign _ name value _ =>
    "assign variable '" ++ name ++ "' with value " ++ value.value.diagnostic
  | .check _ _ => "check condition"

/-- The place of an action: the statement, variable, operator or keyword that it belongs to. -/
def highlight : Action → Span
  | .read span _ _ | .print span _ | .declare span _ _ | .assign span _ _ _ => span
  | .binary op _ _ => op.span
  | .unary op _ => op.span
  | .check keyword _ => keyword

/-- The values that an action works on, where they come from. -/
def operands : Action → List (Located Value)
  | .read _ _ _ | .declare _ _ none => []
  | .binary _ left right => [left, right]
  | .unary _ v | .print _ v | .declare _ _ (some v) | .assign _ _ v _ | .check _ v => [v]

/-- The declaration that an action refers to. -/
def declaration : Action → Option Span
  | .read _ _ declared | .assign _ _ _ declared => declared
  | _ => none

/-- The other places to mark: the operands, then the declaration. -/
def marks (a : Action) : List (Span × Color) :=
  a.operands.map (fun v => (v.span, .operand)) ++
    a.declaration.toList.map (fun span => (span, .declaration))

/-- What stands for each operand when its value is shown in its place. -/
def substitutions (a : Action) : List (Span × String) :=
  a.operands.map fun v => (v.span, v.value.diagnostic)

/-- The state once the action is done. -/
def commit (s : State) : Action → State
  | .print _ v => { s with output := s.output ++ v.value.display ++ "\n" }
  | .declare span name init =>
    { s with scopes := s.scopes.define name ⟨span, init.map (·.value)⟩ }
  | .assign _ name v _ => { s with scopes := (s.scopes.assign? name v.value).getD s.scopes }
  | .read _ _ _ | .binary _ _ _ | .unary _ _ | .check _ _ => s

end Action

/-- An announced action, and the state before it. -/
structure Record where
  action : Action
  state : State
deriving DecidableEq

/-- The wording of a record. -/
def Record.message (r : Record) : String := r.action.message

/-- A record for a reader: message and place, then a line for each value and the text it stands
for. -/
def Record.describe (r : Record) (source : Source) : String :=
  "\n".intercalate
    ((r.message ++ " @ " ++ source.describe r.action.highlight) ::
      r.action.substitutions.map fun (span, text) =>
        "    " ++ source.slice span ++ " => " ++ text)

end Stepwise
