import Stepwise.Operator.Apply
import Stepwise.Run.Record
import Stepwise.Tree

/-!
# Evaluating expressions

Evaluation announces actions and ends with a value or with what stopped it. It only reads the
scopes, so the state is the same at all its actions, and the whole of it is one value: the list of
the actions and the result.

Operands are evaluated from left to right. A variable, a binary and a unary operation are announced
once each, after their operands; the right operand of a short-circuit operator is left alone if the
left one decides. A call is never evaluated, nor its arguments.
-/

namespace Stepwise

/-- The actions on the way to a result. -/
structure Evaluation (α : Type) where
  actions : List Action
  result : Except Stop α

namespace Evaluation

/-- A result without actions. -/
def ofResult {α : Type} (result : Except Stop α) : Evaluation α := ⟨[], result⟩

/-- Goes on with a result, if there is one. -/
def andThen {α β : Type} (x : Evaluation α) (f : α → Evaluation β) : Evaluation β :=
  match x.result with
  | .ok a =>
    let y := f a
    ⟨x.actions ++ y.actions, y.result⟩
  | .error stop => ⟨x.actions, .error stop⟩

instance : Monad Evaluation where
  pure a := ofResult (.ok a)
  bind := andThen

theorem bind_def {α β : Type} (x : Evaluation α) (f : α → Evaluation β) :
    x >>= f = x.andThen f := rfl

@[simp] theorem actions_pure {α : Type} (a : α) : (pure a : Evaluation α).actions = [] := rfl

@[simp] theorem result_pure {α : Type} (a : α) : (pure a : Evaluation α).result = .ok a := rfl

/-- What stopped early does not go on. -/
theorem andThen_of_error {α β : Type} {x : Evaluation α} {stop : Stop} (h : x.result = .error stop)
    (f : α → Evaluation β) : x.andThen f = ⟨x.actions, .error stop⟩ := by
  simp [andThen, h]

/-- The actions of both parts, in order. -/
theorem andThen_of_ok {α β : Type} {x : Evaluation α} {a : α} (h : x.result = .ok a)
    (f : α → Evaluation β) : x.andThen f = ⟨x.actions ++ (f a).actions, (f a).result⟩ := by
  simp [andThen, h]

theorem andThen_assoc {α β γ : Type} (x : Evaluation α) (f : α → Evaluation β)
    (g : β → Evaluation γ) : (x.andThen f).andThen g = x.andThen fun a => (f a).andThen g := by
  cases hx : x.result with
  | error stop => simp [andThen, hx]
  | ok a =>
    cases hf : (f a).result with
    | error stop => simp [andThen, hx, hf]
    | ok b => simp [andThen, hx, hf]

/-- Announces an action. -/
def announce (a : Action) : Evaluation Unit := ⟨[a], .ok ()⟩

/-- Stops with an error of the program. -/
def raise {α : Type} (span : Span) (fault : Fault) : Evaluation α :=
  ofResult (.error (.error ⟨fault, span⟩))

/-- Stops with a failure that is not the program's. -/
def abort {α : Type} (failure : Failure) : Evaluation α := ofResult (.error (.failure failure))

/-- A result, or a fault to blame on a place. -/
def blame {α : Type} (span : Span) : Except Fault α → Evaluation α
  | .ok a => pure a
  | .error fault => raise span fault

end Evaluation

/-- The value of the left operand that decides the result. -/
def ShortCircuitOp.decider : ShortCircuitOp → Bool
  | .or => true
  | .and => false

open Evaluation

/-- Reads a variable. -/
def Scopes.read (scopes : Scopes) (span : Span) (name : String) : Evaluation Value := do
  announce (.read span name ((scopes.lookup name).map (·.declared)))
  match scopes.lookup name with
  | none => raise span (.undeclared name)
  | some ⟨_, none⟩ => raise span (.uninitialized name)
  | some ⟨_, some v⟩ => pure v

/-- The truth value that an operand of a short-circuit operator must have. -/
def ShortCircuitOp.operand (op : ShortCircuitOp) (span : Span) : Value → Evaluation Bool
  | .bool b => pure b
  | v => raise span (.shortCircuitOperand op v.type)

/-- Evaluates an expression. -/
def Expr.eval (scopes : Scopes) : Expr → Evaluation Value
  | .var span name => scopes.read span name
  | .literal _ v => pure v
  | .paren _ inner => inner.eval scopes
  | .call span _ _ => abort (.unsupported span "function calls")
  | .shortCircuit _ left op right => do
    let a ← op.value.operand left.span (← left.eval scopes)
    if a = op.value.decider then pure (.bool a)
    else
      let b ← op.value.operand right.span (← right.eval scopes)
      pure (.bool b)
  | .binary _ left op right => do
    let a ← left.eval scopes
    let b ← right.eval scopes
    announce (.binary op ⟨left.span, a⟩ ⟨right.span, b⟩)
    blame op.span (op.value.apply a b)
  | .unary _ op operand => do
    let a ← operand.eval scopes
    announce (.unary op ⟨operand.span, a⟩)
    blame op.span (op.value.apply a)
  | .hole _ => abort .missingExpression

end Stepwise
