import Stepwise.Proofs.Effect

/-!
# What programs mean

Rules that say what an expression yields and what a statement does, with no actions, no tasks and
no pauses. An expression yields a value or what stops it, in scopes that it only reads. A
statement leads from one state to another, and has either run to its end or stopped there.

`Expr.yields_iff` says that the rules for expressions are met by exactly one result, the one of
`Expr.eval`. That the rules for statements describe the machine is the subject of
`Stepwise.Proofs.Refinement`.
-/

namespace Stepwise

open Evaluation

/-! ## Expressions -/

/-- The result of an error at a place. -/
def Fault.raisedAt {α : Type} (fault : Fault) (span : Span) : Except Stop α :=
  .error (.error ⟨fault, span⟩)

/-- A true left operand decides a disjunction, and a false one a conjunction. -/
def ShortCircuitOp.Decides (op : ShortCircuitOp) (left : Bool) : Prop :=
  op = .or ∧ left = true ∨ op = .and ∧ left = false

/-- What an expression yields. -/
inductive Expr.Yields (scopes : Scopes) : Expr → Except Stop Value → Prop where
  | var {span declared : Span} {name : String} {v : Value} :
      scopes.lookup name = some ⟨declared, some v⟩ → Yields scopes (.var span name) (.ok v)
  | uninitialized {span declared : Span} {name : String} :
      scopes.lookup name = some ⟨declared, none⟩ →
      Yields scopes (.var span name) ((Fault.uninitialized name).raisedAt span)
  | undeclared {span : Span} {name : String} :
      scopes.lookup name = none →
      Yields scopes (.var span name) ((Fault.undeclared name).raisedAt span)
  | literal {span : Span} {v : Value} : Yields scopes (.literal span v) (.ok v)
  | paren {span : Span} {e : Expr} {r : Except Stop Value} :
      Yields scopes e r → Yields scopes (.paren span e) r
  | call {span : Span} {callee : Expr} {arguments : List Expr} :
      Yields scopes (.call span callee arguments)
        (.error (.failure (.unsupported span "function calls")))
  | decided {span : Span} {left right : Expr} {op : Located ShortCircuitOp} {b : Bool} :
      Yields scopes left (.ok (.bool b)) → op.value.Decides b →
      Yields scopes (.shortCircuit span left op right) (.ok (.bool b))
  | undecided {span : Span} {left right : Expr} {op : Located ShortCircuitOp} {a b : Bool} :
      Yields scopes left (.ok (.bool a)) → ¬op.value.Decides a →
      Yields scopes right (.ok (.bool b)) →
      Yields scopes (.shortCircuit span left op right) (.ok (.bool b))
  | leftType {span : Span} {left right : Expr} {op : Located ShortCircuitOp} {v : Value} :
      Yields scopes left (.ok v) → v.type ≠ .bool →
      Yields scopes (.shortCircuit span left op right)
        ((Fault.shortCircuitOperand op.value v.type).raisedAt left.span)
  | rightType {span : Span} {left right : Expr} {op : Located ShortCircuitOp} {a : Bool}
      {v : Value} :
      Yields scopes left (.ok (.bool a)) → ¬op.value.Decides a →
      Yields scopes right (.ok v) → v.type ≠ .bool →
      Yields scopes (.shortCircuit span left op right)
        ((Fault.shortCircuitOperand op.value v.type).raisedAt right.span)
  | leftStop {span : Span} {left right : Expr} {op : Located ShortCircuitOp} {stop : Stop} :
      Yields scopes left (.error stop) →
      Yields scopes (.shortCircuit span left op right) (.error stop)
  | rightStop {span : Span} {left right : Expr} {op : Located ShortCircuitOp} {a : Bool}
      {stop : Stop} :
      Yields scopes left (.ok (.bool a)) → ¬op.value.Decides a →
      Yields scopes right (.error stop) →
      Yields scopes (.shortCircuit span left op right) (.error stop)
  /-- Both operands are evaluated, the left one first. -/
  | binary {span : Span} {left right : Expr} {op : Located BinaryOp} {a b v : Value} :
      Yields scopes left (.ok a) → Yields scopes right (.ok b) → op.value.apply a b = .ok v →
      Yields scopes (.binary span left op right) (.ok v)
  | binaryFault {span : Span} {left right : Expr} {op : Located BinaryOp} {a b : Value}
      {fault : Fault} :
      Yields scopes left (.ok a) → Yields scopes right (.ok b) →
      op.value.apply a b = .error fault →
      Yields scopes (.binary span left op right) (fault.raisedAt op.span)
  | binaryLeft {span : Span} {left right : Expr} {op : Located BinaryOp} {stop : Stop} :
      Yields scopes left (.error stop) → Yields scopes (.binary span left op right) (.error stop)
  | binaryRight {span : Span} {left right : Expr} {op : Located BinaryOp} {a : Value}
      {stop : Stop} :
      Yields scopes left (.ok a) → Yields scopes right (.error stop) →
      Yields scopes (.binary span left op right) (.error stop)
  | unary {span : Span} {e : Expr} {op : Located UnaryOp} {a v : Value} :
      Yields scopes e (.ok a) → op.value.apply a = .ok v →
      Yields scopes (.unary span op e) (.ok v)
  | unaryFault {span : Span} {e : Expr} {op : Located UnaryOp} {a : Value} {fault : Fault} :
      Yields scopes e (.ok a) → op.value.apply a = .error fault →
      Yields scopes (.unary span op e) (fault.raisedAt op.span)
  | unaryStop {span : Span} {e : Expr} {op : Located UnaryOp} {stop : Stop} :
      Yields scopes e (.error stop) → Yields scopes (.unary span op e) (.error stop)
  | hole {span : Span} : Yields scopes (.hole span) (.error (.failure .missingExpression))

theorem ShortCircuitOp.decides_iff {op : ShortCircuitOp} {b : Bool} :
    op.Decides b ↔ b = op.decider := by
  cases op <;> simp [Decides, decider]

theorem ShortCircuitOp.operand_of_type_ne {op : ShortCircuitOp} {v : Value} (h : v.type ≠ .bool)
    (span : Span) : op.operand span v = raise span (.shortCircuitOperand op v.type) := by
  cases v with
  | bool b => exact absurd rfl h
  | int n => rfl
  | float x => rfl
  | string t => rfl

theorem exists_bool_of_type {v : Value} (h : v.type = .bool) : ∃ b, v = .bool b := by
  cases v with
  | bool b => exact ⟨b, rfl⟩
  | int n => cases h
  | float x => cases h
  | string t => cases h

namespace Expr

variable {scopes : Scopes}

/-- The result of an operation whose left operand has been evaluated. -/
theorem result_bind_of_ok {α β : Type} {x : Evaluation α} {a : α} (h : x.result = .ok a)
    (f : α → Evaluation β) : (x >>= f).result = (f a).result := by
  rw [bind_def, andThen_of_ok h]

theorem result_bind_of_error {α β : Type} {x : Evaluation α} {stop : Stop}
    (h : x.result = .error stop) (f : α → Evaluation β) : (x >>= f).result = .error stop := by
  rw [bind_def, andThen_of_error h]

/-- What the rules derive is what evaluation results in. -/
theorem result_of_yields {e : Expr} {r : Except Stop Value} (h : e.Yields scopes r) :
    (e.eval scopes).result = r := by
  induction h with
  | var hname => simp only [Expr.eval, Scopes.read, hname]; rfl
  | uninitialized hname => simp only [Expr.eval, Scopes.read, hname]; rfl
  | undeclared hname => simp only [Expr.eval, Scopes.read, hname]; rfl
  | literal => rfl
  | paren _ ih => exact ih
  | call => rfl
  | decided _ hop ih =>
      rw [Expr.eval, result_bind_of_ok ih]
      -- the rule and the evaluation ask the same of the left operand
      rw [ShortCircuitOp.decides_iff] at hop
      exact (congrArg Evaluation.result (if_pos hop)).trans rfl
  | undecided _ hop _ ihl ihr =>
      rw [Expr.eval, result_bind_of_ok ihl]
      rw [ShortCircuitOp.decides_iff] at hop
      exact (congrArg Evaluation.result (if_neg hop)).trans (result_bind_of_ok ihr _)
  | leftType _ htype ih =>
      rw [Expr.eval, result_bind_of_ok ih, ShortCircuitOp.operand_of_type_ne htype]
      rfl
  | rightType _ hop _ htype ihl ihr =>
      rw [Expr.eval, result_bind_of_ok ihl]
      rw [ShortCircuitOp.decides_iff] at hop
      -- undecided, so the right operand is asked too and has the wrong type
      refine (congrArg Evaluation.result (if_neg hop)).trans ?_
      rw [result_bind_of_ok ihr, ShortCircuitOp.operand_of_type_ne htype]
      rfl
  | leftStop _ ih => rw [Expr.eval, result_bind_of_error ih]
  | rightStop _ hop _ ihl ihr =>
      rw [Expr.eval, result_bind_of_ok ihl]
      rw [ShortCircuitOp.decides_iff] at hop
      exact (congrArg Evaluation.result (if_neg hop)).trans (result_bind_of_error ihr _)
  | binary _ _ happly ihl ihr =>
      rw [Expr.eval, result_bind_of_ok ihl, result_bind_of_ok ihr, happly]
      rfl
  | binaryFault _ _ happly ihl ihr =>
      rw [Expr.eval, result_bind_of_ok ihl, result_bind_of_ok ihr, happly]
      rfl
  | binaryLeft _ ih => rw [Expr.eval, result_bind_of_error ih]
  | binaryRight _ _ ihl ihr => rw [Expr.eval, result_bind_of_ok ihl, result_bind_of_error ihr]
  | unary _ happly ih =>
      rw [Expr.eval, result_bind_of_ok ih, happly]
      rfl
  | unaryFault _ happly ih =>
      rw [Expr.eval, result_bind_of_ok ih, happly]
      rfl
  | unaryStop _ ih => rw [Expr.eval, result_bind_of_error ih]
  | hole => rfl

/-- Every expression yields something. -/
theorem exists_yields (scopes : Scopes) (e : Expr) : ∃ r, e.Yields scopes r := by
  induction e using Expr.eval.induct with
  | case1 span name =>
      -- one rule for each thing that a name can stand for
      cases hname : scopes.lookup name with
      | none => exact ⟨_, .undeclared hname⟩
      | some b =>
          obtain ⟨declared, value⟩ := b
          cases value with
          | none => exact ⟨_, .uninitialized hname⟩
          | some v => exact ⟨_, .var hname⟩
  | case2 span v => exact ⟨_, .literal⟩
  | case3 span inner ih =>
      obtain ⟨r, hr⟩ := ih
      exact ⟨r, .paren hr⟩
  | case4 span callee arguments => exact ⟨_, .call⟩
  | case5 span left op right ihl ihr =>
      obtain ⟨rl, hl⟩ := ihl
      obtain ⟨rr, hr⟩ := ihr
      cases rl with
      | error stop => exact ⟨_, .leftStop hl⟩
      | ok v =>
          -- both operands have to be truth values, the right one only if it is needed
          by_cases hv : v.type = .bool
          · obtain ⟨a, rfl⟩ := exists_bool_of_type hv
            by_cases hop : op.value.Decides a
            · exact ⟨_, .decided hl hop⟩
            · cases rr with
              | error stop => exact ⟨_, .rightStop hl hop hr⟩
              | ok w =>
                  by_cases hw : w.type = .bool
                  · obtain ⟨b, rfl⟩ := exists_bool_of_type hw
                    exact ⟨_, .undecided hl hop hr⟩
                  · exact ⟨_, .rightType hl hop hr hw⟩
          · exact ⟨_, .leftType hl hv⟩
  | case6 span left op right ihl ihr =>
      obtain ⟨rl, hl⟩ := ihl
      obtain ⟨rr, hr⟩ := ihr
      cases rl with
      | error stop => exact ⟨_, .binaryLeft hl⟩
      | ok a =>
          cases rr with
          | error stop => exact ⟨_, .binaryRight hl hr⟩
          | ok b =>
              -- the operator has a value for these operands, or finds fault with them
              cases happly : op.value.apply a b with
              | ok v => exact ⟨_, .binary hl hr happly⟩
              | error fault => exact ⟨_, .binaryFault hl hr happly⟩
  | case7 span op operand ih =>
      obtain ⟨r, hr⟩ := ih
      cases r with
      | error stop => exact ⟨_, .unaryStop hr⟩
      | ok a =>
          cases happly : op.value.apply a with
          | ok v => exact ⟨_, .unary hr happly⟩
          | error fault => exact ⟨_, .unaryFault hr happly⟩
  | case8 span => exact ⟨_, .hole⟩

/-- **The rules for expressions describe evaluation.** -/
theorem yields_iff {e : Expr} {r : Except Stop Value} :
    e.Yields scopes r ↔ (e.eval scopes).result = r := by
  constructor
  · exact result_of_yields
  · intro h
    -- something is yielded, and it can only be this result
    obtain ⟨r', hr'⟩ := exists_yields scopes e
    rw [← h, result_of_yields hr']
    exact hr'

end Expr

/-! ## Statements -/

mutual

/-- What a statement does: it leads from one state to another, where it has run to its end or has
been stopped. -/
inductive Stmt.Runs : Stmt → State → State → Option Stop → Prop where
  /-- A block has a scope of its own, which is closed however the block ends. -/
  | block {span : Span} {body : List Stmt} {s t : State} {stop : Option Stop} :
      Stmt.RunsAll body s.enter t stop → Stmt.Runs (.block span body) s t.leave stop
  | expr {span : Span} {e : Expr} {s : State} {v : Value} :
      e.Yields s.scopes (.ok v) → Stmt.Runs (.expr span e) s s none
  | print {span : Span} {e : Expr} {s : State} {v : Value} :
      e.Yields s.scopes (.ok v) →
      Stmt.Runs (.print span e) s { s with output := s.output ++ v.display ++ "\n" } none
  | declare {span : Span} {name : String} {s : State} :
      Stmt.Runs (.declare span name none) s
        { s with scopes := s.scopes.define name ⟨span, none⟩ } none
  | declareWith {span : Span} {name : String} {e : Expr} {s : State} {v : Value} :
      e.Yields s.scopes (.ok v) →
      Stmt.Runs (.declare span name (some e)) s
        { s with scopes := s.scopes.define name ⟨span, some v⟩ } none
  | assign {span : Span} {name : String} {e : Expr} {s : State} {v : Value} {scopes : Scopes} :
      e.Yields s.scopes (.ok v) → s.scopes.assign? name v = some scopes →
      Stmt.Runs (.assign span name e) s { s with scopes } none
  | undeclared {span : Span} {name : String} {e : Expr} {s : State} {v : Value} :
      e.Yields s.scopes (.ok v) → s.scopes.assign? name v = none →
      Stmt.Runs (.assign span name e) s s (some (.error ⟨.undeclared name, span⟩))
  | yes {span keyword : Span} {condition : Expr} {yes : Stmt} {no : Option Stmt} {s t : State}
      {stop : Option Stop} :
      condition.Yields s.scopes (.ok (.bool true)) → Stmt.Runs yes s t stop →
      Stmt.Runs (.branch span keyword condition yes no) s t stop
  | no {span keyword : Span} {condition : Expr} {yes no : Stmt} {s t : State}
      {stop : Option Stop} :
      condition.Yields s.scopes (.ok (.bool false)) → Stmt.Runs no s t stop →
      Stmt.Runs (.branch span keyword condition yes (some no)) s t stop
  | pass {span keyword : Span} {condition : Expr} {yes : Stmt} {s : State} :
      condition.Yields s.scopes (.ok (.bool false)) →
      Stmt.Runs (.branch span keyword condition yes none) s s none
  | branchType {span keyword : Span} {condition : Expr} {yes : Stmt} {no : Option Stmt}
      {s : State} {v : Value} :
      condition.Yields s.scopes (.ok v) → v.type ≠ .bool →
      Stmt.Runs (.branch span keyword condition yes no) s s
        (some (.error ⟨.condition v.type, condition.span⟩))
  | leave {span keyword : Span} {condition : Expr} {body : Stmt} {s : State} :
      condition.Yields s.scopes (.ok (.bool false)) →
      Stmt.Runs (.loop span keyword condition body) s s none
  /-- A loop whose body has run to its end starts again. -/
  | again {span keyword : Span} {condition : Expr} {body : Stmt} {s t u : State}
      {stop : Option Stop} :
      condition.Yields s.scopes (.ok (.bool true)) → Stmt.Runs body s t none →
      Stmt.Runs (.loop span keyword condition body) t u stop →
      Stmt.Runs (.loop span keyword condition body) s u stop
  | stopInside {span keyword : Span} {condition : Expr} {body : Stmt} {s t : State} {stop : Stop} :
      condition.Yields s.scopes (.ok (.bool true)) → Stmt.Runs body s t (some stop) →
      Stmt.Runs (.loop span keyword condition body) s t (some stop)
  | loopType {span keyword : Span} {condition : Expr} {body : Stmt} {s : State} {v : Value} :
      condition.Yields s.scopes (.ok v) → v.type ≠ .bool →
      Stmt.Runs (.loop span keyword condition body) s s
        (some (.error ⟨.condition v.type, condition.span⟩))
  /-- A statement is stopped by its expression. -/
  | stopAtOnce {statement : Stmt} {e : Expr} {s : State} {stop : Stop} :
      statement.head? = some e → e.Yields s.scopes (.error stop) →
      Stmt.Runs statement s s (some stop)
  | hole {span : Span} {s : State} : Stmt.Runs (.hole span) s s (some (.failure .missingStatement))

/-- What a list of statements does: one after the other, until one is stopped. -/
inductive Stmt.RunsAll : List Stmt → State → State → Option Stop → Prop where
  | nil {s : State} : Stmt.RunsAll [] s s none
  | cons {statement : Stmt} {rest : List Stmt} {s t u : State} {stop : Option Stop} :
      Stmt.Runs statement s t none → Stmt.RunsAll rest t u stop →
      Stmt.RunsAll (statement :: rest) s u stop
  | stop {statement : Stmt} {rest : List Stmt} {s t : State} {stop : Stop} :
      Stmt.Runs statement s t (some stop) → Stmt.RunsAll (statement :: rest) s t (some stop)

end

/-- A program starts with nothing and runs in one scope; what is seen of it is its output
and how it ended. -/
def Stmt.ProgramRuns (program : List Stmt) (output : String) (stop : Option Stop) : Prop :=
  ∃ t, Stmt.RunsAll program (State.enter {}) t stop ∧ output = t.output

end Stepwise
