import Stepwise.Proofs.Effect
import Stepwise.Run.Machine

/-!
# Transitions between two actions

Evaluating an expression and making the plan of a statement are single values elsewhere. Here they
are taken apart into transitions that look at one node each, so that what happens between two
announced actions can be counted.

A configuration has the state, the tasks ahead and a control: the point that has been reached
inside a statement. The control keeps the operations that wait for an operand (`Waiting`) and what
the statement will do with the value of its expression (`Use`). A transition is silent, or
announces an action, or is the end (`Config.tick`).

* `Config.weight` bounds the silent transitions: each of them makes it smaller
  (`Config.weight_lt_of_silent`). The weight of a loop is that of its condition alone, because the
  tasks that it leaves are behind an action;
* `Config.outcome` is the progress that a configuration stands for. Silent transitions do not
  change it, and where the machine announces something or ends, so do the transitions.
-/

namespace Stepwise

open Evaluation

/-! ## Configurations -/

/-- An operation that waits for the value of an operand. -/
inductive Waiting where
  | shortLeft (left : Span) (op : ShortCircuitOp) (right : Expr)
  | shortRight (right : Span) (op : ShortCircuitOp)
  | binaryLeft (left : Span) (op : Located BinaryOp) (right : Expr)
  | binaryRight (left : Located Value) (op : Located BinaryOp) (right : Span)
  | unary (op : Located UnaryOp) (operand : Span)

/-- What a statement does with the value of its expression, whose place is kept. -/
inductive Use where
  | discard
  | print (span operand : Span)
  | declare (span : Span) (name : String) (initializer : Span)
  | assign (span : Span) (name : String) (value : Span)
  | check (keyword : Span) (condition : Expr) (yes no : List Task)

/-- The point that has been reached inside a statement. -/
inductive Control where
  /-- Between two statements. -/
  | next
  /-- At the start of an expression. -/
  | eval (e : Expr) (waiting : List Waiting) (use : Use)
  /-- Behind an expression. -/
  | give (result : Except Stop Value) (waiting : List Waiting) (use : Use)
  /-- At an action of an expression, which has this result. -/
  | tell (a : Action) (silent : a.Silent) (result : Except Stop Value) (waiting : List Waiting)
    (use : Use)
  /-- At the last action of a statement, which leaves this to do. -/
  | act (a : Action) (leaves : Except Stop (List Task))
  /-- Behind the last action of a statement. -/
  | finish (leaves : Except Stop (List Task))

/-- The first transition of an expression. -/
def Control.ofExpr (scopes : Scopes) (waiting : List Waiting) (use : Use) : Expr → Control
  | .var span name =>
    .tell (.read span name ((scopes.lookup name).map (·.declared))) trivial
      (scopes.read span name).result waiting use
  | .literal _ v => .give (.ok v) waiting use
  | .paren _ inner => .eval inner waiting use
  | .call span _ _ => .give (.error (.failure (.unsupported span "function calls"))) waiting use
  | .shortCircuit _ left op right =>
    .eval left (.shortLeft left.span op.value right :: waiting) use
  | .binary _ left op right => .eval left (.binaryLeft left.span op right :: waiting) use
  | .unary _ op operand => .eval operand (.unary op operand.span :: waiting) use
  | .hole _ => .give (.error (.failure .missingExpression)) waiting use

/-- How an operation goes on with the value that it has waited for. -/
def Waiting.take (v : Value) (waiting : List Waiting) (use : Use) : Waiting → Control
  | .shortLeft left op right =>
    match (op.operand left v).result with
    | .error stop => .give (.error stop) waiting use
    | .ok a =>
      if a = op.decider then .give (.ok (.bool a)) waiting use
      else .eval right (.shortRight right.span op :: waiting) use
  | .shortRight right op => .give ((op.operand right v).result.map .bool) waiting use
  | .binaryLeft left op right => .eval right (.binaryRight ⟨left, v⟩ op right.span :: waiting) use
  | .binaryRight left op right =>
    .tell (.binary op left ⟨right, v⟩) trivial (blame op.span (op.value.apply left.value v)).result
      waiting use
  | .unary op operand =>
    .tell (.unary op ⟨operand, v⟩) trivial (blame op.span (op.value.apply v)).result waiting use

/-- How a statement goes on with the value of its expression. -/
def Use.take (scopes : Scopes) (v : Value) : Use → Control
  | .discard => .finish (.ok [])
  | .print span operand => .act (.print span ⟨operand, v⟩) (.ok [])
  | .declare span name initializer => .act (.declare span name (some ⟨initializer, v⟩)) (.ok [])
  | .assign span name value =>
    .act (.assign span name ⟨value, v⟩ ((scopes.lookup name).map (·.declared)))
      (if (scopes.lookup name).isSome then .ok [] else .error (.error ⟨.undeclared name, span⟩))
  | .check keyword condition yes no =>
    .act (.check keyword ⟨condition.span, v⟩) (condition.verdict yes no v)

/-- The first transition of a statement. -/
def Control.ofStmt : Stmt → Control
  | .block _ body => .finish (.ok (Task.scoped body))
  | .expr _ e => .eval e [] .discard
  | .print span e => .eval e [] (.print span e.span)
  | .declare span name none => .act (.declare span name none) (.ok [])
  | .declare span name (some e) => .eval e [] (.declare span name e.span)
  | .assign span name e => .eval e [] (.assign span name e.span)
  | .branch _ keyword condition yes no =>
    .eval condition [] (.check keyword condition [.run yes] (no.toList.map .run))
  | .loop span keyword condition body =>
    .eval condition []
      (.check keyword condition [.run body, .run (.loop span keyword condition body)] [])
  | .hole _ => .finish (.error (.failure .missingStatement))

/-- A program between two transitions. -/
structure Config where
  state : State
  control : Control
  todo : List Task

/-- What a transition comes to. -/
inductive Tick where
  /-- Nothing is announced. -/
  | silent (after : Config)
  /-- An action is announced, and committed as soon as the program goes on. -/
  | announces (a : Action) (after : Config)
  /-- The program has ended. -/
  | ended (state : State) (stop : Option Stop)

namespace Config

/-- The configuration at the start of a program. -/
def start (program : List Stmt) : Config := ⟨{}, .next, Task.scoped program⟩

/-- One transition. -/
def tick (c : Config) : Tick :=
  match c.control, c.todo with
  | .next, [] => .ended c.state none
  | .next, .enter :: todo => .silent ⟨c.state.enter, .next, todo⟩
  | .next, .leave :: todo => .silent ⟨c.state.leave, .next, todo⟩
  | .next, .run s :: todo => .silent ⟨c.state, .ofStmt s, todo⟩
  | .eval e waiting use, todo => .silent ⟨c.state, .ofExpr c.state.scopes waiting use e, todo⟩
  | .give (.ok v) (w :: waiting) use, todo => .silent ⟨c.state, w.take v waiting use, todo⟩
  | .give (.ok v) [] use, todo => .silent ⟨c.state, use.take c.state.scopes v, todo⟩
  | .give (.error stop) (_ :: waiting) use, todo =>
    .silent ⟨c.state, .give (.error stop) waiting use, todo⟩
  | .give (.error stop) [] _, todo => .silent ⟨c.state, .finish (.error stop), todo⟩
  | .tell a _ result waiting use, todo =>
    .announces a ⟨a.commit c.state, .give result waiting use, todo⟩
  | .act a leaves, todo => .announces a ⟨a.commit c.state, .finish leaves, todo⟩
  | .finish (.ok tasks), todo => .silent ⟨c.state, .next, tasks ++ todo⟩
  | .finish (.error stop), [] => .ended c.state (some stop)
  -- what stops a statement closes the scopes around it, one after the other
  | .finish (.error stop), .leave :: todo => .silent ⟨c.state.leave, .finish (.error stop), todo⟩
  | .finish (.error stop), .run _ :: todo => .silent ⟨c.state, .finish (.error stop), todo⟩
  | .finish (.error stop), .enter :: todo => .silent ⟨c.state, .finish (.error stop), todo⟩

end Config

/-! ## How long a program can be silent -/

/-- A bound on the silent transitions of an expression. -/
def Expr.effort : Expr → Nat
  | .var _ _ | .literal _ _ | .call _ _ _ | .hole _ => 1
  | .paren _ inner => inner.effort + 1
  | .shortCircuit _ left _ right => left.effort + right.effort + 3
  | .binary _ left _ right => left.effort + right.effort + 3
  | .unary _ _ operand => operand.effort + 2

/-- A bound on the silent transitions of an operation once it has the operand. -/
def Waiting.effort : Waiting → Nat
  | .shortLeft _ _ right | .binaryLeft _ _ right => right.effort + 2
  | .shortRight _ _ | .binaryRight _ _ _ | .unary _ _ => 1

/-- The sum of these bounds. -/
def Waiting.efforts : List Waiting → Nat
  | [] => 0
  | w :: waiting => w.effort + efforts waiting

mutual

/-- A bound on the silent transitions of a statement before its own action: the bodies of branches
and loops come behind it and do not count. -/
def Stmt.effort : Stmt → Nat
  | .block _ body => Stmt.efforts body + 4
  | .expr _ e | .print _ e | .declare _ _ (some e) | .assign _ _ e | .branch _ _ e _ _
  | .loop _ _ e _ => e.effort + 3
  | .declare _ _ none => 1
  | .hole _ => 2

/-- The sum of these bounds. -/
def Stmt.efforts : List Stmt → Nat
  | [] => 0
  | s :: rest => s.effort + Stmt.efforts rest

end

/-- A bound on the silent transitions of a task. -/
def Task.effort : Task → Nat
  | .run s => s.effort
  | .enter | .leave => 1

/-- The sum of these bounds. -/
def Task.efforts : List Task → Nat
  | [] => 0
  | t :: todo => t.effort + efforts todo

/-- A bound on the silent transitions inside a statement. -/
def Control.effort : Control → Nat
  | .next | .tell _ _ _ _ _ | .act _ _ => 0
  | .eval e waiting _ => e.effort + Waiting.efforts waiting + 2
  | .give _ waiting _ => Waiting.efforts waiting + 2
  | .finish (.ok tasks) => Task.efforts tasks + 1
  | .finish (.error _) => 1

/-- A bound on the silent transitions of a configuration. -/
def Config.weight (c : Config) : Nat := c.control.effort + Task.efforts c.todo

theorem Task.efforts_append (ts us : List Task) :
    efforts (ts ++ us) = efforts ts + efforts us := by
  induction ts with
  | nil => simp [efforts]
  | cons t ts ih => simp [efforts, ih, Nat.add_assoc]

theorem Task.efforts_map_run (body : List Stmt) : efforts (body.map .run) = Stmt.efforts body := by
  induction body with
  | nil => rfl
  | cons s rest ih => simp [efforts, effort, Stmt.efforts, ih]

theorem Expr.effort_pos (e : Expr) : 0 < e.effort := by
  cases e <;> simp [effort]

theorem Stmt.effort_pos (s : Stmt) : 0 < s.effort := by
  cases s with
  | declare span name initializer => cases initializer <;> simp [effort]
  | _ => simp [effort]

theorem Task.effort_pos (t : Task) : 0 < t.effort := by
  cases t with
  | run s => exact s.effort_pos
  | enter => exact Nat.one_pos
  | leave => exact Nat.one_pos

theorem Control.effort_ofExpr_lt (scopes : Scopes) (waiting : List Waiting) (use : Use)
    (e : Expr) :
    (ofExpr scopes waiting use e).effort < (eval e waiting use).effort := by
  cases e with
  | _ => simp only [ofExpr, effort, Waiting.efforts, Waiting.effort, Expr.effort]; omega

theorem Waiting.effort_take_lt (v : Value) (waiting : List Waiting) (use : Use) (w : Waiting) :
    (w.take v waiting use).effort < (Control.give (.ok v) (w :: waiting) use).effort := by
  cases w with
  -- the right operand may be skipped, so its effort is spent or saved
  | shortLeft left op right =>
      simp only [take]
      split
      · simp only [Control.effort, efforts, effort]
        omega
      · split
        · simp only [Control.effort, efforts, effort]
          omega
        · simp only [Control.effort, efforts, effort]
          omega
  | _ => simp only [take, Control.effort, efforts, effort]; omega

theorem Use.effort_take_lt (scopes : Scopes) (v : Value) (use : Use) :
    (use.take scopes v).effort < (Control.give (.ok v) [] use).effort := by
  cases use with
  | _ => simp [take, Control.effort, Waiting.efforts, Task.efforts]

theorem Control.effort_ofStmt_lt (s : Stmt) : (ofStmt s).effort < s.effort := by
  cases s with
  -- the statements of a block count as part of it, and its two scope tasks are paid for
  | block span body =>
      simp only [ofStmt, effort, Stmt.effort, Task.scoped, Task.efforts, Task.efforts_append,
        Task.efforts_map_run, Task.effort]
      omega
  | declare span name initializer =>
      cases initializer with
      | none => exact Nat.one_pos
      | some e => simp only [ofStmt, effort, Stmt.effort, Waiting.efforts]; omega
  | hole span => exact Nat.lt_succ_self 1
  | _ => simp only [ofStmt, effort, Stmt.effort, Waiting.efforts]; omega

/-- **A silent transition makes a configuration lighter.** -/
theorem Config.weight_lt_of_silent {c after : Config} (h : c.tick = .silent after) :
    after.weight < c.weight := by
  obtain ⟨state, control, todo⟩ := c
  cases control with
  | next =>
      cases todo with
      | nil => cases h
      | cons t todo =>
          cases t with
          | run s =>
              cases h
              have hlt := Control.effort_ofStmt_lt s
              show (Control.ofStmt s).effort + Task.efforts todo <
                0 + (s.effort + Task.efforts todo)
              omega
          | enter =>
              cases h
              simp only [weight, Control.effort, Task.efforts, Task.effort]
              omega
          | leave =>
              cases h
              simp only [weight, Control.effort, Task.efforts, Task.effort]
              omega
  | eval e waiting use =>
      cases h
      exact Nat.add_lt_add_right (Control.effort_ofExpr_lt _ waiting use e) _
  | give result waiting use =>
      cases result with
      | ok v =>
          cases waiting with
          | nil =>
              cases h
              exact Nat.add_lt_add_right (use.effort_take_lt _ v) _
          | cons w waiting =>
              cases h
              exact Nat.add_lt_add_right (w.effort_take_lt v waiting use) _
      | error stop =>
          cases waiting with
          | nil =>
              cases h
              simp only [weight, Control.effort, Waiting.efforts]
              omega
          | cons w waiting =>
              cases h
              -- an error passes the waiting operation by
              have hpos : 0 < w.effort := by cases w <;> simp [Waiting.effort]
              simp only [weight, Control.effort, Waiting.efforts]
              omega
  | tell a silent result waiting use => cases h
  | act a leaves => cases h
  | finish leaves =>
      cases leaves with
      | ok tasks =>
          cases h
          simp only [weight, Control.effort, Task.efforts_append]
          omega
      | error stop =>
          cases todo with
          | nil => cases h
          | cons t todo =>
              -- nor is a task done any more, but each passed one is work saved
              have hpos := t.effort_pos
              cases t <;> cases h <;> simp only [weight, Control.effort, Task.efforts] <;> omega

/-! ## What a configuration stands for -/

namespace Evaluation

variable {α β : Type}

/-- The evaluation with one more action in front. -/
def behind (a : Action) (x : Evaluation α) : Evaluation α := ⟨a :: x.actions, x.result⟩

theorem announce_bind (a : Action) (f : Unit → Evaluation β) :
    announce a >>= f = (f ()).behind a := rfl

theorem behind_bind (a : Action) (x : Evaluation α) (f : α → Evaluation β) :
    x.behind a >>= f = (x >>= f).behind a := by
  cases h : x.result with
  | ok v => simp only [bind_def, behind, andThen, h, List.cons_append]
  | error stop => simp only [bind_def, behind, andThen, h]

theorem bind_assoc {γ : Type} (x : Evaluation α) (f : α → Evaluation β) (g : β → Evaluation γ) :
    x >>= f >>= g = x >>= fun a => f a >>= g := andThen_assoc x f g

end Evaluation

/-- What an operation does with the operand that it has waited for. -/
def Waiting.resume (scopes : Scopes) (v : Value) : Waiting → Evaluation Value
  | .shortLeft left op right => do
    let a ← op.operand left v
    if a = op.decider then pure (.bool a)
    else
      let b ← op.operand right.span (← right.eval scopes)
      pure (.bool b)
  | .shortRight right op => do
    let b ← op.operand right v
    pure (.bool b)
  | .binaryLeft left op right => do
    let b ← right.eval scopes
    announce (.binary op ⟨left, v⟩ ⟨right.span, b⟩)
    blame op.span (op.value.apply v b)
  | .binaryRight left op right => do
    announce (.binary op left ⟨right, v⟩)
    blame op.span (op.value.apply left.value v)
  | .unary op operand => do
    announce (.unary op ⟨operand, v⟩)
    blame op.span (op.value.apply v)

/-- What the operations do with the first operand, one inside the other. -/
def Waiting.resumeAll (scopes : Scopes) : List Waiting → Value → Evaluation Value
  | [], v => pure v
  | w :: waiting, v => w.resume scopes v >>= resumeAll scopes waiting

/-- What a statement does with the value of its expression. -/
def Use.resume (scopes : Scopes) (v : Value) : Use → Evaluation (List Task)
  | .discard => pure []
  | .print span operand => do
    announce (.print span ⟨operand, v⟩)
    pure []
  | .declare span name initializer => do
    announce (.declare span name (some ⟨initializer, v⟩))
    pure []
  | .assign span name value => do
    announce (.assign span name ⟨value, v⟩ ((scopes.lookup name).map (·.declared)))
    if (scopes.lookup name).isSome then pure [] else raise span (.undeclared name)
  | .check keyword condition yes no => do
    announce (.check keyword ⟨condition.span, v⟩)
    ofResult (condition.verdict yes no v)

/-- What is done with a value inside a statement. -/
def Control.resume (scopes : Scopes) (waiting : List Waiting) (use : Use) (v : Value) :
    Evaluation (List Task) :=
  Waiting.resumeAll scopes waiting v >>= fun v => use.resume scopes v

/-- What is left of a statement. -/
def Control.rest (scopes : Scopes) : Control → Evaluation (List Task)
  | .next => pure []
  | .eval e waiting use => e.eval scopes >>= resume scopes waiting use
  | .give result waiting use => ofResult result >>= resume scopes waiting use
  | .tell a _ result waiting use => (ofResult result >>= resume scopes waiting use).behind a
  | .act a leaves => (ofResult leaves).behind a
  | .finish leaves => ofResult leaves

/-- The progress that a configuration comes to. -/
def Config.outcome (c : Config) : Progress :=
  Task.proceed c.state (c.control.rest c.state.scopes) c.todo

theorem Control.resume_cons (scopes : Scopes) (w : Waiting) (waiting : List Waiting) (use : Use)
    (v : Value) :
    resume scopes (w :: waiting) use v = w.resume scopes v >>= resume scopes waiting use :=
  Evaluation.bind_assoc _ _ _

/-- A short-circuit operator takes the truth value of an operand, or stops. -/
theorem ShortCircuitOp.operand_eq_ofResult (op : ShortCircuitOp) (span : Span) (v : Value) :
    op.operand span v = ofResult (op.operand span v).result := by
  cases v <;> rfl

theorem Evaluation.blame_eq_ofResult {α : Type} (span : Span) (r : Except Fault α) :
    blame span r = ofResult (blame span r).result := by
  cases r <;> rfl

theorem Scopes.read_eq_behind (scopes : Scopes) (span : Span) (name : String) :
    scopes.read span name =
      (ofResult (scopes.read span name).result).behind
        (.read span name ((scopes.lookup name).map (·.declared))) := by
  unfold Scopes.read
  cases scopes.lookup name with
  | none => rfl
  | some b =>
      obtain ⟨declared, value⟩ := b
      cases value <;> rfl

theorem Control.rest_ofExpr (scopes : Scopes) (waiting : List Waiting) (use : Use) (e : Expr) :
    (ofExpr scopes waiting use e).rest scopes = (eval e waiting use).rest scopes := by
  cases e with
  | var span name =>
      show _ = scopes.read span name >>= resume scopes waiting use
      rw [Scopes.read_eq_behind, Evaluation.behind_bind]
      rfl
  | literal span v => rfl
  | paren span inner => rfl
  | call span callee arguments => rfl
  -- the operation becomes the innermost one that waits, and associativity brings it there
  | shortCircuit span left op right =>
      simp only [ofExpr, rest, Expr.eval, Evaluation.bind_assoc]
      refine congrArg (left.eval scopes >>= ·) (funext fun v => ?_)
      rw [resume_cons]
      simp only [Waiting.resume, Evaluation.bind_assoc]
  | binary span left op right =>
      simp only [ofExpr, rest, Expr.eval, Evaluation.bind_assoc]
      refine congrArg (left.eval scopes >>= ·) (funext fun v => ?_)
      rw [resume_cons]
      simp only [Waiting.resume, Evaluation.bind_assoc]
  | unary span op operand =>
      simp only [ofExpr, rest, Expr.eval, Evaluation.bind_assoc]
      refine congrArg (operand.eval scopes >>= ·) (funext fun v => ?_)
      rw [resume_cons]
      simp only [Waiting.resume, Evaluation.bind_assoc]
  | hole span => rfl

theorem Waiting.rest_take (scopes : Scopes) (v : Value) (waiting : List Waiting) (use : Use)
    (w : Waiting) :
    (w.take v waiting use).rest scopes =
      (Control.give (.ok v) (w :: waiting) use).rest scopes := by
  show _ = Control.resume scopes (w :: waiting) use v
  rw [Control.resume_cons]
  cases w with
  | shortLeft left op right =>
      simp only [take, resume]
      rw [ShortCircuitOp.operand_eq_ofResult op left v]
      cases (op.operand left v).result with
      | error stop => rfl
      | ok a =>
          show (if a = op.decider then _ else _ : Control).rest scopes =
            (if a = op.decider then _ else _) >>= _
          -- the left operand decides, or the operation waits for the right one
          by_cases h : a = op.decider
          · simp only [h, if_true]
            rfl
          · simp only [h, if_false, Control.rest, Evaluation.bind_assoc]
            refine congrArg (right.eval scopes >>= ·) (funext fun b => ?_)
            rw [Control.resume_cons]
            simp only [resume, Evaluation.bind_assoc]
  | shortRight right op =>
      simp only [take, resume]
      rw [ShortCircuitOp.operand_eq_ofResult op right v]
      cases (op.operand right v).result <;> rfl
  | binaryLeft left op right =>
      simp only [take, resume, Control.rest, Evaluation.bind_assoc]
      refine congrArg (right.eval scopes >>= ·) (funext fun b => ?_)
      rw [Control.resume_cons]
      simp only [resume, Evaluation.bind_assoc]
  | binaryRight left op right =>
      simp only [take, resume, Evaluation.announce_bind, Evaluation.behind_bind]
      rw [Evaluation.blame_eq_ofResult]
      rfl
  | unary op operand =>
      simp only [take, resume, Evaluation.announce_bind, Evaluation.behind_bind]
      rw [Evaluation.blame_eq_ofResult]
      rfl

theorem Use.rest_take (scopes : Scopes) (v : Value) (use : Use) :
    (use.take scopes v).rest scopes = (Control.give (.ok v) [] use).rest scopes := by
  show _ = use.resume scopes v
  cases use with
  | assign span name value =>
      simp only [take, resume]
      split <;> rfl
  | _ => rfl

theorem Expr.test_eq_resume (condition : Expr) (keyword : Span) (scopes : Scopes)
    (yes no : List Task) :
    condition.test keyword scopes yes no =
      condition.eval scopes >>= fun v => (Use.check keyword condition yes no).resume scopes v := by
  refine congrArg (condition.eval scopes >>= ·) (funext fun v => ?_)
  cases v with
  | bool b => cases b <;> rfl
  | _ => rfl

/-- The first transition of a statement stands for its plan. -/
theorem Control.rest_ofStmt (scopes : Scopes) (s : Stmt) :
    (ofStmt s).rest scopes = s.plan scopes := by
  cases s with
  | declare span name initializer => cases initializer <;> rfl
  | branch span keyword condition yes no =>
      rw [Stmt.plan, Expr.test_eq_resume]
      rfl
  | loop span keyword condition body =>
      rw [Stmt.plan, Expr.test_eq_resume]
      rfl
  | _ => rfl

namespace Config

variable {c after : Config}

/-- **A silent transition changes nothing of what the program comes to.** -/
theorem outcome_of_silent (h : c.tick = .silent after) : after.outcome = c.outcome := by
  obtain ⟨state, control, todo⟩ := c
  cases control with
  | next =>
      show _ = Task.settle state todo
      cases todo with
      | nil => cases h
      | cons t todo =>
          cases t with
          | run s =>
              cases h
              rw [Task.settle_run, ← Control.rest_ofStmt]
              rfl
          | enter =>
              cases h
              rw [Task.settle_enter]
              rfl
          | leave =>
              cases h
              rw [Task.settle_leave]
              rfl
  | eval e waiting use =>
      cases h
      exact congrArg (Task.proceed state · todo) (Control.rest_ofExpr _ waiting use e)
  | give result waiting use =>
      cases result with
      | ok v =>
          cases waiting with
          | nil =>
              cases h
              exact congrArg (Task.proceed state · todo) (use.rest_take _ v)
          | cons w waiting =>
              cases h
              exact congrArg (Task.proceed state · todo) (w.rest_take _ v waiting use)
      | error stop => cases waiting <;> cases h <;> rfl
  | tell a silent result waiting use => cases h
  | act a leaves => cases h
  | finish leaves =>
      cases leaves with
      | ok tasks =>
          cases h
          rfl
      | error stop =>
          cases todo with
          | nil => cases h
          | cons t todo => cases t <;> cases h <;> rfl

/-- **An action is announced by the transitions just if the machine announces it**, and committing
it leads on to the same progress. -/
theorem outcome_of_announces {a : Action} (h : c.tick = .announces a after) :
    ∃ p : Pause, c.outcome = .paused p ∧ p.record = ⟨a, c.state⟩ ∧ p.resume = after.outcome := by
  obtain ⟨state, control, todo⟩ := c
  cases control with
  | next =>
      cases todo with
      | nil => cases h
      | cons t todo => cases t <;> cases h
  | eval e waiting use => cases h
  | give result waiting use => cases result <;> cases waiting <;> cases h
  | tell a silent result waiting use =>
      cases h
      refine ⟨⟨state, a, _, todo⟩, rfl, rfl, ?_⟩
      show Task.proceed (a.commit state) _ todo =
        Task.proceed (a.commit state) (Control.rest (a.commit state).scopes _) todo
      -- an action of an expression changes no scope, so the rest is evaluated in the same ones
      rw [Action.commit_of_silent silent]
      rfl
  | act a leaves =>
      cases h
      exact ⟨⟨state, a, ofResult leaves, todo⟩, rfl, rfl, rfl⟩
  | finish leaves =>
      cases leaves with
      | ok tasks => cases h
      | error stop =>
          cases todo with
          | nil => cases h
          | cons t todo => cases t <;> cases h

/-- The transitions end where the machine does. -/
theorem outcome_of_ended {t : State} {stop : Option Stop} (h : c.tick = .ended t stop) :
    c.outcome = .ended t stop := by
  obtain ⟨state, control, todo⟩ := c
  cases control with
  | next =>
      cases todo with
      | nil =>
          cases h
          exact Task.settle_nil state
      | cons task todo => cases task <;> cases h
  | eval e waiting use => cases h
  | give result waiting use => cases result <;> cases waiting <;> cases h
  | tell a silent result waiting use => cases h
  | act a leaves => cases h
  | finish leaves =>
      cases leaves with
      | ok tasks => cases h
      | error stop =>
          cases todo with
          | nil =>
              cases h
              rfl
          | cons task todo => cases task <;> cases h

end Config

end Stepwise
