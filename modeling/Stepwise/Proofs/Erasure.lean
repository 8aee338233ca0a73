import Stepwise.Proofs.Relocation
import Stepwise.Proofs.Trail

/-!
# Programs without places

What a program does depends neither on where it stands in a text, nor on parentheses that only
group, nor on what its variables are called. `Expr.bare` and `Stmt.bare` take all of that
away: places become one and the same, parentheses are dropped and names go through a map `f`.
The same is done to everything that a running program consists of, from scopes and actions up
to the whole machine.

Every function of the machine then commutes with it, as long as `f` keeps different names apart:

* `Expr.bare_eval` and `Stmt.bare_plan` for evaluations and plans;
* `Task.bare_settle` for the work between two actions, `Machine.bare_resume` for a step;
* `Machine.bare_trail` for a run: the bare program has the bare run.
-/

namespace Stepwise

open Evaluation

/-! ## Trees -/

/-- The place that stands for all places. -/
def Span.nowhere : Span := .ofLength 0 0

/-- The same without its place. -/
def Located.bare {α : Type} (x : Located α) : Located α := ⟨.nowhere, x.value⟩

mutual

/-- The expression without places and parentheses, with its variables renamed. -/
def Expr.bare (f : String → String) : Expr → Expr
  | .var _ name => .var .nowhere (f name)
  | .literal _ v => .literal .nowhere v
  | .paren _ inner => inner.bare f
  | .call _ callee arguments => .call .nowhere (callee.bare f) (Expr.bareAll f arguments)
  | .shortCircuit _ left op right => .shortCircuit .nowhere (left.bare f) op.bare (right.bare f)
  | .binary _ left op right => .binary .nowhere (left.bare f) op.bare (right.bare f)
  | .unary _ op operand => .unary .nowhere op.bare (operand.bare f)
  | .hole _ => .hole .nowhere

/-- The expressions without places and parentheses. -/
def Expr.bareAll (f : String → String) : List Expr → List Expr
  | [] => []
  | e :: rest => e.bare f :: Expr.bareAll f rest

end

mutual

/-- The statement without places and parentheses, with its variables renamed. -/
def Stmt.bare (f : String → String) : Stmt → Stmt
  | .block _ body => .block .nowhere (Stmt.bareAll f body)
  | .expr _ e => .expr .nowhere (e.bare f)
  | .print _ e => .print .nowhere (e.bare f)
  | .declare _ name initial => .declare .nowhere (f name) (initial.map (·.bare f))
  | .assign _ name e => .assign .nowhere (f name) (e.bare f)
  | .branch _ _ condition yes none =>
    .branch .nowhere .nowhere (condition.bare f) (yes.bare f) none
  | .branch _ _ condition yes (some no) =>
    .branch .nowhere .nowhere (condition.bare f) (yes.bare f) (some (no.bare f))
  | .loop _ _ condition body => .loop .nowhere .nowhere (condition.bare f) (body.bare f)
  | .hole _ => .hole .nowhere

/-- The statements without places and parentheses. -/
def Stmt.bareAll (f : String → String) : List Stmt → List Stmt
  | [] => []
  | s :: rest => s.bare f :: Stmt.bareAll f rest

end

theorem Expr.span_bare (f : String → String) : (e : Expr) → (e.bare f).span = .nowhere
  | .paren _ inner => by rw [Expr.bare, inner.span_bare]
  | .var _ _ | .literal _ _ | .call _ _ _ | .shortCircuit _ _ _ _ | .binary _ _ _ _
  | .unary _ _ _ | .hole _ => by rw [Expr.bare]; rfl

theorem Stmt.bareAll_eq_map (f : String → String) (body : List Stmt) :
    Stmt.bareAll f body = body.map (·.bare f) := by
  induction body with
  | nil => rfl
  | cons s rest ih => rw [bareAll, ih, List.map_cons]

/-! ## Scopes -/

/-- A variable without the place of its declaration. -/
def Binding.bare (b : Binding) : Binding := ⟨.nowhere, b.value⟩

/-- A scope without places, with its variables renamed. -/
def Scope.bare (f : String → String) (scope : Scope) : Scope :=
  scope.map fun (name, b) => (f name, b.bare)

/-- Nested scopes without places, with their variables renamed. -/
def Scopes.bare (f : String → String) (scopes : Scopes) : Scopes := scopes.map (Scope.bare f)

/-- A state without places, with its variables renamed. -/
def State.bare (f : String → String) (s : State) : State := ⟨s.scopes.bare f, s.output⟩

section Scopes

variable {f : String → String} (hf : Function.Injective f)

include hf

theorem Scope.get?_bare (scope : Scope) (name : String) :
    (scope.bare f).get? (f name) = (scope.get? name).map Binding.bare := by
  induction scope with
  | nil => rfl
  | cons entry rest ih =>
      obtain ⟨key, b⟩ := entry
      show Scope.get? ((f key, b.bare) :: Scope.bare f rest) (f name) = _
      rw [Scope.get?_cons, Scope.get?_cons, ih]
      -- renamed keys are equal just if the keys are
      by_cases h : name = key
      · rw [if_pos h, if_pos (congrArg f h)]
        rfl
      · rw [if_neg h, if_neg (fun heq => h (hf heq))]

theorem Scope.bare_set (scope : Scope) (name : String) (b : Binding) :
    (scope.set name b).bare f = (scope.bare f).set (f name) b.bare := by
  induction scope with
  | nil => rfl
  | cons entry rest ih =>
      obtain ⟨key, old⟩ := entry
      show _ = Scope.set (f name) b.bare ((f key, old.bare) :: Scope.bare f rest)
      rw [Scope.set, Scope.set]
      -- the renaming is injective, so the same entry is replaced
      by_cases h : key = name
      · rw [if_pos h, if_pos (congrArg f h)]
        rfl
      · rw [if_neg h, if_neg (fun heq => h (hf heq)), ← ih]
        rfl

theorem Scopes.lookup_bare (scopes : Scopes) (name : String) :
    (scopes.bare f).lookup (f name) = (scopes.lookup name).map Binding.bare := by
  induction scopes with
  | nil => rfl
  | cons scope outer ih =>
      show Scopes.lookup (scope.bare f :: Scopes.bare f outer) (f name) = _
      rw [lookup_cons, lookup_cons, ih, Scope.get?_bare hf]
      cases scope.get? name <;> rfl

theorem Scopes.bare_define (scopes : Scopes) (name : String) (b : Binding) :
    (scopes.define name b).bare f = (scopes.bare f).define (f name) b.bare := by
  cases scopes with
  | nil => rfl
  | cons scope outer => exact congrArg (· :: Scopes.bare f outer) (Scope.bare_set hf scope name b)

theorem Scopes.bare_assign? (scopes : Scopes) (name : String) (v : Value) :
    (scopes.assign? name v).map (Scopes.bare f) = (scopes.bare f).assign? (f name) v := by
  induction scopes with
  | nil => rfl
  | cons scope outer ih =>
      show _ = Scopes.assign? (f name) v (scope.bare f :: Scopes.bare f outer)
      rw [assign?, assign?, Scope.get?_bare hf]
      cases scope.get? name with
      | some b =>
          exact congrArg (fun scope => some (scope :: Scopes.bare f outer))
            (Scope.bare_set hf scope name _)
      | none =>
          show Option.map _ (Option.map _ (assign? name v outer)) = _
          rw [← ih]
          cases assign? name v outer <;> rfl

end Scopes

/-! ## What a program announces, and what stops it -/

/-- The fault with its variable renamed. -/
def Fault.rename (f : String → String) : Fault → Fault
  | .uninitialized name => .uninitialized (f name)
  | .undeclared name => .undeclared (f name)
  | fault => fault

/-- What stops a program, without its place and with its variable renamed. -/
def Stop.bare (f : String → String) : Stop → Stop
  | .error e => .error ⟨e.fault.rename f, .nowhere⟩
  | .failure (.unsupported _ feature) => .failure (.unsupported .nowhere feature)
  | .failure other => .failure other

/-- The action without places, with its variable renamed. -/
def Action.bare (f : String → String) : Action → Action
  | .read _ name declared => .read .nowhere (f name) (declared.map fun _ => .nowhere)
  | .binary op left right => .binary op.bare left.bare right.bare
  | .unary op operand => .unary op.bare operand.bare
  | .print _ operand => .print .nowhere operand.bare
  | .declare _ name initializer => .declare .nowhere (f name) (initializer.map (·.bare))
  | .assign _ name value declared =>
    .assign .nowhere (f name) value.bare (declared.map fun _ => .nowhere)
  | .check _ condition => .check .nowhere condition.bare

/-- A result without places; `g` does the same to what was computed. -/
def bareResult {α β : Type} (f : String → String) (g : α → β) : Except Stop α → Except Stop β
  | .ok a => .ok (g a)
  | .error stop => .error (stop.bare f)

/-- The evaluation without places; `g` does the same to its result. -/
def Evaluation.bare {α β : Type} (f : String → String) (g : α → β) (x : Evaluation α) :
    Evaluation β :=
  ⟨x.actions.map (Action.bare f), bareResult f g x.result⟩

section Evaluations

variable {f : String → String}

theorem Evaluation.bare_bind {α α' β β' : Type} {g : α → α'} {g' : β → β'} (x : Evaluation α)
    {k : α → Evaluation β} {k' : α' → Evaluation β'} (h : ∀ a, (k a).bare f g' = k' (g a)) :
    (x >>= k).bare f g' = x.bare f g >>= k' := by
  obtain ⟨actions, result⟩ := x
  cases result with
  | error stop => rfl
  | ok a =>
      show Evaluation.bare f g' ⟨actions ++ (k a).actions, (k a).result⟩ =
        ⟨actions.map (Action.bare f) ++ (k' (g a)).actions, (k' (g a)).result⟩
      rw [← h a, Evaluation.bare, List.map_append]
      rfl

theorem Evaluation.bare_announce_bind {β β' : Type} {g' : β → β'} (a : Action)
    {k : Unit → Evaluation β} {k' : Unit → Evaluation β'} (h : (k ()).bare f g' = k' ()) :
    (announce a >>= k).bare f g' = announce (a.bare f) >>= k' :=
  Evaluation.bare_bind (g := id) (announce a) fun _ => h

theorem Fault.bare_blame {r : Except Fault Value}
    (h : ∀ fault, r = .error fault → fault.rename f = fault)
    (span : Span) : (blame span r).bare f id = blame .nowhere r := by
  cases r with
  | ok v => rfl
  | error fault =>
      show Evaluation.mk [] (.error (.error ⟨fault.rename f, .nowhere⟩)) = _
      -- the place is dropped on both sides, and the fault names no variable
      rw [h fault rfl]
      rfl

theorem BinaryOp.rename_of_apply {op : BinaryOp} {a b : Value} {fault : Fault}
    (h : op.apply a b = .error fault) : fault.rename f = fault := by
  unfold BinaryOp.apply at h
  repeat' split at h
  all_goals cases h
  all_goals rfl

theorem UnaryOp.rename_of_apply {op : UnaryOp} {a : Value} {fault : Fault}
    (h : op.apply a = .error fault) : fault.rename f = fault := by
  unfold UnaryOp.apply at h
  split at h <;> cases h
  rfl

theorem ShortCircuitOp.bare_operand (op : ShortCircuitOp) (span : Span) (v : Value) :
    (op.operand span v).bare f id = op.operand .nowhere v := by
  cases v <;> rfl

theorem Scopes.bare_read (hf : Function.Injective f) (scopes : Scopes) (span : Span)
    (name : String) :
    (scopes.read span name).bare f id = (scopes.bare f).read .nowhere (f name) := by
  unfold Scopes.read
  rw [Scopes.lookup_bare hf]
  cases scopes.lookup name with
  | none => rfl
  | some b =>
      obtain ⟨declared, value⟩ := b
      cases value <;> rfl

/-- **Evaluation knows no places and no names.** -/
theorem Expr.bare_eval (hf : Function.Injective f) (scopes : Scopes) (e : Expr) :
    (e.eval scopes).bare f id = (e.bare f).eval (scopes.bare f) := by
  induction e using Expr.eval.induct with
  | case1 span name => exact Scopes.bare_read hf scopes span name
  | case2 span v => rfl
  | case3 span inner ih =>
      rw [Expr.bare]
      exact ih
  | case4 span callee arguments =>
      rw [Expr.bare]
      rfl
  | case5 span left op right ihl ihr =>
      rw [Expr.eval, Expr.bare, Expr.eval, ← ihl, ← ihr, Expr.span_bare, Expr.span_bare]
      refine Evaluation.bare_bind _ fun a => ?_
      refine (Evaluation.bare_bind (g := id) _ fun b => ?_).trans
        (congrArg (· >>= _) (op.value.bare_operand left.span a))
      -- the decision is about a truth value, which is kept
      show (if b = op.value.decider then _ else _ : Evaluation Value).bare f id =
        if b = op.value.decider then _ else _
      split
      · rfl
      · refine Evaluation.bare_bind _ fun c => ?_
        refine (Evaluation.bare_bind (g := id) _ fun d => ?_).trans
          (congrArg (· >>= _) (op.value.bare_operand right.span c))
        rfl
  | case6 span left op right ihl ihr =>
      rw [Expr.eval, Expr.bare, Expr.eval, ← ihl, ← ihr, Expr.span_bare, Expr.span_bare]
      refine Evaluation.bare_bind _ fun a => Evaluation.bare_bind _ fun b => ?_
      refine Evaluation.bare_announce_bind _ ?_
      exact Fault.bare_blame (fun _ => BinaryOp.rename_of_apply) op.span
  | case7 span op operand ih =>
      rw [Expr.eval, Expr.bare, Expr.eval, ← ih, Expr.span_bare]
      refine Evaluation.bare_bind _ fun a => ?_
      refine Evaluation.bare_announce_bind _ ?_
      exact Fault.bare_blame (fun _ => UnaryOp.rename_of_apply) op.span
  | case8 span =>
      rw [Expr.bare]
      rfl

end Evaluations

/-! ## Statements and the work ahead -/

/-- The task with its statement without places. -/
def Task.bare (f : String → String) : Task → Task
  | .run s => .run (s.bare f)
  | .enter => .enter
  | .leave => .leave

/-- The tasks with their statements without places. -/
def Task.bareAll (f : String → String) (tasks : List Task) : List Task := tasks.map (Task.bare f)

section Plans

variable {f : String → String}

theorem Task.bareAll_append (ts us : List Task) :
    bareAll f (ts ++ us) = bareAll f ts ++ bareAll f us := List.map_append

theorem Task.bareAll_scoped (body : List Stmt) :
    bareAll f (Task.scoped body) = Task.scoped (Stmt.bareAll f body) := by
  rw [Stmt.bareAll_eq_map]
  simp [bareAll, Task.scoped, Task.bare]

/-- A condition is tested alike. -/
theorem Expr.bare_test (hf : Function.Injective f) (condition : Expr) (keyword : Span)
    (scopes : Scopes) (yes no : List Task) :
    (condition.test keyword scopes yes no).bare f (Task.bareAll f) =
      (condition.bare f).test .nowhere (scopes.bare f) (Task.bareAll f yes)
        (Task.bareAll f no) := by
  rw [Expr.test, Expr.test, ← condition.bare_eval hf, Expr.span_bare]
  refine Evaluation.bare_bind _ fun v => Evaluation.bare_announce_bind _ ?_
  -- a value is kept, so the test comes out the same way
  cases v with
  | bool b => cases b <;> rfl
  | _ => rfl

/-- **A plan knows no places and no names.** -/
theorem Stmt.bare_plan (hf : Function.Injective f) (scopes : Scopes) (s : Stmt) :
    (s.plan scopes).bare f (Task.bareAll f) = (s.bare f).plan (scopes.bare f) := by
  cases s with
  | block span body =>
      rw [Stmt.bare, Stmt.plan, Stmt.plan, ← Task.bareAll_scoped]
      rfl
  | expr span e =>
      rw [Stmt.bare, Stmt.plan, Stmt.plan, ← e.bare_eval hf]
      exact Evaluation.bare_bind _ fun _ => rfl
  | print span e =>
      rw [Stmt.bare, Stmt.plan, Stmt.plan, ← e.bare_eval hf, Expr.span_bare]
      exact Evaluation.bare_bind _ fun v => Evaluation.bare_announce_bind _ rfl
  | declare span name initial =>
      cases initial with
      | none =>
          rw [Stmt.bare]
          exact Evaluation.bare_announce_bind _ rfl
      | some e =>
          rw [Stmt.bare, Stmt.plan, Option.map_some, Stmt.plan, ← e.bare_eval hf, Expr.span_bare]
          exact Evaluation.bare_bind _ fun v => Evaluation.bare_announce_bind _ rfl
  | assign span name e =>
      rw [Stmt.bare, Stmt.plan, Stmt.plan, ← e.bare_eval hf, Expr.span_bare,
        Scopes.lookup_bare hf]
      refine Evaluation.bare_bind _ fun v => ?_
      cases scopes.lookup name with
      | none => exact Evaluation.bare_announce_bind _ rfl
      | some b => exact Evaluation.bare_announce_bind _ rfl
  | branch span keyword condition yes no =>
      cases no with
      | none => rw [Stmt.bare, Stmt.plan, Stmt.plan, condition.bare_test hf]; rfl
      | some no => rw [Stmt.bare, Stmt.plan, Stmt.plan, condition.bare_test hf]; rfl
  | loop span keyword condition body =>
      -- the loop is among the tasks of its own plan, to be run once more
      have hloop : Task.bare f (.run (.loop span keyword condition body)) =
          .run (.loop .nowhere .nowhere (condition.bare f) (body.bare f)) := by
        rw [Task.bare, Stmt.bare]
      rw [Stmt.bare, Stmt.plan, Stmt.plan, condition.bare_test hf, ← hloop]
      rfl
  | hole span =>
      rw [Stmt.bare]
      rfl

/-- An action is committed alike. -/
theorem Action.bare_commit (hf : Function.Injective f) (a : Action) (s : State) :
    (a.commit s).bare f = (a.bare f).commit (s.bare f) := by
  cases a with
  | declare span name initializer =>
      show State.mk
          (Scopes.bare f (s.scopes.define name ⟨span, initializer.map (·.value)⟩)) s.output =
        State.mk ((s.scopes.bare f).define (f name)
          ⟨.nowhere, (initializer.map (·.bare)).map (·.value)⟩) s.output
      rw [Scopes.bare_define hf]
      cases initializer <;> rfl
  | assign span name v declared =>
      show State.mk (Scopes.bare f ((s.scopes.assign? name v.value).getD s.scopes)) s.output =
        State.mk (((s.scopes.bare f).assign? (f name) v.value).getD (s.scopes.bare f)) s.output
      rw [← Scopes.bare_assign? hf]
      cases s.scopes.assign? name v.value <;> rfl
  -- the other actions change no scope, and a printed value is kept
  | _ => rfl

end Plans

/-! ## Runs -/

/-- The pause without places. -/
def Pause.bare (f : String → String) (p : Pause) : Pause where
  state := p.state.bare f
  current := p.current.bare f
  rest := p.rest.bare f (Task.bareAll f)
  todo := Task.bareAll f p.todo

/-- The progress without places. -/
def Progress.bare (f : String → String) : Progress → Progress
  | .paused p => .paused (p.bare f)
  | .ended s stop => .ended (s.bare f) (stop.map (Stop.bare f))

/-- The machine without places. -/
def Machine.bare (f : String → String) : Machine → Machine
  | .ready program => .ready (Stmt.bareAll f program)
  | .reached progress => .reached (progress.bare f)

section Runs

variable {f : String → String}

theorem State.bare_enter (s : State) : s.enter.bare f = (s.bare f).enter := rfl

theorem State.bare_leave (s : State) : s.leave.bare f = (s.bare f).leave := by
  show State.mk (s.scopes.tail.map (Scope.bare f)) s.output =
    State.mk (s.scopes.map (Scope.bare f)).tail s.output
  rw [List.map_tail]

theorem Task.bare_unwind (s : State) (todo : List Task) :
    (unwind s todo).bare f = unwind (s.bare f) (bareAll f todo) := by
  induction todo generalizing s with
  | nil => rfl
  | cons task todo ih =>
      cases task with
      | run statement => exact ih s
      | enter => exact ih s
      | leave =>
          refine (ih s.leave).trans ?_
          rw [State.bare_leave]
          rfl

/-- What is left of a statement is done alike if the tasks that it leaves are. -/
theorem Task.bare_proceed {s : State} {rest : Evaluation (List Task)} {todo : List Task}
    (hsettle : ∀ tasks, rest.actions = [] → rest.result = .ok tasks →
      (settle s (tasks ++ todo)).bare f = settle (s.bare f) (bareAll f (tasks ++ todo))) :
    (proceed s rest todo).bare f =
      proceed (s.bare f) (rest.bare f (bareAll f)) (bareAll f todo) := by
  obtain ⟨actions, result⟩ := rest
  cases actions with
  -- the next action is announced before any task is done
  | cons current queue => rfl
  | nil =>
      cases result with
      | error stop =>
          show Progress.ended _ _ = Progress.ended _ _
          rw [bare_unwind]
          rfl
      | ok tasks =>
          show (settle s (tasks ++ todo)).bare f = settle _ (bareAll f tasks ++ bareAll f todo)
          rw [hsettle tasks rfl rfl, bareAll_append]

/-- **The work between two actions knows no places and no names.** -/
theorem Task.bare_settle (hf : Function.Injective f) (s : State) (tasks : List Task) :
    (settle s tasks).bare f = settle (s.bare f) (bareAll f tasks) := by
  match tasks with
  | [] =>
      rw [settle_nil]
      exact (settle_nil _).symm
  | .enter :: todo =>
      rw [settle_enter, bare_settle hf s.enter todo, State.bare_enter]
      exact (settle_enter _ _).symm
  | .leave :: todo =>
      rw [settle_leave, bare_settle hf s.leave todo, State.bare_leave]
      exact (settle_leave _ _).symm
  | .run statement :: todo =>
      have hrun := settle_run (s.bare f) (statement.bare f) (bareAll f todo)
      replace hrun : settle (s.bare f) (bareAll f (.run statement :: todo)) =
        proceed (s.bare f) ((statement.bare f).plan (s.scopes.bare f)) (bareAll f todo) := hrun
      rw [settle_run, hrun, ← statement.bare_plan hf s.scopes]
      refine bare_proceed fun tasks hactions hresult => ?_
      -- a statement without an action leaves less work than it is
      have hlight : total tasks < statement.weight := Stmt.total_lt_weight hactions hresult
      exact bare_settle hf s (tasks ++ todo)
termination_by total tasks
decreasing_by
  all_goals simp only [total, weight, total_append]; omega

/-- **A step knows no places and no names.** -/
theorem Machine.bare_resume (hf : Function.Injective f) (m : Machine) :
    m.resume.bare f = (m.bare f).resume := by
  cases m with
  | ready program =>
      show (Task.settle {} (Task.scoped program)).bare f =
        Task.settle {} (Task.scoped (Stmt.bareAll f program))
      rw [Task.bare_settle hf, Task.bareAll_scoped]
      rfl
  | reached progress =>
      cases progress with
      | ended s stop => rfl
      | paused p =>
          show (Task.proceed (p.current.commit p.state) p.rest p.todo).bare f = _
          rw [Task.bare_proceed fun _ _ _ => Task.bare_settle hf _ _, Action.bare_commit hf]
          rfl

/-- **The bare program has the bare run.** -/
theorem Machine.bare_trail (hf : Function.Injective f) (program : List Stmt) (n : Nat) :
    (trail program n).bare f = trail (Stmt.bareAll f program) n := by
  induction n with
  | zero => rfl
  | succ n ih =>
      rw [trail_succ, trail_succ, ← ih, ← Machine.bare_resume hf]
      rfl

end Runs

end Stepwise
