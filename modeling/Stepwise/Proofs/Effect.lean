import Stepwise.Run.Plan

/-!
# What actions do, and what plans consist of

Most actions are silent: they announce something that leaves the state as it is. All actions
of an expression are. A statement that evaluates an expression starts with it, and stops with
it; if there is a value, one more action follows, which is the only one of the statement that
may not be silent.
-/

namespace Stepwise

open Evaluation

/-- Whether an action leaves the state as it is. -/
def Action.Silent : Action → Prop
  | .read _ _ _ | .binary _ _ _ | .unary _ _ | .check _ _ => True
  | .print _ _ | .declare _ _ _ | .assign _ _ _ _ => False

theorem Action.commit_of_silent {a : Action} (h : a.Silent) (s : State) : a.commit s = s := by
  cases a with
  | read span name declared => rfl
  | binary op left right => rfl
  | unary op operand => rfl
  | check keyword condition => rfl
  | print span operand => exact h.elim
  | declare span name initializer => exact h.elim
  | assign span name value declared => exact h.elim

/-- The state once all of the actions are done. -/
def State.commitAll (s : State) (actions : List Action) : State :=
  actions.foldl (fun s a => a.commit s) s

namespace State

@[simp] theorem commitAll_nil (s : State) : s.commitAll [] = s := rfl

@[simp] theorem commitAll_cons (s : State) (a : Action) (actions : List Action) :
    s.commitAll (a :: actions) = (a.commit s).commitAll actions := rfl

theorem commitAll_append (s : State) (xs ys : List Action) :
    s.commitAll (xs ++ ys) = (s.commitAll xs).commitAll ys := List.foldl_append

theorem commitAll_of_silent {actions : List Action} (h : ∀ a ∈ actions, a.Silent) (s : State) :
    s.commitAll actions = s := by
  induction actions with
  | nil => rfl
  | cons a actions ih =>
      rw [commitAll_cons, Action.commit_of_silent (h a List.mem_cons_self)]
      exact ih fun b hb => h b (List.mem_cons_of_mem _ hb)

end State

/-! ## Expressions -/

namespace Evaluation

/-- Whether all actions of an evaluation have a property. -/
def All {α : Type} (P : Action → Prop) (x : Evaluation α) : Prop := ∀ a ∈ x.actions, P a

variable {α β : Type} {P Q : Action → Prop}

theorem All.mono {x : Evaluation α} (hx : x.All P) (h : ∀ a, P a → Q a) : x.All Q :=
  fun a ha => h a (hx a ha)

theorem all_ofResult (result : Except Stop α) : (ofResult result).All P := by
  intro a ha
  exact absurd ha (by simp [ofResult])

theorem all_announce {a : Action} (h : P a) : (announce a).All P := by
  intro b hb
  rw [announce, List.mem_singleton] at hb
  exact hb ▸ h

theorem all_bind {x : Evaluation α} {f : α → Evaluation β} (hx : x.All P) (hf : ∀ a, (f a).All P) :
    (x >>= f).All P := by
  intro b hb
  rw [bind_def] at hb
  cases h : x.result with
  | error stop => rw [andThen_of_error h] at hb; exact hx b hb
  | ok a =>
      rw [andThen_of_ok h] at hb
      rcases List.mem_append.mp hb with hb | hb
      · exact hx b hb
      · exact hf a b hb

theorem all_blame (span : Span) (r : Except Fault α) : (blame span r).All P := by
  cases r with
  | ok a => exact all_ofResult (.ok a)
  | error fault => exact all_ofResult (.error (.error ⟨fault, span⟩))

end Evaluation

theorem ShortCircuitOp.all_operand {P : Action → Prop} (op : ShortCircuitOp) (span : Span)
    (v : Value) : (op.operand span v).All P := by
  cases v <;> exact all_ofResult _

theorem Scopes.all_read {P : Action → Prop} {scopes : Scopes} {span : Span} {name : String}
    (h : P (.read span name ((scopes.lookup name).map (·.declared)))) :
    (scopes.read span name).All P := by
  refine all_bind (all_announce h) fun _ => ?_
  split <;> exact all_ofResult _

/-- Expressions announce nothing that changes the state. -/
theorem Expr.silent_eval (scopes : Scopes) (e : Expr) : (e.eval scopes).All Action.Silent := by
  induction e using Expr.eval.induct with
  | case1 span name => exact Scopes.all_read trivial
  | case2 span v => exact all_ofResult (.ok v)
  | case3 span inner ih => exact ih
  | case4 span callee arguments => exact all_ofResult _
  | case5 span left op right ihl ihr =>
      refine all_bind ihl fun a => all_bind (op.value.all_operand _ a) fun b => ?_
      -- the right operand is evaluated only if the left one does not decide
      split
      · exact all_ofResult (.ok (Value.bool b))
      · refine all_bind ihr fun c => all_bind (op.value.all_operand _ c) fun d => ?_
        exact all_ofResult (.ok (Value.bool d))
  | case6 span left op right ihl ihr =>
      refine all_bind ihl fun a => all_bind ihr fun b => ?_
      exact all_bind (all_announce trivial) fun _ => all_blame _ _
  | case7 span op operand ih =>
      refine all_bind ih fun a => ?_
      exact all_bind (all_announce trivial) fun _ => all_blame _ _
  | case8 span => exact all_ofResult _

theorem Expr.commitAll_eval (e : Expr) (s : State) :
    s.commitAll (e.eval s.scopes).actions = s :=
  State.commitAll_of_silent (e.silent_eval s.scopes) s

/-! ## Statements -/

/-- The expression that a statement evaluates first, if it evaluates one. -/
def Stmt.head? : Stmt → Option Expr
  | .block _ _ | .declare _ _ none | .hole _ => none
  | .expr _ e | .print _ e | .declare _ _ (some e) | .assign _ _ e | .branch _ _ e _ _
  | .loop _ _ e _ => some e

namespace Stmt

variable {scopes : Scopes}

/-- A statement stops where its expression does. -/
theorem plan_of_error {s : Stmt} {e : Expr} {stop : Stop} (hs : s.head? = some e)
    (h : (e.eval scopes).result = .error stop) :
    s.plan scopes = ⟨(e.eval scopes).actions, .error stop⟩ := by
  cases s with
  | block span body => cases hs
  | expr span e' => cases hs; exact andThen_of_error h _
  | print span e' => cases hs; exact andThen_of_error h _
  | declare span name initializer =>
      cases initializer with
      | none => cases hs
      | some e' => cases hs; exact andThen_of_error h _
  | assign span name e' => cases hs; exact andThen_of_error h _
  | branch span keyword e' yes no => cases hs; exact andThen_of_error h _
  | loop span keyword e' body => cases hs; exact andThen_of_error h _
  | hole span => cases hs

theorem plan_hole (span : Span) :
    (Stmt.hole span).plan scopes = ⟨[], .error (.failure .missingStatement)⟩ := rfl

theorem plan_expr {e : Expr} {v : Value} (h : (e.eval scopes).result = .ok v) (span : Span) :
    (Stmt.expr span e).plan scopes = ⟨(e.eval scopes).actions, .ok []⟩ := by
  show (e.eval scopes).andThen _ = _
  rw [andThen_of_ok h]
  simp

theorem plan_print {e : Expr} {v : Value} (h : (e.eval scopes).result = .ok v) (span : Span) :
    (Stmt.print span e).plan scopes =
      ⟨(e.eval scopes).actions ++ [.print span ⟨e.span, v⟩], .ok []⟩ := by
  show (e.eval scopes).andThen _ = _
  rw [andThen_of_ok h]
  rfl

theorem plan_declare {e : Expr} {v : Value} (h : (e.eval scopes).result = .ok v) (span : Span)
    (name : String) :
    (Stmt.declare span name (some e)).plan scopes =
      ⟨(e.eval scopes).actions ++ [.declare span name (some ⟨e.span, v⟩)], .ok []⟩ := by
  show (e.eval scopes).andThen _ = _
  rw [andThen_of_ok h]
  rfl

theorem plan_assign {e : Expr} {v : Value} (h : (e.eval scopes).result = .ok v) (span : Span)
    (name : String) :
    (Stmt.assign span name e).plan scopes =
      ⟨(e.eval scopes).actions ++
          [.assign span name ⟨e.span, v⟩ ((scopes.lookup name).map (·.declared))],
        if (scopes.lookup name).isSome then .ok []
        else .error (.error ⟨.undeclared name, span⟩)⟩ := by
  show (e.eval scopes).andThen _ = _
  rw [andThen_of_ok h]
  -- an assignment is announced even if there is no such variable
  by_cases hname : (scopes.lookup name).isSome
  · simp only [hname, if_true]
    rfl
  · simp only [hname]
    rfl

end Stmt

/-- What a condition leaves to do. -/
def Expr.verdict (condition : Expr) (yes no : List Task) : Value → Except Stop (List Task)
  | .bool true => .ok yes
  | .bool false => .ok no
  | v => .error (.error ⟨.condition v.type, condition.span⟩)

theorem Expr.test_of_ok {condition : Expr} {scopes : Scopes} {v : Value}
    (h : (condition.eval scopes).result = .ok v) (keyword : Span) (yes no : List Task) :
    condition.test keyword scopes yes no =
      ⟨(condition.eval scopes).actions ++ [.check keyword ⟨condition.span, v⟩],
        condition.verdict yes no v⟩ := by
  show (condition.eval scopes).andThen _ = _
  rw [andThen_of_ok h]
  cases v with
  | bool b => cases b <;> rfl
  | int n => rfl
  | float x => rfl
  | string t => rfl

theorem Expr.commitAll_test (condition : Expr) (keyword : Span) (s : State) (v : Value) :
    s.commitAll ((condition.eval s.scopes).actions ++ [.check keyword ⟨condition.span, v⟩]) =
      s := by
  rw [State.commitAll_append, condition.commitAll_eval]
  rfl

/-- A condition that leaves something to do is a truth value. -/
theorem Expr.verdict_ok {condition : Expr} {yes no tasks : List Task} {v : Value}
    (h : condition.verdict yes no v = .ok tasks) :
    ∃ b, v = .bool b ∧ tasks = if b then yes else no := by
  cases v with
  | bool b =>
      refine ⟨b, rfl, ?_⟩
      -- a truth value chooses the tasks; everything else is an error
      cases b <;> injection h with h <;> exact h.symm
  | int n => cases h
  | float x => cases h
  | string w => cases h

namespace Evaluation

/-- Whether all actions but the last one are silent. -/
def Quiet {α : Type} (x : Evaluation α) : Prop := ∀ a ∈ x.actions.dropLast, a.Silent

variable {α β : Type}

theorem quiet_ofResult (result : Except Stop α) : (ofResult result).Quiet :=
  fun _ ha => absurd ha List.not_mem_nil

theorem quiet_announce {a : Action} {f : Unit → Evaluation β} (hf : (f ()).actions = []) :
    (announce a >>= f).Quiet := by
  intro b hb
  -- the only action is the last one
  have hactions : (announce a >>= f).actions = [a] := by
    rw [bind_def, andThen_of_ok rfl]
    simp [announce, hf]
  rw [hactions] at hb
  cases hb

theorem quiet_bind {x : Evaluation α} {f : α → Evaluation β} (hx : x.All Action.Silent)
    (hf : ∀ a, (f a).Quiet) : (x >>= f).Quiet := by
  intro b hb
  rw [bind_def] at hb
  cases h : x.result with
  | error stop =>
      rw [andThen_of_error h] at hb
      exact hx b ((List.dropLast_sublist _).subset hb)
  | ok a =>
      rw [andThen_of_ok h] at hb
      -- the last action is that of `f`, if `f` has any
      by_cases hnil : (f a).actions = []
      · rw [hnil, List.append_nil] at hb
        exact hx b ((List.dropLast_sublist _).subset hb)
      · rw [List.dropLast_append_of_ne_nil hnil] at hb
        rcases List.mem_append.mp hb with hb | hb
        · exact hx b hb
        · exact hf a b hb

end Evaluation

theorem Expr.quiet_test (condition : Expr) (keyword : Span) (scopes : Scopes)
    (yes no : List Task) : (condition.test keyword scopes yes no).Quiet := by
  refine quiet_bind (condition.silent_eval scopes) fun v => quiet_announce ?_
  split <;> rfl

/-- Only the last action of a statement may change the state. -/
theorem Stmt.quiet_plan (scopes : Scopes) (s : Stmt) : (s.plan scopes).Quiet := by
  cases s with
  | block span body => exact quiet_ofResult _
  | expr span e => exact quiet_bind (e.silent_eval scopes) fun _ => quiet_ofResult _
  | print span e => exact quiet_bind (e.silent_eval scopes) fun v => quiet_announce rfl
  | declare span name initial =>
      cases initial with
      | none => exact quiet_announce rfl
      | some e => exact quiet_bind (e.silent_eval scopes) fun v => quiet_announce rfl
  | assign span name e =>
      -- whether or not the variable is there, nothing comes behind the announcement
      refine quiet_bind (e.silent_eval scopes) fun v => quiet_announce ?_
      split <;> rfl
  | branch span keyword condition yes no => exact condition.quiet_test keyword scopes _ _
  | loop span keyword condition body => exact condition.quiet_test keyword scopes _ _
  | hole span => exact quiet_ofResult _

/-- An action with another one behind it changes nothing. -/
theorem Stmt.silent_of_plan {s : Stmt} {scopes : Scopes} {front queue : List Action}
    {current next : Action} {result : Except Stop (List Task)}
    (hplan : s.plan scopes = ⟨front ++ current :: next :: queue, result⟩) : current.Silent := by
  refine (hplan ▸ s.quiet_plan scopes) current ?_
  -- with `next` behind it, it is not the last action
  rw [List.dropLast_append_of_ne_nil (by simp)]
  exact List.mem_append_right _ List.mem_cons_self

/-! ## What a statement leaves behind -/

/-- The state behind all actions of a statement that is not stopped, and what it leaves to do. -/
inductive Stmt.Leaves : Stmt → State → State → List Task → Prop where
  | block {span : Span} {body : List Stmt} {s : State} :
      Leaves (.block span body) s s (Task.scoped body)
  | expr {span : Span} {e : Expr} {s : State} {v : Value} :
      (e.eval s.scopes).result = .ok v → Leaves (.expr span e) s s []
  | print {span : Span} {e : Expr} {s : State} {v : Value} :
      (e.eval s.scopes).result = .ok v →
      Leaves (.print span e) s { s with output := s.output ++ v.display ++ "\n" } []
  | declare {span : Span} {name : String} {s : State} :
      Leaves (.declare span name none) s
        { s with scopes := s.scopes.define name ⟨span, none⟩ } []
  | declareWith {span : Span} {name : String} {e : Expr} {s : State} {v : Value} :
      (e.eval s.scopes).result = .ok v →
      Leaves (.declare span name (some e)) s
        { s with scopes := s.scopes.define name ⟨span, some v⟩ } []
  | assign {span : Span} {name : String} {e : Expr} {s : State} {v : Value} {scopes : Scopes} :
      (e.eval s.scopes).result = .ok v → s.scopes.assign? name v = some scopes →
      Leaves (.assign span name e) s { s with scopes } []
  | branch {span keyword : Span} {condition : Expr} {yes : Stmt} {no : Option Stmt} {s : State}
      {b : Bool} :
      (condition.eval s.scopes).result = .ok (.bool b) →
      Leaves (.branch span keyword condition yes no) s s
        (if b then [.run yes] else no.toList.map .run)
  | loop {span keyword : Span} {condition : Expr} {body : Stmt} {s : State} {b : Bool} :
      (condition.eval s.scopes).result = .ok (.bool b) →
      Leaves (.loop span keyword condition body) s s
        (if b then [.run body, .run (.loop span keyword condition body)] else [])

/-- **A plan with something left to do has run to its end.** -/
theorem Stmt.leaves_of_plan {statement : Stmt} {s : State} {actions : List Action}
    {tasks : List Task} (hplan : statement.plan s.scopes = ⟨actions, .ok tasks⟩) :
    statement.Leaves s (s.commitAll actions) tasks := by
  -- nothing would be left to do if the expression had been stopped
  have hvalue : ∀ {e : Expr}, statement.head? = some e →
      ∃ v, (e.eval s.scopes).result = .ok v := by
    intro e hs
    cases h : (e.eval s.scopes).result with
    | ok v => exact ⟨v, rfl⟩
    | error stop =>
        rw [plan_of_error hs h] at hplan
        cases hplan
  cases statement with
  | block span body =>
      cases hplan
      exact .block
  | expr span e =>
      obtain ⟨v, hv⟩ := hvalue rfl
      rw [plan_expr hv] at hplan
      cases hplan
      rw [e.commitAll_eval]
      exact .expr hv
  | print span e =>
      obtain ⟨v, hv⟩ := hvalue rfl
      rw [plan_print hv] at hplan
      cases hplan
      rw [State.commitAll_append, e.commitAll_eval]
      exact .print hv
  | declare span name initial =>
      cases initial with
      | none =>
          cases hplan
          exact .declare
      | some e =>
          obtain ⟨v, hv⟩ := hvalue rfl
          rw [plan_declare hv] at hplan
          cases hplan
          rw [State.commitAll_append, e.commitAll_eval]
          exact .declareWith hv
  | assign span name e =>
      obtain ⟨v, hv⟩ := hvalue rfl
      rw [plan_assign hv, ← Scopes.isSome_assign? _ _ v] at hplan
      -- a variable that is not there stops the statement
      cases hassign : s.scopes.assign? name v with
      | none =>
          rw [hassign] at hplan
          cases hplan
      | some scopes =>
          rw [hassign] at hplan
          cases hplan
          rw [State.commitAll_append, e.commitAll_eval]
          simp only [State.commitAll_cons, State.commitAll_nil, Action.commit, hassign,
            Option.getD_some]
          exact .assign hv hassign
  | branch span keyword condition yes no =>
      obtain ⟨v, hv⟩ := hvalue rfl
      have htest := Expr.test_of_ok hv keyword [.run yes] (no.toList.map .run)
      rw [plan, htest] at hplan
      injection hplan with hactions hresult
      -- something is left to do, so the condition is a truth value
      obtain ⟨b, rfl, rfl⟩ := Expr.verdict_ok hresult
      rw [← hactions, condition.commitAll_test]
      exact .branch hv
  | loop span keyword condition body =>
      obtain ⟨v, hv⟩ := hvalue rfl
      have htest := Expr.test_of_ok hv keyword
        [.run body, .run (.loop span keyword condition body)] []
      rw [plan, htest] at hplan
      injection hplan with hactions hresult
      obtain ⟨b, rfl, rfl⟩ := Expr.verdict_ok hresult
      rw [← hactions, condition.commitAll_test]
      exact .loop hv
  | hole span => cases hplan

end Stepwise
