import Stepwise.Proofs.Delivery
import Stepwise.Proofs.Meaning

/-!
# Stepping refines the meaning of a program

The machine can pause inside any statement, and what it has still to do is a flat list
of tasks. The rules of `Stepwise.Proofs.Meaning` know neither pauses nor tasks. The two
meet in three stages:

* `after_settle_iff` takes the pauses away: a machine comes to its end exactly if its tasks, done
  one after the other with no pause, come to that end (`Task.Finishes`);
* `finishes_iff_means` reads a list of tasks by the rules: a statement that has run to its end is
  followed by the tasks behind it, and one that was stopped by the scopes that they would close;
* `concludes_iff_programRuns` says the same of a stepper that makes single steps.
-/

namespace Stepwise

open Evaluation

namespace Task

/-! ## Taking the pauses away -/

/-- The end of a list of tasks that are done one after the other. -/
inductive Finishes : State → List Task → State → Option Stop → Prop where
  | nil {s : State} : Finishes s [] s none
  | enter {s t : State} {todo : List Task} {stop : Option Stop} :
      Finishes s.enter todo t stop → Finishes s (.enter :: todo) t stop
  | leave {s t : State} {todo : List Task} {stop : Option Stop} :
      Finishes s.leave todo t stop → Finishes s (.leave :: todo) t stop
  | run {statement : Stmt} {s t : State} {actions : List Action} {tasks todo : List Task}
      {stop : Option Stop} :
      statement.plan s.scopes = ⟨actions, .ok tasks⟩ →
      Finishes (s.commitAll actions) (tasks ++ todo) t stop →
      Finishes s (.run statement :: todo) t stop
  | stop {statement : Stmt} {s : State} {actions : List Action} {todo : List Task} {stop : Stop} :
      statement.plan s.scopes = ⟨actions, .error stop⟩ →
      Finishes s (.run statement :: todo) (unwind (s.commitAll actions) todo) (some stop)

theorem proceed_nil_ok (s : State) (tasks todo : List Task) :
    proceed s ⟨[], .ok tasks⟩ todo = settle s (tasks ++ todo) := rfl

theorem proceed_nil_error (s : State) (stop : Stop) (todo : List Task) :
    proceed s ⟨[], .error stop⟩ todo = .ended (unwind s todo) (some stop) := rfl

/-- Each action of a statement takes one resumption. -/
theorem after_proceed (s : State) (actions : List Action) (result : Except Stop (List Task))
    (todo : List Task) :
    (proceed s ⟨actions, result⟩ todo).after actions.length =
      proceed (s.commitAll actions) ⟨[], result⟩ todo := by
  induction actions generalizing s with
  | nil => rfl
  | cons a actions ih => exact ih (a.commit s)

/-- A machine does not end before it has announced all actions of its statement. -/
theorem length_le_of_after_proceed {s t : State} {actions : List Action}
    {result : Except Stop (List Task)} {todo : List Task} {stop : Option Stop} {n : Nat}
    (h : (proceed s ⟨actions, result⟩ todo).after n = .ended t stop) : actions.length ≤ n := by
  induction actions generalizing s n with
  | nil => exact Nat.zero_le n
  | cons a actions ih =>
      cases n with
      | zero => cases h
      | succ n => exact Nat.succ_le_succ (ih h)

theorem finishes_of_after (s t : State) (tasks : List Task) (stop : Option Stop) (n : Nat)
    (h : (settle s tasks).after n = .ended t stop) : Finishes s tasks t stop := by
  -- a statement with actions uses up resumptions, and one without makes the tasks lighter
  match tasks with
  | [] =>
      rw [settle_nil, Progress.after_ended] at h
      cases h
      exact .nil
  | .enter :: todo =>
      rw [settle_enter] at h
      exact .enter (finishes_of_after s.enter t todo stop n h)
  | .leave :: todo =>
      rw [settle_leave] at h
      exact .leave (finishes_of_after s.leave t todo stop n h)
  | .run statement :: todo =>
      rw [settle_run] at h
      cases hplan : statement.plan s.scopes with
      | mk actions result =>
          rw [hplan] at h
          obtain ⟨m, hm⟩ := Nat.exists_eq_add_of_le (length_le_of_after_proceed h)
          rw [hm, Progress.after_add, after_proceed] at h
          cases result with
          | error e =>
              rw [proceed_nil_error, Progress.after_ended] at h
              cases h
              exact .stop hplan
          | ok tasks =>
              rw [proceed_nil_ok] at h
              -- a loop announces its condition, so that it is not back here without a resumption
              have hlight : actions = [] → total tasks < statement.weight := by
                intro hnil
                exact Stmt.total_lt_weight (by rw [hplan]; exact hnil) (by rw [hplan])
              exact .run hplan (finishes_of_after _ t (tasks ++ todo) stop m h)
termination_by (n, total tasks)
decreasing_by
  all_goals simp only [total, weight, total_append, Prod.lex_def]
  · exact Or.inr ⟨trivial, by omega⟩
  · exact Or.inr ⟨trivial, by omega⟩
  · rcases actions with _ | ⟨a, actions⟩
    · have := hlight rfl
      simp only [List.length_nil] at hm
      exact Or.inr ⟨by omega, by omega⟩
    · simp only [List.length_cons] at hm
      exact Or.inl (by omega)

theorem after_of_finishes {s t : State} {tasks : List Task} {stop : Option Stop}
    (h : Finishes s tasks t stop) : ∃ n, (settle s tasks).after n = .ended t stop := by
  induction h with
  | nil => exact ⟨0, by rw [settle_nil]; rfl⟩
  | enter _ ih => obtain ⟨n, hn⟩ := ih; exact ⟨n, by rw [settle_enter]; exact hn⟩
  | leave _ ih => obtain ⟨n, hn⟩ := ih; exact ⟨n, by rw [settle_leave]; exact hn⟩
  | run hplan _ ih =>
      obtain ⟨n, hn⟩ := ih
      rename_i actions _ _ _ _
      refine ⟨actions.length + n, ?_⟩
      rw [settle_run, hplan, Progress.after_add, after_proceed, proceed_nil_ok]
      exact hn
  | stop hplan =>
      rename_i actions _ _
      refine ⟨actions.length, ?_⟩
      rw [settle_run, hplan, after_proceed, proceed_nil_error]

/-- **Pauses do not matter for the end.** -/
theorem after_settle_iff {s t : State} {tasks : List Task} {stop : Option Stop} :
    (∃ n, (settle s tasks).after n = .ended t stop) ↔ Finishes s tasks t stop :=
  ⟨fun ⟨n, h⟩ => finishes_of_after s t tasks stop n h, after_of_finishes⟩

/-! ## Reading tasks by the rules -/

/-- What a list of tasks does by the rules for its statements. -/
def Means : List Task → State → State → Option Stop → Prop
  | [], s, t, stop => t = s ∧ stop = none
  | .enter :: todo, s, t, stop => Means todo s.enter t stop
  | .leave :: todo, s, t, stop => Means todo s.leave t stop
  | .run statement :: todo, s, t, stop =>
    (∃ u, statement.Runs s u none ∧ Means todo u t stop) ∨
    (∃ u e, statement.Runs s u (some e) ∧ t = unwind u todo ∧ stop = some e)

/-- The end of the work behind a statement that has run to its end or was stopped. -/
def Resumes (s : State) (ended : Option Stop) (todo : List Task) (t : State)
    (stop : Option Stop) : Prop :=
  match ended with
  | none => Finishes s todo t stop
  | some e => t = unwind s todo ∧ stop = some e

theorem unwind_runs (s : State) (body : List Stmt) (todo : List Task) :
    unwind s (body.map .run ++ todo) = unwind s todo := by
  induction body with
  | nil => rfl
  | cons statement body ih => exact ih

/-- Closing a scope is part of what is left to do. -/
theorem resumes_leave {s t : State} {ended : Option Stop} {todo : List Task} {stop : Option Stop}
    (h : Resumes s.leave ended todo t stop) : Resumes s ended (.leave :: todo) t stop := by
  cases ended with
  | none => exact Finishes.leave h
  | some e => exact h

/-- A statement whose plan is stopped. -/
theorem finishes_of_error {statement : Stmt} {e : Expr} {s t : State} {todo : List Task}
    {cause : Stop} {stop : Option Stop} (hs : statement.head? = some e)
    (he : e.Yields s.scopes (.error cause)) (h : Resumes s (some cause) todo t stop) :
    Finishes s (.run statement :: todo) t stop := by
  obtain ⟨rfl, rfl⟩ := h
  have hfin : Finishes s (.run statement :: todo) _ _ :=
    Finishes.stop (Stmt.plan_of_error hs (Expr.result_of_yields he))
  rw [e.commitAll_eval] at hfin
  exact hfin

/-- A statement with a condition that has been tested. -/
theorem finishes_of_test {condition : Expr} {keyword : Span} {s t : State} {v : Value}
    {statement : Stmt} {yes no tasks todo : List Task} {stop : Option Stop}
    (hplan : statement.plan s.scopes = condition.test keyword s.scopes yes no)
    (hv : condition.Yields s.scopes (.ok v)) (hverdict : condition.verdict yes no v = .ok tasks)
    (h : Finishes s (tasks ++ todo) t stop) : Finishes s (.run statement :: todo) t stop := by
  rw [Expr.test_of_ok (Expr.result_of_yields hv), hverdict] at hplan
  refine Finishes.run hplan ?_
  -- evaluating and checking a condition changes nothing
  rw [State.commitAll_append, condition.commitAll_eval]
  exact h

/-- A statement with a condition that is not a truth value. -/
theorem finishes_of_type {condition : Expr} {keyword : Span} {s t : State} {v : Value}
    {statement : Stmt} {yes no todo : List Task} {stop : Option Stop}
    (hplan : statement.plan s.scopes = condition.test keyword s.scopes yes no)
    (hv : condition.Yields s.scopes (.ok v)) (htype : v.type ≠ .bool)
    (h : Resumes s (some (.error ⟨.condition v.type, condition.span⟩)) todo t stop) :
    Finishes s (.run statement :: todo) t stop := by
  obtain ⟨rfl, rfl⟩ := h
  have hverdict : condition.verdict yes no v =
      .error (.error ⟨.condition v.type, condition.span⟩) := by
    cases v with
    | bool b => exact absurd rfl htype
    | int n => rfl
    | float x => rfl
    | string w => rfl
  rw [Expr.test_of_ok (Expr.result_of_yields hv), hverdict] at hplan
  have hfin : Finishes s (.run statement :: todo) _ _ := Finishes.stop hplan
  rw [State.commitAll_append, condition.commitAll_eval] at hfin
  exact hfin

/-- A statement that announces one action behind its expression and leaves nothing to do. -/
theorem finishes_of_effect {e : Expr} {a : Action} {s t : State} {statement : Stmt}
    {todo : List Task} {stop : Option Stop}
    (hplan : statement.plan s.scopes = ⟨(e.eval s.scopes).actions ++ [a], .ok []⟩)
    (h : Finishes (a.commit s) todo t stop) : Finishes s (.run statement :: todo) t stop := by
  refine Finishes.run hplan ?_
  rw [State.commitAll_append, e.commitAll_eval]
  exact h

/-- An assignment to a variable that exists. -/
theorem finishes_of_assign {e : Expr} {s t : State} {span : Span} {name : String} {v : Value}
    {scopes : Scopes} {todo : List Task} {stop : Option Stop}
    (hv : e.Yields s.scopes (.ok v)) (hassign : s.scopes.assign? name v = some scopes)
    (h : Finishes { s with scopes } todo t stop) :
    Finishes s (.run (.assign span name e) :: todo) t stop := by
  have hplan := Stmt.plan_assign (Expr.result_of_yields hv) span name
  have hname := Scopes.isSome_assign? s.scopes name v
  rw [hassign] at hname
  rw [← hname] at hplan
  refine finishes_of_effect hplan ?_
  simp only [Action.commit, hassign, Option.getD_some]
  exact h

/-- An assignment to a variable that does not exist. -/
theorem finishes_of_undeclared {e : Expr} {s t : State} {span : Span} {name : String} {v : Value}
    {todo : List Task} {stop : Option Stop}
    (hv : e.Yields s.scopes (.ok v)) (hassign : s.scopes.assign? name v = none)
    (h : Resumes s (some (.error ⟨.undeclared name, span⟩)) todo t stop) :
    Finishes s (.run (.assign span name e) :: todo) t stop := by
  obtain ⟨rfl, rfl⟩ := h
  have hplan := Stmt.plan_assign (Expr.result_of_yields hv) span name
  have hname := Scopes.isSome_assign? s.scopes name v
  rw [hassign] at hname
  -- the assignment is announced, but its commit finds nothing to change
  rw [← hname] at hplan
  have hfin : Finishes s (.run (.assign span name e) :: todo) _ _ := Finishes.stop hplan
  rw [State.commitAll_append, e.commitAll_eval] at hfin
  simp only [State.commitAll_cons, State.commitAll_nil, Action.commit, hassign,
    Option.getD_none] at hfin
  exact hfin

/-- The tasks of a block open a scope, run its statements and close the scope. -/
theorem scoped_append (body : List Stmt) (todo : List Task) :
    Task.scoped body ++ todo = .enter :: (body.map .run ++ .leave :: todo) := by
  simp [Task.scoped]

mutual

/-- What a statement does by the rules is done by the machine. -/
theorem finishes_of_runs {statement : Stmt} {s u t : State} {ended stop : Option Stop}
    {todo : List Task} :
    statement.Runs s u ended → Resumes u ended todo t stop →
      Finishes s (.run statement :: todo) t stop
  | .block hbody, h => by
      refine Finishes.run rfl ?_
      rw [scoped_append]
      exact Finishes.enter (finishes_of_runsAll hbody (resumes_leave h))
  | .expr hv, h => by
      refine Finishes.run (Stmt.plan_expr (Expr.result_of_yields hv) _) ?_
      rw [Expr.commitAll_eval]
      exact h
  | .print hv, h => finishes_of_effect (Stmt.plan_print (Expr.result_of_yields hv) _) h
  | .declare, h => Finishes.run rfl h
  | .declareWith hv, h => finishes_of_effect (Stmt.plan_declare (Expr.result_of_yields hv) _ _) h
  | .assign hv hassign, h => finishes_of_assign hv hassign h
  | .undeclared hv hassign, h => finishes_of_undeclared hv hassign h
  | .yes hv hyes, h => finishes_of_test rfl hv rfl (finishes_of_runs hyes h)
  | .no hv hno, h => finishes_of_test rfl hv rfl (finishes_of_runs hno h)
  | .pass hv, h => finishes_of_test rfl hv rfl h
  | .branchType hv htype, h => finishes_of_type rfl hv htype h
  | .leave hv, h => finishes_of_test rfl hv rfl h
  | .again hv hbody hagain, h =>
      finishes_of_test rfl hv rfl (finishes_of_runs hbody (finishes_of_runs hagain h))
  | .stopInside hv hbody, h => finishes_of_test rfl hv rfl (finishes_of_runs hbody h)
  | .loopType hv htype, h => finishes_of_type rfl hv htype h
  | .stopAtOnce hs he, h => finishes_of_error hs he h
  | .hole, h => by
      obtain ⟨rfl, rfl⟩ := h
      exact Finishes.stop (Stmt.plan_hole _)

theorem finishes_of_runsAll {body : List Stmt} {s u t : State} {ended stop : Option Stop}
    {todo : List Task} :
    Stmt.RunsAll body s u ended → Resumes u ended todo t stop →
      Finishes s (body.map .run ++ todo) t stop
  | .nil, h => h
  | .cons hfirst hrest, h => finishes_of_runs hfirst (finishes_of_runsAll hrest h)
  | .stop hfirst, h => by
      exact finishes_of_runs hfirst ⟨h.1.trans (unwind_runs _ _ _).symm, h.2⟩

end

theorem finishes_of_means {tasks : List Task} {s t : State} {stop : Option Stop}
    (h : Means tasks s t stop) : Finishes s tasks t stop := by
  induction tasks generalizing s with
  | nil =>
      obtain ⟨rfl, rfl⟩ := h
      exact .nil
  | cons task todo ih =>
      cases task with
      | enter => exact .enter (ih h)
      | leave => exact .leave (ih h)
      | run statement =>
          rcases h with ⟨u, hruns, hrest⟩ | ⟨u, e, hruns, ht, hstop⟩
          · exact finishes_of_runs hruns (ih hrest)
          · exact finishes_of_runs hruns ⟨ht, hstop⟩

/-- The statements of a list, and what comes behind them. -/
theorem runsAll_of_means {body : List Stmt} {todo : List Task} {s t : State}
    {stop : Option Stop} (h : Means (body.map .run ++ todo) s t stop) :
    (∃ u, Stmt.RunsAll body s u none ∧ Means todo u t stop) ∨
    (∃ u e, Stmt.RunsAll body s u (some e) ∧ t = unwind u todo ∧ stop = some e) := by
  induction body generalizing s with
  | nil => exact Or.inl ⟨s, .nil, h⟩
  | cons statement body ih =>
      rcases h with ⟨u, hruns, hrest⟩ | ⟨u, e, hruns, ht, hstop⟩
      · rcases ih hrest with ⟨u', hall, hmeans⟩ | ⟨u', e, hall, ht, hstop⟩
        · exact Or.inl ⟨u', .cons hruns hall, hmeans⟩
        · exact Or.inr ⟨u', e, .cons hruns hall, ht, hstop⟩
      · -- the rest of the list opens no scope, so unwinding passes it by
        exact Or.inr ⟨u, e, .stop hruns, ht.trans (unwind_runs _ _ _), hstop⟩

/-- A scope around a list of statements. -/
theorem runsAll_of_means_scoped {body : List Stmt} {todo : List Task} {s t : State}
    {stop : Option Stop} (h : Means (Task.scoped body ++ todo) s t stop) :
    (∃ u, Stmt.RunsAll body s.enter u none ∧ Means todo u.leave t stop) ∨
    (∃ u e, Stmt.RunsAll body s.enter u (some e) ∧ t = unwind u.leave todo ∧ stop = some e) := by
  rw [scoped_append] at h
  rcases runsAll_of_means h with ⟨u, hall, hmeans⟩ | ⟨u, e, hall, ht, hstop⟩
  · exact Or.inl ⟨u, hall, hmeans⟩
  · exact Or.inr ⟨u, e, hall, ht, hstop⟩

/-- What is left of a loop is its body and the loop again. -/
theorem means_loop {span keyword : Span} {condition : Expr} {body : Stmt} {todo : List Task}
    {s t : State} {stop : Option Stop} (hv : condition.Yields s.scopes (.ok (.bool true)))
    (h : Means ([.run body, .run (.loop span keyword condition body)] ++ todo) s t stop) :
    Means (.run (.loop span keyword condition body) :: todo) s t stop := by
  rcases h with ⟨u, hbody, hloop | hloop⟩ | ⟨u, e, hbody, ht, hstop⟩
  · obtain ⟨u', hloop, hmeans⟩ := hloop
    exact Or.inl ⟨u', .again hv hbody hloop, hmeans⟩
  · obtain ⟨u', e, hloop, ht, hstop⟩ := hloop
    exact Or.inr ⟨u', e, .again hv hbody hloop, ht, hstop⟩
  · exact Or.inr ⟨u, e, .stopInside hv hbody, ht, hstop⟩

/-- What is left of a branch is the statement that was chosen. -/
theorem means_branch {span keyword : Span} {condition : Expr} {yes : Stmt} {no : Option Stmt}
    {b : Bool} {todo : List Task} {s t : State} {stop : Option Stop}
    (hv : condition.Yields s.scopes (.ok (.bool b)))
    (h : Means ((if b then [.run yes] else no.toList.map .run) ++ todo) s t stop) :
    Means (.run (.branch span keyword condition yes no) :: todo) s t stop := by
  cases b with
  | true =>
      rcases h with ⟨u, hyes, hmeans⟩ | ⟨u, e, hyes, ht, hstop⟩
      · exact Or.inl ⟨u, .yes hv hyes, hmeans⟩
      · exact Or.inr ⟨u, e, .yes hv hyes, ht, hstop⟩
  | false =>
      cases no with
      | none => exact Or.inl ⟨s, .pass hv, h⟩
      | some no =>
          rcases h with ⟨u, hno, hmeans⟩ | ⟨u, e, hno, ht, hstop⟩
          · exact Or.inl ⟨u, .no hv hno, hmeans⟩
          · exact Or.inr ⟨u, e, .no hv hno, ht, hstop⟩

/-- What a statement leaves to do, read by the rules, is read as the statement. -/
theorem means_of_leaves {statement : Stmt} {s u t : State} {tasks todo : List Task}
    {stop : Option Stop} (hleaves : statement.Leaves s u tasks)
    (h : Means (tasks ++ todo) u t stop) : Means (.run statement :: todo) s t stop := by
  cases hleaves with
  | block =>
      rcases runsAll_of_means_scoped h with ⟨u, hall, hmeans⟩ | ⟨u, e, hall, ht, hstop⟩
      · exact Or.inl ⟨u.leave, .block hall, hmeans⟩
      · exact Or.inr ⟨u.leave, e, .block hall, ht, hstop⟩
  | expr hv => exact Or.inl ⟨s, .expr (Expr.yields_iff.mpr hv), h⟩
  | print hv => exact Or.inl ⟨_, .print (Expr.yields_iff.mpr hv), h⟩
  | declare => exact Or.inl ⟨_, .declare, h⟩
  | declareWith hv => exact Or.inl ⟨_, .declareWith (Expr.yields_iff.mpr hv), h⟩
  | assign hv hassign => exact Or.inl ⟨_, .assign (Expr.yields_iff.mpr hv) hassign, h⟩
  | branch hv => exact means_branch (Expr.yields_iff.mpr hv) h
  | @loop span keyword condition body _ b hv =>
      cases b with
      -- the loop is a task of its own behind its body
      | true => exact means_loop (Expr.yields_iff.mpr hv) h
      | false => exact Or.inl ⟨s, .leave (Expr.yields_iff.mpr hv), h⟩

/-- A condition that stops a statement, but not by itself, is no truth value. -/
theorem test_eq_error {condition : Expr} {keyword : Span} {s : State} {v : Value}
    {actions : List Action} {yes no : List Task} {stop : Stop}
    (hv : condition.Yields s.scopes (.ok v))
    (hplan : condition.test keyword s.scopes yes no = ⟨actions, .error stop⟩) :
    s.commitAll actions = s ∧ v.type ≠ .bool ∧
      stop = .error ⟨.condition v.type, condition.span⟩ := by
  rw [Expr.test_of_ok (Expr.result_of_yields hv)] at hplan
  injection hplan with hactions hresult
  rw [← hactions]
  refine ⟨condition.commitAll_test keyword s v, ?_⟩
  cases v with
  | bool b => cases b <;> cases hresult
  | int n => cases hresult; exact ⟨by simp [Value.type], rfl⟩
  | float x => cases hresult; exact ⟨by simp [Value.type], rfl⟩
  | string w => cases hresult; exact ⟨by simp [Value.type], rfl⟩

/-- A statement whose plan is stopped is stopped by the rules. -/
theorem runs_of_plan_error {statement : Stmt} {s : State} {actions : List Action} {stop : Stop}
    (hplan : statement.plan s.scopes = ⟨actions, .error stop⟩) :
    statement.Runs s (s.commitAll actions) (some stop) := by
  by_cases hstop : ∃ e cause, statement.head? = some e ∧ e.Yields s.scopes (.error cause)
  · obtain ⟨e, cause, hs, he⟩ := hstop
    rw [Stmt.plan_of_error hs (Expr.result_of_yields he)] at hplan
    cases hplan
    rw [e.commitAll_eval]
    exact .stopAtOnce hs he
  -- its expression has a value, so only what follows can stop the statement
  have hvalue {e : Expr} (hs : statement.head? = some e) : ∃ v, e.Yields s.scopes (.ok v) := by
    obtain ⟨r, hr⟩ := e.exists_yields s.scopes
    cases r with
    | error cause => exact absurd ⟨e, cause, hs, hr⟩ hstop
    | ok v => exact ⟨v, hr⟩
  cases statement with
  -- a block is never stopped by its own plan
  | block span body => cases hplan
  | expr span e =>
      obtain ⟨v, hv⟩ := hvalue rfl
      rw [Stmt.plan_expr (Expr.result_of_yields hv)] at hplan
      cases hplan
  | print span e =>
      obtain ⟨v, hv⟩ := hvalue rfl
      rw [Stmt.plan_print (Expr.result_of_yields hv)] at hplan
      cases hplan
  | declare span name initializer =>
      cases initializer with
      | none => cases hplan
      | some e =>
          obtain ⟨v, hv⟩ := hvalue rfl
          rw [Stmt.plan_declare (Expr.result_of_yields hv)] at hplan
          cases hplan
  | assign span name e =>
      obtain ⟨v, hv⟩ := hvalue rfl
      rw [Stmt.plan_assign (Expr.result_of_yields hv), ← Scopes.isSome_assign? _ _ v] at hplan
      cases hassign : s.scopes.assign? name v with
      | some scopes =>
          rw [hassign] at hplan
          cases hplan
      | none =>
          rw [hassign] at hplan
          cases hplan
          rw [State.commitAll_append, e.commitAll_eval]
          simp only [State.commitAll_cons, State.commitAll_nil, Action.commit, hassign,
            Option.getD_none]
          exact .undeclared hv hassign
  | branch span keyword condition yes no =>
      obtain ⟨v, hv⟩ := hvalue rfl
      obtain ⟨hcommit, htype, rfl⟩ := test_eq_error hv hplan
      rw [hcommit]
      exact .branchType hv htype
  | loop span keyword condition body =>
      obtain ⟨v, hv⟩ := hvalue rfl
      obtain ⟨hcommit, htype, rfl⟩ := test_eq_error hv hplan
      rw [hcommit]
      exact .loopType hv htype
  | hole span =>
      cases hplan
      exact .hole

/-- **The machine does its tasks by the rules.** -/
theorem finishes_iff_means {tasks : List Task} {s t : State} {stop : Option Stop} :
    Finishes s tasks t stop ↔ Means tasks s t stop := by
  refine ⟨?_, finishes_of_means⟩
  intro h
  induction h with
  | nil => exact ⟨rfl, rfl⟩
  | enter _ ih => exact ih
  | leave _ ih => exact ih
  -- what a statement leaves to do has been read by the rules already
  | run hplan _ ih => exact means_of_leaves (Stmt.leaves_of_plan hplan) ih
  | stop hplan => exact Or.inr ⟨_, _, runs_of_plan_error hplan, rfl, rfl⟩

/-- The tasks of a program, read by the rules. -/
theorem means_program_iff {program : List Stmt} {s t : State} {stop : Option Stop} :
    Means (Task.scoped program) s t stop ↔
      ∃ u, Stmt.RunsAll program s.enter u stop ∧ t = u.leave := by
  constructor
  · intro h
    rw [← List.append_nil (Task.scoped program)] at h
    rcases runsAll_of_means_scoped h with ⟨u, hall, ht, hstop⟩ | ⟨u, e, hall, ht, hstop⟩
    · exact ⟨u, hstop ▸ hall, ht⟩
    · exact ⟨u, hstop ▸ hall, ht⟩
  · intro ⟨u, hall, ht⟩
    rw [← finishes_iff_means, ← List.append_nil (Task.scoped program), scoped_append]
    refine Finishes.enter (finishes_of_runsAll hall (resumes_leave ?_))
    subst ht
    cases stop with
    | none => exact Finishes.nil
    | some e => exact ⟨rfl, rfl⟩

end Task

/-! ## Steppers -/

namespace Machine

/-- A program ends in a state exactly if the rules lead there, with the outermost scope closed. -/
theorem trail_ended_iff {program : List Stmt} {t : State} {stop : Option Stop} :
    (∃ n, trail program n = .reached (.ended t stop)) ↔
      ∃ u, Stmt.RunsAll program (State.enter {}) u stop ∧ t = u.leave := by
  rw [← Task.means_program_iff, ← Task.finishes_iff_means, ← Task.after_settle_iff]
  constructor
  · intro ⟨n, hn⟩
    cases n with
    -- a program that is not started has not ended
    | zero => cases hn
    | succ n =>
        rw [trail_succ_eq_after] at hn
        injection hn with hn
        exact ⟨n, hn⟩
  · intro ⟨n, hn⟩
    exact ⟨n + 1, by rw [trail_succ_eq_after]; exact congrArg Machine.reached hn⟩

end Machine

namespace Stepper

open Machine

/-- The stepper of a program after `n` single steps. -/
def stepped (program : List Stmt) : Nat → Stepper
  | 0 => start program
  | n + 1 => (stepped program n).step.2

/-- What a step says when it says how the program ended, with the output at that moment. -/
inductive Concludes (st : Stepper) : String → Option Stop → Prop where
  /-- The program has finished, with an error or without. -/
  | finished {after : Stepper} {result : RunResult} :
      st.step = (.ok none, after) → after.result? = some result →
      Concludes st result.output (result.error.map .error)
  /-- The program cannot be run. -/
  | failed {after : Stepper} {f : Failure} :
      st.step = (.error (.failure f), after) →
      Concludes st after.machine.state.output (some (.failure f))

theorem stepped_tracks (program : List Stmt) (n : Nat) : Tracks program (stepped program n) := by
  induction n with
  | zero => exact tracks_start program
  | succ n ih =>
      have hstep := step_delivers ih
      rw [stepped]
      generalize (stepped program n).step = p at hstep
      obtain ⟨found, after⟩ := p
      cases found with
      | error e => exact hstep.2
      | ok record =>
          cases record with
          | none => exact hstep.2
          | some r => exact hstep.2.2

/-- While the program goes on, single steps keep level with its trail. -/
theorem stepped_of_live {program : List Stmt} {n : Nat} (h : (trail program n).Live) :
    stepped program n = ⟨trail program n, standing program n, n, none⟩ := by
  induction n with
  | zero => rfl
  | succ n ih =>
      obtain ⟨r, hr⟩ := exists_recordAt_of_live h
      rw [stepped, ih (live_of_recordAt hr), step_level hr]

/-- A step that reports a failure has come to it. -/
theorem machine_of_step_failure {st after : Stepper} {f : Failure}
    (h : st.step = (.error (.failure f), after)) :
    ∃ s, after.machine = .reached (.ended s (some (.failure f))) := by
  have hadvance : st.advance = (.error (.failure f), after) := by
    unfold step at h
    split at h
    · cases h
    · cases h
    · split at h
      · cases h
      · rename_i hadv
        rw [hadv, h]
  unfold advance at hadvance
  split at hadvance
  · cases hadvance
  · dsimp only at hadvance
    split at hadvance
    · cases hadvance
    · cases hadvance
    · cases hadvance
    · rename_i hend
      cases hadvance
      exact ⟨_, congrArg Machine.reached hend⟩

/-- What a step concludes is how the program ended. -/
theorem exists_trail_of_concludes {program : List Stmt} {n : Nat} {output : String}
    {stop : Option Stop} (h : (stepped program n).Concludes output stop) :
    ∃ t, (∃ k, trail program k = .reached (.ended t stop)) ∧ output = t.output := by
  have hstep := step_delivers (stepped_tracks program n)
  cases h with
  | finished hnone hresult =>
      rw [hnone] at hstep
      obtain ⟨⟨s, hend, houtput⟩, _⟩ := hstep.2.ended_of_result? hresult
      exact ⟨s, ⟨_, hend⟩, houtput⟩
  | failed hfail =>
      rw [hfail] at hstep
      -- a failure has no result, so the end is read off the machine
      obtain ⟨s, hs⟩ := machine_of_step_failure hfail
      obtain ⟨k, hk⟩ := hstep.2.exists_machine_eq
      refine ⟨s, ⟨k, hk ▸ hs⟩, ?_⟩
      rw [hs]
      rfl

/-- Where the program ends, single steps say so. -/
theorem exists_concludes_of_trail {program : List Stmt} {n : Nat} {t : State}
    {stop : Option Stop} (h : trail program n = .reached (.ended t stop)) :
    ∃ d, (stepped program d).Concludes t.output stop := by
  obtain ⟨d, hlive, hend⟩ := exists_first_end h
  refine ⟨d, ?_⟩
  rw [stepped_of_live hlive]
  rcases advance_level hlive (standing program d) with
    ⟨r, hr, hadv⟩ | ⟨s, error, hend', hadv⟩ | ⟨s, f, hend', hadv⟩
  · -- an end is no record
    rw [recordAt, hend] at hr
    cases hr
  · rw [hend] at hend'
    cases hend'
    exact .finished (step_of_advance hadv (by simp)) rfl
  · rw [hend] at hend'
    cases hend'
    have hconcl := Concludes.failed (step_of_advance hadv (by simp))
    rw [hend] at hconcl
    exact hconcl

/--
**Stepping refines the meaning of a program.** Single steps come to an end with an output and an
outcome exactly if the rules lead there, and a program to which the rules give no end keeps
announcing records.
-/
theorem concludes_iff_programRuns (program : List Stmt) :
    (∀ output stop, (∃ n, (stepped program n).Concludes output stop) ↔
      Stmt.ProgramRuns program output stop) ∧
    ((¬∃ output stop, Stmt.ProgramRuns program output stop) →
      ∀ n, ∃ r, (stepped program n).step.1 = .ok (some r)) := by
  have hiff : ∀ output stop, (∃ n, (stepped program n).Concludes output stop) ↔
      Stmt.ProgramRuns program output stop := by
    intro output stop
    constructor
    · intro ⟨n, hn⟩
      obtain ⟨t, hend, rfl⟩ := exists_trail_of_concludes hn
      obtain ⟨u, hall, rfl⟩ := trail_ended_iff.mp hend
      exact ⟨u, hall, rfl⟩
    · intro ⟨u, hall, houtput⟩
      obtain ⟨n, hn⟩ := trail_ended_iff.mpr ⟨u, hall, rfl⟩
      have hconcl := exists_concludes_of_trail hn
      subst houtput
      exact hconcl
  refine ⟨hiff, ?_⟩
  intro hnone n
  -- an end anywhere on the trail would be one by the rules
  have hlive : ∀ k, (trail program k).Live := by
    intro k
    cases hm : trail program k with
    | ready other => trivial
    | reached p =>
        cases p with
        | paused p => trivial
        | ended t stop =>
            obtain ⟨d, hd⟩ := exists_concludes_of_trail hm
            exact absurd ⟨_, _, (hiff t.output stop).mp ⟨d, hd⟩⟩ hnone
  obtain ⟨r, hr⟩ := exists_recordAt_of_live (hlive (n + 1))
  refine ⟨r, ?_⟩
  rw [stepped_of_live (hlive n), step_level hr]

/-- The rules give no end to a loop that is never left. -/
theorem not_runs_forever {span keyword place around : Span} {statement : Stmt} {s t : State}
    {stop : Option Stop} : statement.Runs s t stop →
      statement ≠ .loop span keyword (.literal place (.bool true)) (.block around [])
  | .leave hv, h => by
      cases h
      cases hv
  | .again _ _ hagain, h => not_runs_forever hagain h
  | .stopInside _ hbody, h => by
      cases h
      cases hbody with
      | block hall => cases hall
      | stopAtOnce hs _ => cases hs
  | .loopType hv htype, h => by
      cases h
      cases hv
      exact htype rfl
  | .stopAtOnce hs he, h => by
      subst h
      cases hs
      cases he
  | .block _, h | .expr _, h | .print _, h | .declare, h | .declareWith _, h | .assign _ _, h
  | .undeclared _ _, h | .yes _ _, h | .no _ _, h | .pass _, h | .branchType _ _, h
  | .hole, h => by cases h

theorem concludes_iff_programRuns_forever :
    (¬∃ output stop, Stmt.ProgramRuns
      [.loop ⟨0, 14, by decide⟩ ⟨0, 5, by decide⟩ (.literal ⟨6, 10, by decide⟩ (.bool true))
        (.block ⟨11, 14, by decide⟩ [])] output stop) ∧
    ∀ n, ∃ r, (stepped
      [.loop ⟨0, 14, by decide⟩ ⟨0, 5, by decide⟩ (.literal ⟨6, 10, by decide⟩ (.bool true))
        (.block ⟨11, 14, by decide⟩ [])] n).step.1 = .ok (some r) := by
  have hnone : ¬∃ output stop, Stmt.ProgramRuns
      [.loop ⟨0, 14, by decide⟩ ⟨0, 5, by decide⟩ (.literal ⟨6, 10, by decide⟩ (.bool true))
        (.block ⟨11, 14, by decide⟩ [])] output stop := by
    intro ⟨_, _, _, hall, _⟩
    cases hall with
    | cons hloop _ => exact not_runs_forever hloop rfl
    | stop hloop => exact not_runs_forever hloop rfl
  exact ⟨hnone, (concludes_iff_programRuns _).2 hnone⟩

end Stepper

end Stepwise
