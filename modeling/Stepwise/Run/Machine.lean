import Stepwise.Run.Plan

/-!
# The machine

The machine runs a program from one announced action to the next. Between two actions it
commits the first one and then works through the tasks ahead until a statement announces
something; each of these transitions makes the work ahead lighter, so the next action or the
end is always reached.

A program runs in one scope of its own, as if it were a block. When it is stopped, the scopes that
are still open are closed on the way out; the output so far stays.
-/

namespace Stepwise

/-- A program that waits with an announced action. -/
structure Pause where
  state : State
  current : Action
  /-- The further actions of the statement, and what it does after the last one. -/
  rest : Evaluation (List Task)
  /-- The work after the statement. -/
  todo : List Task

/-- How far a program has come. -/
inductive Progress where
  /-- It waits with an announced action. -/
  | paused (pause : Pause)
  /-- It has ended, on its own or stopped. -/
  | ended (state : State) (stop : Option Stop)

/-- A program on its way. -/
inductive Machine where
  /-- Nothing has happened yet. -/
  | ready (program : List Stmt)
  /-- The program has been started. -/
  | reached (progress : Progress)

/-- The record of the announced action. -/
def Pause.record (p : Pause) : Record := ⟨p.current, p.state⟩

namespace Task

/-- The state once the scopes that the tasks would close are closed. -/
def unwind (state : State) (tasks : List Task) : State :=
  tasks.foldl (fun s t => match t with | .leave => s.leave | _ => s) state

/-- Works through the tasks until a statement announces an action. -/
def settle (state : State) : List Task → Progress
  | [] => .ended state none
  | .enter :: todo => settle state.enter todo
  | .leave :: todo => settle state.leave todo
  | .run s :: todo =>
    match ha : (s.plan state.scopes).actions, hr : (s.plan state.scopes).result with
    | current :: queue, next => .paused ⟨state, current, ⟨queue, next⟩, todo⟩
    | [], .ok tasks =>
      have : total tasks < s.weight := Stmt.total_lt_weight ha hr
      settle state (tasks ++ todo)
    | [], .error stop => .ended (unwind state todo) (some stop)
termination_by tasks => total tasks
decreasing_by
  all_goals simp only [total, total_append, weight]; omega

/-- Goes on with what is left of a statement, and with the work after it. -/
def proceed (state : State) (rest : Evaluation (List Task)) (todo : List Task) : Progress :=
  match rest.actions, rest.result with
  | current :: queue, next => .paused ⟨state, current, ⟨queue, next⟩, todo⟩
  | [], .ok tasks => settle state (tasks ++ todo)
  | [], .error stop => .ended (unwind state todo) (some stop)

@[simp] theorem settle_nil (state : State) : settle state [] = .ended state none := by
  rw [settle]

@[simp] theorem settle_enter (state : State) (todo : List Task) :
    settle state (.enter :: todo) = settle state.enter todo := by
  rw [settle]

@[simp] theorem settle_leave (state : State) (todo : List Task) :
    settle state (.leave :: todo) = settle state.leave todo := by
  rw [settle]

/-- To run a statement is to proceed with its plan. -/
theorem settle_run (state : State) (s : Stmt) (todo : List Task) :
    settle state (.run s :: todo) = proceed state (s.plan state.scopes) todo := by
  rw [settle, proceed]
  split <;> simp_all

end Task

/-- Commits the announced action and goes on to the next one. -/
def Pause.resume (p : Pause) : Progress :=
  Task.proceed (p.current.commit p.state) p.rest p.todo

namespace Machine

/-- Goes on to the next action or the end; a program that has ended stays as it is. -/
def resume : Machine → Progress
  | .ready program => Task.settle {} (Task.scoped program)
  | .reached (.paused p) => p.resume
  | .reached (.ended state stop) => .ended state stop

/-- The state of the program. -/
def state : Machine → State
  | .ready _ => {}
  | .reached (.paused p) => p.state
  | .reached (.ended state _) => state

end Machine

end Stepwise
