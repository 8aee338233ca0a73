import Stepwise.Run.Evaluation

/-!
# Plans of statements

A statement starts with a plan: the actions it announces, and the tasks to do when the last of them
is committed, or what stops the program there. Making a plan changes nothing. A block announces
nothing and consists of tasks alone; conditions are always announced, so a branch or a loop never
goes on without an action.
-/

namespace Stepwise

/-- A piece of the work ahead. -/
inductive Task where
  /-- Runs a statement. -/
  | run (s : Stmt)
  /-- Opens a scope. -/
  | enter
  /-- Closes the innermost scope. -/
  | leave

/-- The statements of a list in a scope of their own. -/
def Task.scoped (body : List Stmt) : List Task := .enter :: (body.map .run ++ [.leave])

open Evaluation

/-- Tests a condition, and says how to go on if it holds and if not. -/
def Expr.test (condition : Expr) (keyword : Span) (scopes : Scopes) (yes no : List Task) :
    Evaluation (List Task) := do
  let v ← condition.eval scopes
  announce (.check keyword ⟨condition.span, v⟩)
  match v with
  | .bool true => pure yes
  | .bool false => pure no
  | v => raise condition.span (.condition v.type)

/-- The plan of a statement. -/
def Stmt.plan (scopes : Scopes) : Stmt → Evaluation (List Task)
  | .block _ body => pure (Task.scoped body)
  | .expr _ e => do
    let _ ← e.eval scopes
    pure []
  | .print span e => do
    let v ← e.eval scopes
    announce (.print span ⟨e.span, v⟩)
    pure []
  | .declare span name none => do
    announce (.declare span name none)
    pure []
  | .declare span name (some e) => do
    let v ← e.eval scopes
    announce (.declare span name (some ⟨e.span, v⟩))
    pure []
  | .assign span name e => do
    let v ← e.eval scopes
    announce (.assign span name ⟨e.span, v⟩ ((scopes.lookup name).map (·.declared)))
    if (scopes.lookup name).isSome then pure [] else raise span (.undeclared name)
  | .branch _ keyword condition yes no =>
    condition.test keyword scopes [.run yes] (no.toList.map .run)
  | .loop span keyword condition body =>
    condition.test keyword scopes [.run body, .run (.loop span keyword condition body)] []
  | .hole _ => abort .missingStatement

/-! ## How much can happen without an action -/

mutual

/-- A bound on the transitions of a statement before its next action. -/
def Stmt.weight : Stmt → Nat
  | .block _ body => Stmt.weightAll body + 3
  | _ => 1

/-- The sum of the weights of a list of statements. -/
def Stmt.weightAll : List Stmt → Nat
  | [] => 0
  | s :: rest => s.weight + Stmt.weightAll rest

end

/-- A bound on the transitions of a task before its next action. -/
def Task.weight : Task → Nat
  | .run s => s.weight
  | .enter | .leave => 1

/-- A bound on the transitions of a list of tasks before its next action. -/
def Task.total : List Task → Nat
  | [] => 0
  | t :: rest => t.weight + total rest

namespace Task

@[simp] theorem total_append (ts us : List Task) : total (ts ++ us) = total ts + total us := by
  induction ts with
  | nil => simp [total]
  | cons t ts ih => simp [total, ih, Nat.add_assoc]

theorem total_map_run (body : List Stmt) : total (body.map .run) = Stmt.weightAll body := by
  induction body with
  | nil => rfl
  | cons s rest ih => simp [total, weight, Stmt.weightAll, ih]

end Task

namespace Evaluation

theorem andThen_actions_ne_nil {α β : Type} (x : Evaluation α) {f : α → Evaluation β} {b : β}
    (hf : ∀ a, (f a).actions ≠ []) (h : (x.andThen f).result = .ok b) :
    (x.andThen f).actions ≠ [] := by
  unfold andThen at *
  split at h <;> simp_all

theorem announce_andThen_actions {β : Type} (a : Action) (f : Unit → Evaluation β) :
    ((announce a).andThen f).actions ≠ [] := by
  simp [andThen, announce]

end Evaluation

/-- What a statement leaves to do without having announced anything weighs less than the
statement. -/
theorem Stmt.total_lt_weight {s : Stmt} {scopes : Scopes} {tasks : List Task}
    (hactions : (s.plan scopes).actions = []) (hresult : (s.plan scopes).result = .ok tasks) :
    Task.total tasks < s.weight := by
  have announced {e : Expr} {f : Value → Evaluation (List Task)}
      (hf : ∀ v, (f v).actions ≠ []) (ha : ((e.eval scopes).andThen f).actions = [])
      (hr : ((e.eval scopes).andThen f).result = .ok tasks) : False :=
    andThen_actions_ne_nil _ hf hr ha
  cases s with
  | block span body =>
    cases hresult
    simp only [Task.scoped, Task.total, Task.total_append, Task.total_map_run, Task.weight,
      Stmt.weight]
    omega
  | expr span e =>
    have h : ((e.eval scopes).andThen fun _ => pure ([] : List Task)).result = .ok tasks := hresult
    unfold andThen at h
    split at h
    · cases h
      simp [Task.total, Stmt.weight]
    · cases h
  | print span e => exact (announced (fun _ => announce_andThen_actions _ _) hactions hresult).elim
  | declare span name init =>
    cases init with
    | none => exact absurd hactions (announce_andThen_actions _ _)
    | some e => exact (announced (fun _ => announce_andThen_actions _ _) hactions hresult).elim
  | assign span name e =>
    exact (announced (fun _ => announce_andThen_actions _ _) hactions hresult).elim
  | branch span keyword condition yes no =>
    exact (announced (fun _ => announce_andThen_actions _ _) hactions hresult).elim
  | loop span keyword condition body =>
    exact (announced (fun _ => announce_andThen_actions _ _) hactions hresult).elim
  | hole span => cases hresult

end Stepwise
