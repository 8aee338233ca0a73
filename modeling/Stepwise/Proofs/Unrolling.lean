import Stepwise.Proofs.Sequencing

/-!
# Unrolling a loop

A loop does what a branch does that holds one round of the body and then the loop itself. The
branch runs these in a block, so from its first round on, it has one more scope than the loop, and
that scope stays empty: it lies right inside the scopes that were open at the start.

* `Scopes.widen` puts an empty scope there. Nothing that looks at the scopes can tell: lookups
  find the same variables, so that plans are the same (`Stmt.plan_widen`), and assignments
  reach the same ones.
* Only a declaration could, if it were made in the empty scope. A statement is `Confined` if it
  declares nothing in the scope that it is run in; `Task.Confined` is the invariant of the work
  ahead, which also closes the scopes that have been opened since.
* `Pause.Confined.resume` is the step, and `Progress.Confined.after` the run.
-/

namespace Stepwise

open Evaluation

/-! ## What an evaluation reads -/

/-- Evaluation reads the scopes through lookups only. -/
theorem Expr.eval_congr {a b : Scopes} (h : ∀ name, a.lookup name = b.lookup name) (e : Expr) :
    e.eval a = e.eval b := by
  induction e using Expr.eval.induct with
  | case1 span name =>
      rw [Expr.eval, Expr.eval, Scopes.read, Scopes.read, h]
  | case2 | case4 | case8 => rw [Expr.eval, Expr.eval]
  | case3 span inner ih => rw [Expr.eval, Expr.eval, ih]
  | case5 span left op right ihl ihr => rw [Expr.eval, Expr.eval, ihl, ihr]
  | case6 span left op right ihl ihr => rw [Expr.eval, Expr.eval, ihl, ihr]
  | case7 span op operand ih => rw [Expr.eval, Expr.eval, ih]

theorem Stmt.plan_congr {a b : Scopes} (h : ∀ name, a.lookup name = b.lookup name) (s : Stmt) :
    s.plan a = s.plan b := by
  cases s with
  | block span body => rfl
  | hole span => rfl
  | declare span name initializer =>
      cases initializer with
      | none => rfl
      | some e => rw [Stmt.plan, Stmt.plan, e.eval_congr h]
  | expr span e => rw [Stmt.plan, Stmt.plan, e.eval_congr h]
  | print span e => rw [Stmt.plan, Stmt.plan, e.eval_congr h]
  | assign span name e => rw [Stmt.plan, Stmt.plan, e.eval_congr h, h]
  | branch span keyword condition yes no =>
      rw [Stmt.plan, Stmt.plan, Expr.test, Expr.test, condition.eval_congr h]
  | loop span keyword condition body =>
      rw [Stmt.plan, Stmt.plan, Expr.test, Expr.test, condition.eval_congr h]

/-! ## An empty scope among the others -/

/-- The scopes with an empty one right inside the outermost `depth` of them. -/
def Scopes.widen (depth : Nat) : Scopes → Scopes
  | [] => [[]]
  | scope :: outer =>
    if outer.length < depth then [] :: scope :: outer else scope :: widen depth outer

namespace Scopes

variable {depth : Nat} {scopes : Scopes}

theorem widen_of_length (h : scopes.length = depth) : scopes.widen depth = [] :: scopes := by
  cases scopes with
  | nil => rfl
  | cons scope outer =>
      have hlt : outer.length < depth := by
        rw [← h]
        exact Nat.lt_succ_self _
      rw [widen, if_pos hlt]

theorem widen_cons (scope : Scope) (h : depth ≤ scopes.length) :
    widen depth (scope :: scopes) = scope :: scopes.widen depth := by
  rw [widen, if_neg (Nat.not_lt.mpr h)]

theorem widen_append (front outer : Scopes) (h : outer.length = depth) :
    widen depth (front ++ outer) = front ++ [] :: outer := by
  induction front with
  | nil => exact widen_of_length h
  | cons scope front ih =>
      have hle : depth ≤ (front ++ outer).length := by
        rw [List.length_append]
        omega
      rw [List.cons_append, widen_cons scope hle, ih]
      rfl

theorem lookup_widen (depth : Nat) (scopes : Scopes) (name : String) :
    (scopes.widen depth).lookup name = scopes.lookup name := by
  induction scopes with
  | nil => rfl
  | cons scope outer ih =>
      rw [widen]
      split
      · -- an empty scope holds no name
        rfl
      · rw [lookup_cons, lookup_cons, ih]

theorem assign?_widen (depth : Nat) (scopes : Scopes) (name : String) (v : Value) :
    (scopes.widen depth).assign? name v = (scopes.assign? name v).map (widen depth) := by
  induction scopes with
  | nil => rfl
  | cons scope outer ih =>
      rw [widen]
      split
      · rename_i hlt
        -- the empty scope is passed over, and the others are as many as before
        show (assign? name v (scope :: outer)).map ([] :: ·) = _
        cases hassign : assign? name v (scope :: outer) with
        | none => rfl
        | some after =>
            obtain ⟨scope', outer', rfl⟩ : ∃ scope' outer', after = scope' :: outer' :=
              List.exists_cons_of_length_eq_add_one (length_assign? hassign)
            have hlength : outer'.length = outer.length :=
              Nat.succ.inj (length_assign? hassign)
            rw [Option.map_some, Option.map_some, widen, if_pos (hlength ▸ hlt)]
      · rename_i hge
        have hle : depth ≤ outer.length := Nat.not_lt.mp hge
        rw [assign?, assign?]
        cases scope.get? name with
        | some b => simp only [Option.map_some, widen_cons _ hle]
        | none =>
            simp only [ih]
            cases hassign : assign? name v outer with
            | none => rfl
            | some after =>
                rw [← length_assign? hassign] at hle
                simp only [Option.map_some, widen_cons _ hle]

theorem define_widen (h : depth < scopes.length) (name : String) (b : Binding) :
    (scopes.widen depth).define name b = (scopes.define name b).widen depth := by
  cases scopes with
  | nil => exact absurd h (Nat.not_lt_zero depth)
  | cons scope outer =>
      -- the scope that is defined in lies inside the empty one
      have hle : depth ≤ outer.length := Nat.le_of_lt_succ h
      rw [define, widen_cons scope hle, widen_cons _ hle, define]

theorem leave_widen (h : depth < scopes.length) :
    (scopes.widen depth).leave = scopes.leave.widen depth := by
  cases scopes with
  | nil => exact absurd h (Nat.not_lt_zero depth)
  | cons scope outer =>
      rw [widen_cons scope (Nat.le_of_lt_succ h)]
      rfl

/-- From the outside in, the empty scope is the one with number `depth`, and the others are as they
were without it. -/
theorem reverse_widen (h : depth ≤ scopes.length) :
    (scopes.widen depth).reverse[depth]? = some [] ∧
      (scopes.widen depth).reverse.eraseIdx depth = scopes.reverse := by
  obtain ⟨front, outer, rfl, hlength⟩ : ∃ front outer, scopes = front ++ outer ∧
      outer.length = depth := by
    refine ⟨scopes.take (scopes.length - depth), scopes.drop (scopes.length - depth),
      (List.take_append_drop _ _).symm, ?_⟩
    rw [List.length_drop]
    omega
  -- the outermost scopes stand first, and the empty one comes right behind them
  have hreverse : (widen depth (front ++ outer)).reverse =
      outer.reverse ++ [] :: front.reverse := by
    rw [widen_append front outer hlength]
    simp
  rw [hreverse, ← hlength, ← List.length_reverse]
  constructor
  · rw [List.getElem?_append_right (Nat.le_refl _), Nat.sub_self]
    rfl
  · rw [List.eraseIdx_append_of_length_le (Nat.le_refl _), Nat.sub_self, List.reverse_append]
    rfl

end Scopes

/-- The state with an empty scope right inside the outermost `depth` scopes. -/
def State.widen (depth : Nat) (s : State) : State := { s with scopes := s.scopes.widen depth }

/-- A plan does not see an empty scope. -/
theorem Stmt.plan_widen (depth : Nat) (scopes : Scopes) (s : Stmt) :
    s.plan (scopes.widen depth) = s.plan scopes :=
  s.plan_congr (scopes.lookup_widen depth)

/-! ## Where a statement declares -/

/-- Whether an action declares a variable. -/
def Action.Declares : Action → Prop
  | .declare _ _ _ => True
  | _ => False

/-- Whether a statement declares nothing in the scope that it is run in. -/
def Stmt.Confined : Stmt → Prop
  | .declare _ _ _ => False
  | .branch _ _ _ yes none => yes.Confined
  | .branch _ _ _ yes (some no) => yes.Confined ∧ no.Confined
  | .loop _ _ _ body => body.Confined
  | .block _ _ | .expr _ _ | .print _ _ | .assign _ _ _ | .hole _ => True

/-- A declaration is announced by no other statement. -/
theorem Stmt.not_declares_of_confined {s : Stmt} (h : s.Confined) (scopes : Scopes) :
    (s.plan scopes).All (¬·.Declares) := by
  have hsilent (e : Expr) : (e.eval scopes).All (¬·.Declares) :=
    (e.silent_eval scopes).mono fun a ha hdeclares => by
      cases a with
      | declare span name initializer => exact ha
      | _ => exact hdeclares
  -- what is tested may declare later, but not in the plan itself
  have htest (e : Expr) (keyword : Span) (yes no : List Task) :
      (e.test keyword scopes yes no).All (¬·.Declares) := by
    refine all_bind (hsilent e) fun v => all_bind (all_announce id) fun _ => ?_
    split <;> exact all_ofResult _
  cases s with
  | block span body => exact all_ofResult _
  | expr span e => exact all_bind (hsilent e) fun _ => all_ofResult _
  | print span e =>
      exact all_bind (hsilent e) fun v => all_bind (all_announce id) fun _ => all_ofResult _
  | declare span name initializer => exact h.elim
  | assign span name e =>
      refine all_bind (hsilent e) fun v => all_bind (all_announce id) fun _ => ?_
      split <;> exact all_ofResult _
  | branch span keyword condition yes no => exact htest condition keyword _ _
  | loop span keyword condition body => exact htest condition keyword _ _
  | hole span => exact all_ofResult _

theorem Action.commit_widen {depth : Nat} {s : State} {a : Action}
    (h : a.Declares → depth < s.scopes.length) :
    a.commit (s.widen depth) = (a.commit s).widen depth := by
  cases a with
  | declare span name initializer =>
      exact congrArg (State.mk · s.output) (Scopes.define_widen (h trivial) name _)
  | assign span name v declared =>
      refine congrArg (State.mk · s.output) ?_
      show (Scopes.assign? name v.value (s.scopes.widen depth)).getD (s.scopes.widen depth) =
        Scopes.widen depth ((s.scopes.assign? name v.value).getD s.scopes)
      rw [Scopes.assign?_widen]
      cases s.scopes.assign? name v.value <;> rfl
  | _ => rfl

/-! ## The work ahead -/

namespace Task

/-- Whether the tasks open no scope, close `inner` scopes and none around these, and
declare nothing around them. -/
def Confined : Nat → List Task → Prop
  | inner, [] => inner = 0
  | inner, .run s :: todo => (inner = 0 → s.Confined) ∧ Confined inner todo
  | 0, .leave :: _ => False
  | inner + 1, .leave :: todo => Confined inner todo
  | _, .enter :: _ => False

/-- The same of tasks that may open a scope at once. -/
def ConfinedFrom (inner : Nat) : List Task → Prop
  | .enter :: todo => Confined (inner + 1) todo
  | tasks => Confined inner tasks

variable {inner : Nat} {tasks todo : List Task}

theorem Confined.start (h : Confined inner tasks) : ConfinedFrom inner tasks := by
  cases tasks with
  | nil => exact h
  | cons task todo =>
      cases task with
      | run s => exact h
      | leave => exact h
      | enter => cases inner <;> exact h.elim

theorem Confined.body (body : List Stmt) (h : Confined (inner + 1) todo) :
    Confined (inner + 1) (body.map .run ++ todo) := by
  induction body with
  | nil => exact h
  | cons s rest ih => exact ⟨nofun, ih⟩

/-- What a confined statement leaves to do is confined. -/
theorem confinedFrom_of_leaves {statement : Stmt} {s t : State} (h : statement.Leaves s t tasks)
    (hstatement : inner = 0 → statement.Confined) (htodo : Confined inner todo) :
    ConfinedFrom inner (tasks ++ todo) := by
  cases h with
  | @block span body =>
      -- a block opens a scope for itself, in which all may be declared
      rw [scoped_append]
      have hleave : Confined (inner + 1) (.leave :: todo) := htodo
      exact hleave.body body
  | @branch span keyword condition yes no _ b _ =>
      cases no with
      | none =>
          cases b with
          | true => exact ⟨hstatement, htodo⟩
          | false => exact htodo.start
      | some no =>
          cases b with
          | true => exact ⟨fun hinner => (hstatement hinner).1, htodo⟩
          | false => exact ⟨fun hinner => (hstatement hinner).2, htodo⟩
  | @loop span keyword condition body _ b _ =>
      cases b with
      | true => exact ⟨hstatement, hstatement, htodo⟩
      | false => exact htodo.start
  | _ => exact htodo.start

end Task

/-! ## Runs with one more scope -/

/-- Whether a pause is in the middle of a statement that may be run `inner` scopes inside the
outermost `depth` ones, with such work behind it. -/
structure Pause.Confined (depth inner : Nat) (p : Pause) : Prop where
  depth : p.state.scopes.length = inner + depth
  todo : Task.Confined inner p.todo
  planned : ∃ (s : Stmt) (front : List Action), (inner = 0 → s.Confined) ∧
    s.plan p.state.scopes = ⟨front ++ p.current :: p.rest.actions, p.rest.result⟩

/-- Whether a progress is such a pause, or an end with no more than these scopes. -/
def Progress.Confined (depth : Nat) : Progress → Prop
  | .paused p => ∃ inner, p.Confined depth inner
  | .ended t _ => t.scopes.length = depth

/-- The progress with an empty scope right inside the outermost `depth` scopes. -/
def Progress.widen (depth : Nat) : Progress → Progress
  | .paused p => .paused { p with state := p.state.widen depth }
  | .ended t stop => .ended (t.widen depth) stop

theorem State.leave_widen {depth : Nat} {s : State} (h : depth < s.scopes.length) :
    (s.widen depth).leave = s.leave.widen depth :=
  congrArg (State.mk · s.output) (Scopes.leave_widen h)

theorem State.enter_widen {depth : Nat} {s : State} (h : depth ≤ s.scopes.length) :
    (s.widen depth).enter = s.enter.widen depth :=
  congrArg (State.mk · s.output) (Scopes.widen_cons [] h).symm

theorem State.length_leave {n : Nat} {s : State} (h : s.scopes.length = n + 1) :
    s.leave.scopes.length = n := by
  show s.scopes.tail.length = n
  rw [List.length_tail, h, Nat.add_sub_cancel]

namespace Task

variable {depth inner : Nat}

/-- Confined tasks leave the outermost scopes open. -/
theorem unwind_widen {s : State} {todo : List Task} (hdepth : s.scopes.length = inner + depth)
    (h : Confined inner todo) :
    (unwind s todo).scopes.length = depth ∧
      unwind (s.widen depth) todo = (unwind s todo).widen depth := by
  induction todo generalizing s inner with
  | nil =>
      obtain rfl : inner = 0 := h
      exact ⟨hdepth.trans (Nat.zero_add depth), rfl⟩
  | cons task todo ih =>
      cases task with
      | run statement => exact ih hdepth h.2
      | enter => cases inner <;> exact h.elim
      | leave =>
          cases inner with
          | zero => exact h.elim
          | succ inner =>
              have hleave : s.leave.scopes.length = inner + depth :=
                State.length_leave (by omega)
              have hwiden : unwind (s.widen depth) (.leave :: todo) =
                  unwind (s.leave.widen depth) todo := by
                rw [← State.leave_widen (by omega)]
                rfl
              rw [hwiden]
              exact ih hleave h

/-- **The work between two actions is done alike with an empty scope more.** -/
theorem settle_widen {s : State} {tasks : List Task} (hdepth : s.scopes.length = inner + depth)
    (h : ConfinedFrom inner tasks) :
    (settle s tasks).Confined depth ∧
      settle (s.widen depth) tasks = (settle s tasks).widen depth := by
  induction s, tasks using settle.induct generalizing inner with
  | case1 s =>
      obtain rfl : inner = 0 := h
      rw [settle_nil, settle_nil]
      exact ⟨hdepth.trans (Nat.zero_add depth), rfl⟩
  | case2 s todo ih =>
      -- one scope more is open, and the tasks close it again
      have henter : s.enter.scopes.length = inner + 1 + depth := by
        show s.scopes.length + 1 = _
        omega
      rw [settle_enter, settle_enter, State.enter_widen (by omega)]
      exact ih henter (Confined.start h)
  | case3 s todo ih =>
      cases inner with
      | zero => exact h.elim
      | succ inner =>
          rw [settle_leave, settle_leave, State.leave_widen (by omega)]
          exact ih (State.length_leave (by omega)) (Confined.start h)
  | case4 s statement todo current queue hactions =>
      -- the plan is the same, so both runs pause at the same action
      have hplan := statement.plan_widen depth s.scopes
      rw [settle_of_actions hactions, settle_of_actions (s := s.widen depth) (hplan ▸ hactions)]
      have hconfined : Pause.Confined depth inner
          ⟨s, current, ⟨queue, (statement.plan s.scopes).result⟩, todo⟩ :=
        ⟨hdepth, h.2, statement, [], h.1, by rw [List.nil_append, ← hactions]⟩
      refine ⟨⟨inner, hconfined⟩, ?_⟩
      show Progress.paused ⟨_, _, ⟨queue, (statement.plan (s.scopes.widen depth)).result⟩, _⟩ = _
      rw [hplan]
      rfl
  | case5 s statement todo tasks hactions hresult _ ih =>
      have hplan := statement.plan_widen depth s.scopes
      have hleaves : statement.Leaves s (s.commitAll []) tasks :=
        Stmt.leaves_of_plan (by rw [← hactions, ← hresult])
      rw [settle_of_tasks hactions hresult,
        settle_of_tasks (s := s.widen depth) (hplan ▸ hactions) (hplan ▸ hresult)]
      exact ih hdepth (confinedFrom_of_leaves hleaves h.1 h.2)
  | case6 s statement todo stop hactions hresult =>
      have hplan := statement.plan_widen depth s.scopes
      obtain ⟨hlength, hunwind⟩ := unwind_widen hdepth h.2
      rw [settle_of_stop hactions hresult,
        settle_of_stop (s := s.widen depth) (hplan ▸ hactions) (hplan ▸ hresult), hunwind]
      exact ⟨hlength, rfl⟩

end Task

/-- **A step is made alike with an empty scope more.** -/
theorem Pause.Confined.resume {depth inner : Nat} {p : Pause} (h : p.Confined depth inner) :
    p.resume.Confined depth ∧
      Pause.resume { p with state := p.state.widen depth } = p.resume.widen depth := by
  obtain ⟨state, current, ⟨actions, result⟩, todo⟩ := p
  obtain ⟨hdepth, htodo, s, front, hs, hplan⟩ := h
  replace hdepth : state.scopes.length = inner + depth := hdepth
  replace hplan : s.plan state.scopes = ⟨front ++ current :: actions, result⟩ := hplan
  -- a declaration is run inside of a block, and so inside of the empty scope
  have hdeclares : current.Declares → depth < state.scopes.length := by
    intro hcurrent
    by_contra hle
    have hconfined := Stmt.not_declares_of_confined (hs (by omega)) state.scopes
    rw [hplan] at hconfined
    exact hconfined current (List.mem_append_right _ List.mem_cons_self) hcurrent
  have hcommit : current.commit (state.widen depth) = (current.commit state).widen depth :=
    Action.commit_widen hdeclares
  have hlength : (current.commit state).scopes.length = inner + depth :=
    (current.length_commit state).trans hdepth
  show (Task.proceed (current.commit state) ⟨actions, result⟩ todo).Confined depth ∧
    Task.proceed (current.commit (state.widen depth)) ⟨actions, result⟩ todo =
      (Task.proceed (current.commit state) ⟨actions, result⟩ todo).widen depth
  rw [hcommit]
  cases actions with
  | cons next queue =>
      -- the statement goes on, so the action was not its last one and has changed nothing
      rw [Action.commit_of_silent (Stmt.silent_of_plan hplan)]
      refine ⟨⟨inner, hdepth, htodo, s, front ++ [current], hs, ?_⟩, rfl⟩
      rw [List.append_assoc]
      exact hplan
  | nil =>
      cases result with
      | error stop =>
          obtain ⟨hend, hunwind⟩ := Task.unwind_widen hlength htodo
          rw [Task.proceed_nil_error, Task.proceed_nil_error, hunwind]
          exact ⟨hend, rfl⟩
      | ok tasks =>
          rw [Task.proceed_nil_ok, Task.proceed_nil_ok]
          exact Task.settle_widen hlength
            (Task.confinedFrom_of_leaves (Stmt.leaves_of_plan hplan) hs htodo)

/-- **A run goes on alike with an empty scope more.** -/
theorem Progress.Confined.after {depth : Nat} {progress : Progress} (h : progress.Confined depth)
    (n : Nat) :
    (progress.after n).Confined depth ∧
      (progress.widen depth).after n = (progress.after n).widen depth := by
  induction n generalizing progress with
  | zero => exact ⟨h, rfl⟩
  | succ n ih =>
      cases progress with
      | ended t stop =>
          rw [Progress.after_ended]
          exact ⟨h, Progress.after_ended _ _ _⟩
      | paused p =>
          obtain ⟨inner, hp⟩ := h
          obtain ⟨hconfined, hresume⟩ := hp.resume
          obtain ⟨hafter, hwiden⟩ := ih hconfined
          rw [← hresume] at hwiden
          exact ⟨hafter, hwiden⟩

/-! ## Loops and branches -/

/-- Whether a record shows the same as another one, but for a scope with number `depth`: if there
is one, it is empty, and without it the scopes are the same. -/
structure Record.Unrolls (depth : Nat) (r r' : Record) : Prop where
  /-- The same message, places and substitutions. -/
  action : r'.action = r.action
  output : r'.state.snapshot.output = r.state.snapshot.output
  empty : ∀ scope, r'.state.snapshot.scopes[depth]? = some scope → scope = []
  scopes : r'.state.snapshot.scopes.eraseIdx depth = r.state.snapshot.scopes

/-- Whether two runs wait with such records, or have come to the same end. -/
def Progress.Unrolls (depth : Nat) : Progress → Progress → Prop
  | .paused p, .paused q => p.record.Unrolls depth q.record
  | .ended t stop, .ended u stop' => u = t ∧ stop' = stop
  | _, _ => False

theorem Record.unrolls_refl {depth : Nat} {r : Record} (h : r.state.scopes.length = depth) :
    r.Unrolls depth r where
  action := rfl
  output := rfl
  empty := by
    intro scope hscope
    have hnone : r.state.snapshot.scopes[depth]? = none := by
      refine List.getElem?_eq_none ?_
      show r.state.scopes.reverse.length ≤ depth
      rw [List.length_reverse, h]
    rw [hnone] at hscope
    cases hscope
  scopes := by
    refine List.eraseIdx_of_length_le ?_
    show r.state.scopes.reverse.length ≤ depth
    rw [List.length_reverse, h]

/-- An empty scope is taken away again when it is closed. -/
theorem Progress.unrolls_widen {depth : Nat} {progress : Progress} (h : progress.Confined depth) :
    progress.Unrolls depth ((progress.widen depth).followedBy [.leave]) := by
  cases progress with
  | ended t stop =>
      replace h : t.scopes.length = depth := h
      show Progress.Unrolls depth _ ((Progress.ended (t.widen depth) stop).followedBy [.leave])
      -- at the end the empty scope is the innermost one, and is closed
      rw [followedBy_leave_ended]
      refine ⟨?_, rfl⟩
      show State.mk (t.scopes.widen depth).tail t.output = t
      rw [Scopes.widen_of_length h]
      rfl
  | paused p =>
      obtain ⟨inner, hp⟩ := h
      have hle : depth ≤ p.state.scopes.length := by
        have hdepth := hp.depth
        omega
      obtain ⟨hempty, herase⟩ := Scopes.reverse_widen hle
      refine ⟨rfl, rfl, fun scope hscope => ?_, herase⟩
      exact (Option.some.inj (hempty.symm.trans hscope)).symm

/-- Silent actions come first, and show the same. -/
theorem Task.unrolls_proceed {s : State} {actions : List Action}
    (hsilent : ∀ a ∈ actions, a.Silent)
    {result result' : Except Stop (List Task)} {todo todo' : List Task}
    (h : ∀ n, Progress.Unrolls s.scopes.length ((proceed s ⟨[], result⟩ todo).after n)
      ((proceed s ⟨[], result'⟩ todo').after n)) (n : Nat) :
    Progress.Unrolls s.scopes.length ((proceed s ⟨actions, result⟩ todo).after n)
      ((proceed s ⟨actions, result'⟩ todo').after n) := by
  induction actions generalizing n with
  | nil => exact h n
  | cons a actions ih =>
      cases n with
      | zero => exact Record.unrolls_refl rfl
      | succ n =>
          have hcommit := Action.commit_of_silent (hsilent a List.mem_cons_self) s
          have hnext := ih (fun b hb => hsilent b (List.mem_cons_of_mem a hb)) n
          show Progress.Unrolls _ ((proceed (a.commit s) ⟨actions, result⟩ todo).after n)
            ((proceed (a.commit s) ⟨actions, result'⟩ todo').after n)
          rw [hcommit]
          exact hnext

theorem Task.unrolls_stop (s : State) (stop : Stop) (n : Nat) :
    Progress.Unrolls s.scopes.length ((proceed s ⟨[], .error stop⟩ []).after n)
      ((proceed s ⟨[], .error stop⟩ []).after n) := by
  rw [proceed_nil_error, Progress.after_ended]
  exact ⟨rfl, rfl⟩

section

variable {condition : Expr} {s : State} {yes yes' no no' : List Task}
  (hyes : ∀ n, Progress.Unrolls s.scopes.length ((Task.settle s yes).after n)
    ((Task.settle s yes').after n))
  (hno : ∀ n, Progress.Unrolls s.scopes.length ((Task.settle s no).after n)
    ((Task.settle s no').after n))
include hyes hno

theorem Expr.unrolls_verdict (v : Value) (n : Nat) :
    Progress.Unrolls s.scopes.length ((Task.proceed s ⟨[], condition.verdict yes no v⟩ []).after n)
      ((Task.proceed s ⟨[], condition.verdict yes' no' v⟩ []).after n) := by
  cases v with
  | bool b =>
      cases b with
      | true =>
          show Progress.Unrolls _ ((Task.settle s (yes ++ [])).after n)
            ((Task.settle s (yes' ++ [])).after n)
          rw [List.append_nil, List.append_nil]
          exact hyes n
      | false =>
          show Progress.Unrolls _ ((Task.settle s (no ++ [])).after n)
            ((Task.settle s (no' ++ [])).after n)
          rw [List.append_nil, List.append_nil]
          exact hno n
  | _ => exact Task.unrolls_stop s _ n

/-- Two statements with the same condition show the same if they do behind its verdict. -/
theorem Expr.unrolls_test {keyword : Span} {statement statement' : Stmt}
    (hplan : statement.plan s.scopes = condition.test keyword s.scopes yes no)
    (hplan' : statement'.plan s.scopes = condition.test keyword s.scopes yes' no') (n : Nat) :
    Progress.Unrolls s.scopes.length ((Task.settle s [.run statement]).after n)
      ((Task.settle s [.run statement']).after n) := by
  rw [Task.settle_run, Task.settle_run, hplan, hplan']
  cases hv : (condition.eval s.scopes).result with
  | error stop =>
      have hstop (yes no : List Task) : condition.test keyword s.scopes yes no =
          ⟨(condition.eval s.scopes).actions, .error stop⟩ := andThen_of_error hv _
      rw [hstop, hstop]
      exact Task.unrolls_proceed (condition.silent_eval s.scopes) (Task.unrolls_stop s stop) n
  | ok v =>
      rw [Expr.test_of_ok hv, Expr.test_of_ok hv]
      refine Task.unrolls_proceed (fun a ha => ?_) (Expr.unrolls_verdict hyes hno v) n
      rcases List.mem_append.mp ha with ha | ha
      · exact condition.silent_eval s.scopes a ha
      · rw [List.mem_singleton.mp ha]
        trivial

end

/-- The statements of a block are done in a scope that is closed behind them. -/
theorem Task.settle_block (s : State) (place : Span) (body : List Stmt) :
    settle s [.run (.block place body)] = (Stmt.execute body s.enter).followedBy [.leave] := by
  rw [settle_run]
  show settle s (Task.scoped body ++ []) = _
  rw [scoped_append, settle_enter, settle_append]
  rfl

/-- **A loop can be unrolled.** In every state, a loop over a block and a branch that holds one
round of the block and then the loop announce the same actions with the same output, one by one
and for as long as they go on. The scopes that they show are the same without the empty one that
the branch has opened, and they end in the same state and with the same outcome, if they end. -/
theorem Stmt.loop_unrolls (condition : Expr) (body : List Stmt)
    (span keyword place span' place' : Span) (s : State) (n : Nat) :
    Progress.Unrolls s.scopes.length
      ((Stmt.execute [.loop span keyword condition (.block place body)] s).after n)
      ((Stmt.execute [.branch span' keyword condition
        (.block place' [.block place body, .loop span keyword condition (.block place body)])
        none] s).after n) := by
  refine Expr.unrolls_test (fun n => ?_) (fun n => ?_) rfl rfl n
  · -- the branch opens a scope around the round and the loop, and closes it at the end
    have hround : Task.ConfinedFrom 0
        [.run (.block place body), .run (.loop span keyword condition (.block place body))] :=
      ⟨fun _ => trivial, fun _ => trivial, rfl⟩
    have hopen : s.enter = s.widen s.scopes.length :=
      congrArg (State.mk · s.output) (Scopes.widen_of_length rfl).symm
    obtain ⟨hconfined, hwiden⟩ := Task.settle_widen (Nat.zero_add _).symm hround
    rw [← hopen] at hwiden
    obtain ⟨hafter, hrun⟩ := hconfined.after n
    rw [Task.settle_block, Progress.after_followedBy_leave]
    have hbranch := Progress.unrolls_widen hafter
    rw [← hrun, ← hwiden] at hbranch
    exact hbranch
  · -- the condition is false, and nothing is left to do on either side
    show Progress.Unrolls _ ((Task.settle s []).after n) ((Task.settle s []).after n)
    rw [Task.settle_nil, Progress.after_ended]
    exact ⟨rfl, rfl⟩

end Stepwise
