import Stepwise.Proofs.Unwinding

/-!
# One list of statements behind another

Work can be cut in two anywhere. What is done with more work behind it is done just the same, and
goes on with that work when it has come to its end; if it is stopped, of the work behind it only
the scopes are closed (`Progress.followedBy`). `Task.settle_append` says this of what happens
between two actions, `Pause.resume_behind` of a step, and `Progress.after_followedBy` of a run.

A program is a list of statements in a scope of its own, so it can be cut between any two of them
(`Machine.trail_append_eq`). If the first statements do not run to their end, the others do not
matter. If they do, the others start from what is left in the scope.
-/

namespace Stepwise

/-! ## Work behind other work -/

/-- The progress with more work behind it: an end goes on with that work, and a stop closes the
scopes that the work would close. -/
def Progress.followedBy (more : List Task) : Progress → Progress
  | .paused p => .paused { p with todo := p.todo ++ more }
  | .ended s none => Task.settle s more
  | .ended s (some stop) => .ended (Task.unwind s more) (some stop)

namespace Task

variable {s : State} {statement : Stmt} {todo : List Task}

/-- A statement that announces something is where the program pauses. -/
theorem settle_of_actions {current : Action} {queue : List Action}
    (h : (statement.plan s.scopes).actions = current :: queue) :
    settle s (.run statement :: todo) =
      .paused ⟨s, current, ⟨queue, (statement.plan s.scopes).result⟩, todo⟩ := by
  rw [settle_run]
  simp only [proceed, h]

/-- A statement that announces nothing is replaced by what it leaves to do. -/
theorem settle_of_tasks {tasks : List Task} (h : (statement.plan s.scopes).actions = [])
    (htasks : (statement.plan s.scopes).result = .ok tasks) :
    settle s (.run statement :: todo) = settle s (tasks ++ todo) := by
  rw [settle_run]
  simp only [proceed, h, htasks]

theorem settle_of_stop {stop : Stop} (h : (statement.plan s.scopes).actions = [])
    (hstop : (statement.plan s.scopes).result = .error stop) :
    settle s (.run statement :: todo) = .ended (unwind s todo) (some stop) := by
  rw [settle_run]
  simp only [proceed, h, hstop]

theorem unwind_append (s : State) (tasks more : List Task) :
    unwind s (tasks ++ more) = unwind (unwind s tasks) more := List.foldl_append

/-- **Tasks with more work behind them are done as without it.** -/
theorem settle_append (s : State) (tasks more : List Task) :
    settle s (tasks ++ more) = (settle s tasks).followedBy more := by
  induction s, tasks using settle.induct with
  | case1 s => rw [settle_nil]; rfl
  | case2 s todo ih => rw [List.cons_append, settle_enter, settle_enter, ih]
  | case3 s todo ih => rw [List.cons_append, settle_leave, settle_leave, ih]
  | case4 s statement todo current queue h =>
      rw [List.cons_append, settle_of_actions h, settle_of_actions h]
      rfl
  | case5 s statement todo tasks h htasks _ ih =>
      -- nothing to announce, so the tasks of the statement take its place
      rw [List.cons_append, settle_of_tasks h htasks, settle_of_tasks h htasks, ← ih,
        List.append_assoc]
  | case6 s statement todo stop h hstop =>
      -- a stop: what is left is unwound, and then what is behind it
      rw [List.cons_append, settle_of_stop h hstop, settle_of_stop h hstop, unwind_append]
      rfl

theorem proceed_append (s : State) (rest : Evaluation (List Task)) (todo more : List Task) :
    proceed s rest (todo ++ more) = (proceed s rest todo).followedBy more := by
  obtain ⟨actions, result⟩ := rest
  cases actions with
  | cons current queue => rfl
  | nil =>
      cases result with
      | ok tasks =>
          rw [proceed_nil_ok, proceed_nil_ok, ← List.append_assoc, settle_append]
      | error stop =>
          rw [proceed_nil_error, proceed_nil_error, unwind_append]
          rfl

end Task

/-- **A step does not look at the work behind.** -/
theorem Pause.resume_behind (p : Pause) (more : List Task) :
    Pause.resume { p with todo := p.todo ++ more } = p.resume.followedBy more :=
  Task.proceed_append (p.current.commit p.state) p.rest p.todo more

namespace Progress

variable {progress : Progress}

/-- **A run does not look at the work behind**, as long as it has not come to that work. -/
theorem after_followedBy (more : List Task) {n : Nat}
    (h : ∀ i < n, ∀ s, progress.after i ≠ .ended s none) :
    (progress.followedBy more).after n = (progress.after n).followedBy more := by
  induction n generalizing progress with
  | zero => rfl
  | succ n ih =>
      cases progress with
      | paused p =>
          -- one step first, and the run behind it by induction
          have hnext : (p.resume.followedBy more).after n = (p.resume.after n).followedBy more :=
            ih fun i hi => h (i + 1) (by omega)
          rw [← p.resume_behind] at hnext
          exact hnext
      | ended s stop =>
          cases stop with
          -- only here would the further work have begun
          | none => exact absurd rfl (h 0 (by omega) s)
          | some stop =>
              rw [after_ended]
              exact after_ended (n + 1) (Task.unwind s more) (some stop)

@[simp] theorem followedBy_leave_ended (s : State) (stop : Option Stop) :
    (Progress.ended s stop).followedBy [.leave] = .ended s.leave stop := by
  cases stop with
  | none =>
      show Task.settle s [.leave] = _
      rw [Task.settle_leave, Task.settle_nil]
  | some stop => rfl

/-- Closing a scope behind everything else can be put off to the end. -/
theorem after_followedBy_leave (progress : Progress) (n : Nat) :
    (progress.followedBy [.leave]).after n = (progress.after n).followedBy [.leave] := by
  induction n generalizing progress with
  | zero => rfl
  | succ n ih =>
      cases progress with
      | paused p =>
          have hnext := ih p.resume
          rw [← p.resume_behind] at hnext
          exact hnext
      -- an end stays an end, with or without the scope that is closed
      | ended s stop => rw [after_ended, followedBy_leave_ended, after_ended]

@[simp] theorem record?_followedBy_leave (progress : Progress) :
    (progress.followedBy [.leave]).record? = progress.record? := by
  cases progress with
  | paused p => rfl
  | ended s stop => rw [followedBy_leave_ended]; rfl

theorem followedBy_leave_eq_ended_iff {u : State} {stop : Option Stop} :
    progress.followedBy [.leave] = .ended u stop ↔
      ∃ v, progress = .ended v stop ∧ u = v.leave := by
  cases progress with
  | paused p =>
      constructor
      · intro h
        cases h
      · rintro ⟨v, h, _⟩
        cases h
  | ended s stop' =>
      rw [followedBy_leave_ended]
      constructor
      · intro h
        cases h
        exact ⟨s, rfl, rfl⟩
      · rintro ⟨v, h, rfl⟩
        cases h
        rfl

/-- What is left out behind an end that is none makes no difference: a record stays what it is,
and a stop closes the same scopes. -/
theorem followedBy_body (body : List Stmt) (h : ∀ s, progress ≠ .ended s none) :
    (progress.followedBy (body.map .run ++ [.leave])).record? = progress.record? ∧
      ∀ u stop, progress.followedBy (body.map .run ++ [.leave]) = .ended u stop ↔
        progress.followedBy [.leave] = .ended u stop := by
  cases progress with
  | paused p => exact ⟨rfl, fun u stop => ⟨nofun, nofun⟩⟩
  | ended s stop =>
      cases stop with
      | none => exact absurd rfl (h s)
      | some stop =>
          refine ⟨rfl, fun u stop' => ?_⟩
          -- statements that are not done any more close no scope
          show Progress.ended (Task.unwind s (body.map .run ++ [.leave])) _ = _ ↔ _
          rw [Task.unwind_runs]
          rfl

/-- A run that has ended has paused before the first place where that is so. -/
theorem exists_first_none {n : Nat} {s : State} (h : progress.after n = .ended s none) :
    ∃ d, progress.after d = .ended s none ∧ ∀ i < d, ∃ p, progress.after i = .paused p := by
  induction n generalizing progress with
  | zero => exact ⟨0, h, nofun⟩
  | succ n ih =>
      cases progress with
      | ended s' stop =>
          rw [after_ended] at h
          exact ⟨0, h, nofun⟩
      | paused p =>
          -- the first place is one step later than that of the run behind this pause
          obtain ⟨d, hd, hbefore⟩ := ih h
          refine ⟨d + 1, hd, fun i hi => ?_⟩
          cases i with
          | zero => exact ⟨p, rfl⟩
          | succ i => exact hbefore i (by omega)

/-- At a record a run has not ended before. -/
theorem ne_ended_of_record? {n : Nat} {r : Record} (h : (progress.after n).record? = some r) :
    ∀ i ≤ n, ∀ s stop, progress.after i ≠ .ended s stop := by
  intro i hi s stop hend
  have hsplit := after_add i (n - i) progress
  rw [hend, after_ended, Nat.add_sub_cancel' hi] at hsplit
  rw [hsplit] at h
  cases h

end Progress

/-! ## Programs -/

/-- The statements of a list, done in order in the scopes that are open. -/
def Stmt.execute (body : List Stmt) (s : State) : Progress := Task.settle s (body.map .run)

/-- Statements that have run to their end leave as many scopes as before. -/
theorem Stmt.length_scopes_of_execute {body : List Stmt} {s t : State} {stop : Option Stop}
    {n : Nat}
    (h : (Stmt.execute body s).after n = .ended t stop) : t.scopes.length = s.scopes.length := by
  -- what the statements mean says how they leave the scopes
  have hmeans := Task.finishes_iff_means.mp (Task.after_settle_iff.mp ⟨n, h⟩)
  rw [← List.append_nil (body.map Task.run)] at hmeans
  rcases Task.runsAll_of_means hmeans with ⟨u, hall, rfl, _⟩ | ⟨u, e, hall, rfl, _⟩
  · exact (Stmt.frames_of_runsAll hall).depth
  · exact (Stmt.frames_of_runsAll hall).depth

namespace Machine

variable {first second : List Stmt}

/-- The run of two lists of statements is that of the first one, with the second one behind it. -/
theorem trail_append_eq (first second : List Stmt) (n : Nat) :
    trail (first ++ second) (n + 1) =
      .reached (((Stmt.execute first (State.enter {})).followedBy
        (second.map .run ++ [.leave])).after n) := by
  rw [trail_succ_eq_after]
  refine congrArg (fun progress : Progress => Machine.reached (progress.after n)) ?_
  show Task.settle {} (.enter :: ((first ++ second).map .run ++ [.leave])) = _
  rw [Task.settle_enter, List.map_append, List.append_assoc, Task.settle_append]
  rfl

/-- A program is its statements in one scope, which is closed at the end. -/
theorem trail_eq_execute (program : List Stmt) (n : Nat) :
    trail program (n + 1) =
      .reached (((Stmt.execute program (State.enter {})).after n).followedBy [.leave]) := by
  have hrun := trail_append_eq program [] n
  rw [List.append_nil] at hrun
  rw [hrun, ← Progress.after_followedBy_leave]
  rfl

theorem recordAt_eq_execute (program : List Stmt) (n : Nat) :
    recordAt program n = ((Stmt.execute program (State.enter {})).after n).record? := by
  rw [recordAt, trail_eq_execute]
  exact Progress.record?_followedBy_leave _

/-- As long as the first statements have not run to their end, the others make no difference. -/
theorem trail_append_of_ne {n : Nat}
    (h : ∀ i ≤ n, ∀ s, (Stmt.execute first (State.enter {})).after i ≠ .ended s none) :
    recordAt (first ++ second) n = recordAt first n ∧
      ∀ t stop, trail (first ++ second) (n + 1) = .reached (.ended t stop) ↔
        trail first (n + 1) = .reached (.ended t stop) := by
  -- up to here the run has not come to the second part
  have hbefore := Progress.after_followedBy (n := n) (second.map .run ++ [.leave])
    fun i hi => h i (by omega)
  obtain ⟨hrecord, hend⟩ := Progress.followedBy_body second (h n (Nat.le_refl n))
  refine ⟨?_, fun t stop => ?_⟩
  · rw [recordAt, trail_append_eq, hbefore, recordAt_eq_execute]
    exact hrecord
  · rw [trail_append_eq, hbefore, trail_eq_execute]
    constructor
    · intro heq
      injection heq with heq
      exact congrArg Machine.reached ((hend t stop).mp heq)
    · intro heq
      injection heq with heq
      exact congrArg Machine.reached ((hend t stop).mpr heq)

/-- Behind the end of the first statements the others are done. -/
theorem trail_append_behind {d : Nat} {s : State}
    (hend : (Stmt.execute first (State.enter {})).after d = .ended s none)
    (hbefore : ∀ i < d, ∃ p, (Stmt.execute first (State.enter {})).after i = .paused p) (i : Nat) :
    trail (first ++ second) (d + i + 1) =
      .reached (((Stmt.execute second s).after i).followedBy [.leave]) := by
  -- the first part has paused all the way to its end, where the second one takes over
  have hcome := Progress.after_followedBy (n := d) (second.map .run ++ [.leave])
    fun j hj u hu => by
      obtain ⟨p, hp⟩ := hbefore j hj
      rw [hp] at hu
      cases hu
  rw [trail_append_eq, Progress.after_add, hcome, hend]
  show Machine.reached ((Task.settle s (second.map .run ++ [.leave])).after i) = _
  rw [Task.settle_append, Progress.after_followedBy_leave]
  rfl

/-- Further statements never change a record. -/
theorem recordAt_append_of_some {n : Nat} {r : Record} (h : recordAt first n = some r) :
    recordAt (first ++ second) n = recordAt first n := by
  rw [recordAt_eq_execute] at h
  exact (trail_append_of_ne fun i hi s => Progress.ne_ended_of_record? h i hi s none).1

/-- Statements that run to their end leave one scope and what they have written; they have paused
before, and not since. -/
theorem exists_scope_of_ended {n : Nat} {t : State}
    (h : trail first n = .reached (.ended t none)) :
    ∃ d scope, (Stmt.execute first (State.enter {})).after d = .ended ⟨[scope], t.output⟩ none ∧
      ∀ i < d, ∃ p, (Stmt.execute first (State.enter {})).after i = .paused p := by
  cases n with
  | zero => cases h
  | succ n =>
      rw [trail_eq_execute] at h
      injection h with h
      obtain ⟨s, hs, rfl⟩ := Progress.followedBy_leave_eq_ended_iff.mp h
      obtain ⟨d, hd, hbefore⟩ := Progress.exists_first_none hs
      -- one scope was open at the start, so one is open now
      obtain ⟨scope, hscope⟩ := List.length_eq_one_iff.mp (Stmt.length_scopes_of_execute hd)
      have hstate : s = ⟨[scope], s.leave.output⟩ := by
        rw [← hscope]
        rfl
      exact ⟨d, scope, hstate ▸ hd, hbefore⟩

/-- The records are the places before the end. -/
theorem isSome_recordAt_iff {d : Nat} {s : State}
    (hend : (Stmt.execute first (State.enter {})).after d = .ended s none)
    (hbefore : ∀ i < d, ∃ p, (Stmt.execute first (State.enter {})).after i = .paused p) (i : Nat) :
    (recordAt first i).isSome ↔ i < d := by
  rw [recordAt_eq_execute]
  constructor
  · intro hsome
    obtain ⟨r, hr⟩ := Option.isSome_iff_exists.mp hsome
    -- there is no record behind the end
    by_contra hle
    exact Progress.ne_ended_of_record? hr d (by omega) _ _ hend
  · intro hi
    obtain ⟨p, hp⟩ := hbefore i hi
    rw [hp]
    rfl

/-- **Programs can be cut between any two statements.** If the first statements are stopped or
go on forever, the run is theirs, and the same holds of its end. If they run to their end,
they leave one scope and what they have written; the run is theirs up to there, and goes on
with the run of the other statements from that state, and with its end. So further statements
never change a record. -/
theorem run_append (first second : List Stmt) :
    ((¬∃ n t, trail first n = .reached (.ended t none)) → ∀ n,
      recordAt (first ++ second) n = recordAt first n ∧
      ∀ t stop, trail (first ++ second) n = .reached (.ended t stop) ↔
        trail first n = .reached (.ended t stop)) ∧
    (∀ n t, trail first n = .reached (.ended t none) → ∃ d scope,
      (Stmt.execute first (State.enter {})).after d = .ended ⟨[scope], t.output⟩ none ∧
      (∀ i, (recordAt first i).isSome ↔ i < d) ∧
      (∀ i < d, recordAt (first ++ second) i = recordAt first i) ∧
      (∀ i, recordAt (first ++ second) (d + i) =
        ((Stmt.execute second ⟨[scope], t.output⟩).after i).record?) ∧
      ∀ i u stop, trail (first ++ second) (d + i + 1) = .reached (.ended u stop) ↔
        ∃ v, (Stmt.execute second ⟨[scope], t.output⟩).after i = .ended v stop ∧ u = v.leave) ∧
    ∀ n r, recordAt first n = some r → recordAt (first ++ second) n = some r := by
  refine ⟨fun hnever n => ?_, fun n t hend => ?_, fun n r hr => ?_⟩
  · -- an end of the first part would be an end of the program that it is
    have hne (i : Nat) (s : State) :
        (Stmt.execute first (State.enter {})).after i ≠ .ended s none := by
      intro hend
      refine hnever ⟨i + 1, s.leave, ?_⟩
      rw [trail_eq_execute, hend, Progress.followedBy_leave_ended]
    refine ⟨(trail_append_of_ne fun i _ => hne i).1, ?_⟩
    cases n with
    | zero => exact fun t stop => ⟨nofun, nofun⟩
    | succ n => exact (trail_append_of_ne fun i _ => hne i).2
  · -- `d` is where the first part ends, and one part goes up to there, the other on from there
    obtain ⟨d, scope, hd, hbefore⟩ := exists_scope_of_ended hend
    have hcount := isSome_recordAt_iff hd hbefore
    refine ⟨d, scope, hd, hcount, fun i hi => ?_, fun i => ?_, fun i u stop => ?_⟩
    · obtain ⟨r, hr⟩ := Option.isSome_iff_exists.mp ((hcount i).mpr hi)
      exact recordAt_append_of_some hr
    · rw [recordAt, trail_append_behind hd hbefore]
      exact Progress.record?_followedBy_leave _
    · rw [trail_append_behind hd hbefore, ← Progress.followedBy_leave_eq_ended_iff]
      constructor
      · intro heq
        injection heq
      · exact congrArg Machine.reached
  · exact (recordAt_append_of_some hr).trans hr

/-- The program `var x = 1; { print x; }`. -/
def opening : List Stmt :=
  [.declare (.ofLength 0 10) "x" (some (.literal (.ofLength 8 1) (.int 1))),
   .block (.ofLength 11 12) [.print (.ofLength 13 8) (.var (.ofLength 19 1) "x")]]

/-- The program `x = 2; print x;`, which has no variable of its own. -/
def closing : List Stmt :=
  [.assign (.ofLength 0 6) "x" (.literal (.ofLength 4 1) (.int 2)),
   .print (.ofLength 7 8) (.var (.ofLength 13 1) "x")]

/-- Behind the first program the second one finds its variable. In front of it, it does not, and
the first program is never reached. -/
theorem run_append_opening :
    trail opening 4 = .reached (.ended ⟨[], "1\n"⟩ none) ∧
      (∃ d scope, (Stmt.execute opening (State.enter {})).after d = .ended ⟨[scope], "1\n"⟩ none ∧
        ∀ i, recordAt (opening ++ closing) (d + i) =
          ((Stmt.execute closing ⟨[scope], "1\n"⟩).after i).record?) ∧
      trail closing 2 =
        .reached (.ended ⟨[], ""⟩ (some (.error ⟨.undeclared "x", .ofLength 0 6⟩))) ∧
      ∀ n, recordAt (closing ++ opening) n = recordAt closing n := by
  have hopening : trail opening 4 = .reached (.ended ⟨[], "1\n"⟩ none) := by cbv
  have hclosing : trail closing 2 =
      .reached (.ended ⟨[], ""⟩ (some (.error ⟨.undeclared "x", .ofLength 0 6⟩))) := by cbv
  have hstopped : ¬∃ n t, trail closing n = .reached (.ended t none) := by
    rintro ⟨n, t, hend⟩
    have hlater := trail_ended hend 2
    rw [Nat.add_comm, trail_ended hclosing n] at hlater
    cases hlater
  obtain ⟨d, scope, hend, _, _, hrecords, _⟩ := (run_append opening closing).2.1 _ _ hopening
  refine ⟨hopening, ⟨d, scope, hend, hrecords⟩, hclosing, fun n => ?_⟩
  exact ((run_append closing opening).1 hstopped n).1

end Machine

end Stepwise
