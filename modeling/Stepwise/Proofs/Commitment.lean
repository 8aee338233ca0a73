import Mathlib
import Stepwise.Proofs.Points
import Stepwise.Proofs.Trail

/-!
# Announce, then commit

A record shows the state *before* its action. So two records that follow each other tell what the
first one has done: its announced effect, exactly once, and then nothing but scopes that are closed
and empty scopes that are opened on the way to the next statement.

* `Action.Effect` says what an action announces, in terms of the pictures before and behind it;
* `Snapshot.Reopens` says what may happen to the scopes between two statements: the outermost scope
  is never among those that are closed;
* `Pause.Underway` is the invariant of a run. A pause is in the middle of a statement that was
  planned in the very scopes that it shows, and the tasks ahead close the scopes that are open, the
  outermost one as their last act (`Task.Inside`).

`Pause.Underway.resume` is the step and `Machine.underway_trail` the run.
-/

namespace Stepwise

/-! ## What is announced -/

/-- What an action does to the picture of a state. A variable is declared in the innermost scope,
and a value is assigned in the last scope that has the variable, which keeps its declaration. -/
def Action.Effect (before after : Snapshot) : Action → Prop
  | .print _ v => after = { before with output := before.output ++ v.value.display ++ "\n" }
  | .declare span name initializer =>
    ∃ outer inner, before.scopes = outer ++ [inner] ∧
      after = { before with
        scopes := outer ++ [inner.set name ⟨span, initializer.map (·.value)⟩] }
  | .assign _ name v _ =>
    ∃ outer scope inner b, before.scopes = outer ++ scope :: inner ∧ scope.get? name = some b ∧
      (∀ other ∈ inner, other.get? name = none) ∧
      after = { before with
        scopes := outer ++ scope.set name { b with value := some v.value } :: inner }
  | .read _ _ _ | .binary _ _ _ | .unary _ _ | .check _ _ => after = before

/-- Whether the scopes are those before, less some inner ones, and then empty ones. -/
def Snapshot.Reopens (before after : Snapshot) : Prop :=
  after.output = before.output ∧
    ∃ kept opened, 1 ≤ kept ∧ kept ≤ before.scopes.length ∧
      after.scopes = before.scopes.take kept ++ List.replicate opened []

/-- The text that an action writes. -/
def Action.printed : Action → String
  | .print _ v => v.value.display ++ "\n"
  | _ => ""

theorem Action.output_commit (a : Action) (s : State) :
    (a.commit s).output = s.output ++ a.printed := by
  cases a with
  | print span v => exact String.append_assoc
  | _ => exact String.append_empty.symm

/-! ## Committing keeps the scopes open -/

namespace Scopes

theorem length_define (name : String) (b : Binding) (scopes : Scopes) :
    (scopes.define name b).length = scopes.length := by
  cases scopes with
  | nil => rfl
  | cons scope outer => rfl

theorem length_assign? {name : String} {v : Value} {scopes after : Scopes}
    (h : scopes.assign? name v = some after) : after.length = scopes.length := by
  induction scopes generalizing after with
  | nil => cases h
  | cons scope outer ih =>
      rw [assign?] at h
      split at h
      · cases h
        rfl
      · obtain ⟨rest, hrest, rfl⟩ := Option.map_eq_some_iff.mp h
        exact congrArg (· + 1) (ih hrest)

/-- The nearest variable is in some scope, and in none inside that one. -/
theorem exists_of_assign? {name : String} {v : Value} {scopes after : Scopes}
    (h : scopes.assign? name v = some after) :
    ∃ inner scope outer b, scopes = inner ++ scope :: outer ∧ scope.get? name = some b ∧
      (∀ other ∈ inner, Scope.get? other name = none) ∧
      after = inner ++ scope.set name { b with value := some v } :: outer := by
  induction scopes generalizing after with
  | nil => cases h
  | cons scope outer ih =>
      rw [assign?] at h
      split at h
      · rename_i b hb
        cases h
        exact ⟨[], scope, outer, b, rfl, hb, fun _ hmem => absurd hmem List.not_mem_nil, rfl⟩
      · rename_i hnone
        obtain ⟨rest, hrest, rfl⟩ := Option.map_eq_some_iff.mp h
        obtain ⟨inner, scope', outer', b, rfl, hb, hinner, rfl⟩ := ih hrest
        -- this scope has no such variable, so it is one more inside the right one
        refine ⟨scope :: inner, scope', outer', b, rfl, hb, fun other hother => ?_, rfl⟩
        rcases List.mem_cons.mp hother with rfl | hother
        · exact hnone
        · exact hinner other hother

end Scopes

theorem Action.length_commit (a : Action) (s : State) :
    (a.commit s).scopes.length = s.scopes.length := by
  cases a with
  | declare span name initializer => exact Scopes.length_define name _ s.scopes
  | assign span name v declared =>
      show ((s.scopes.assign? name v.value).getD s.scopes).length = _
      cases h : s.scopes.assign? name v.value with
      | none => rfl
      | some after => exact Scopes.length_assign? h
  | _ => rfl

/-- **What is committed is what was announced**, if the action has found its variable and there is
a scope to declare one in. -/
theorem Action.effect_commit {a : Action} {s : State} (hresolved : a.Resolved s.scopes)
    (hfound : a.unresolved? = none) (hopen : s.scopes ≠ []) :
    a.Effect s.snapshot (a.commit s).snapshot := by
  cases a with
  | declare span name initializer =>
      obtain ⟨inner, outer, hscopes⟩ := List.exists_cons_of_ne_nil hopen
      refine ⟨outer.reverse, inner, ?_, ?_⟩
      · simp [State.snapshot, hscopes]
      · simp [State.snapshot, Action.commit, hscopes, Scopes.define]
  | assign span name v declared =>
      have hdeclared : declared = (s.scopes.lookup name).map (·.declared) := hresolved
      -- the action has found its variable, so there is something to assign to
      have hlookup : (s.scopes.lookup name).isSome := by
        cases hname : s.scopes.lookup name with
        | some b => rfl
        | none =>
            rw [hname] at hdeclared
            rw [hdeclared] at hfound
            cases hfound
      rw [← Scopes.isSome_assign? s.scopes name v.value] at hlookup
      obtain ⟨after, hafter⟩ := Option.isSome_iff_exists.mp hlookup
      -- the picture shows the scopes the other way round
      obtain ⟨inner, scope, outer, b, hscopes, hb, hinner, rfl⟩ := Scopes.exists_of_assign? hafter
      refine ⟨outer.reverse, scope, inner.reverse, b, ?_, hb, ?_, ?_⟩
      · simp [State.snapshot, hscopes]
      · intro other hother
        exact hinner other (List.mem_reverse.mp hother)
      · simp [State.snapshot, Action.commit, hafter]
  | print span v => rfl
  | read span name declared => rfl
  | binary op left right => rfl
  | unary op operand => rfl
  | check keyword condition => rfl

/-! ## Closing and opening scopes -/

namespace Snapshot

variable {before : Snapshot} {s : State}

theorem reopens_refl (h : s.scopes ≠ []) : s.snapshot.Reopens s.snapshot := by
  refine ⟨rfl, s.snapshot.scopes.length, 0, ?_, Nat.le_refl _, ?_⟩
  · show 1 ≤ s.scopes.reverse.length
    rw [List.length_reverse]
    exact List.length_pos_iff.mpr h
  · simp

theorem Reopens.enter (h : before.Reopens s.snapshot) : before.Reopens s.enter.snapshot := by
  obtain ⟨houtput, kept, opened, hpos, hle, hscopes⟩ := h
  refine ⟨houtput, kept, opened + 1, hpos, hle, ?_⟩
  have henter : s.enter.snapshot.scopes = s.snapshot.scopes ++ [[]] := List.reverse_cons
  rw [henter, hscopes, List.append_assoc, List.replicate_succ']

/-- A scope that is closed is one that was opened in between, or the innermost of those that were
kept. -/
theorem Reopens.leave (h : before.Reopens s.snapshot) (hdepth : 2 ≤ s.scopes.length) :
    before.Reopens s.leave.snapshot := by
  obtain ⟨houtput, kept, opened, hpos, hle, hscopes⟩ := h
  have hleave : s.leave.snapshot.scopes = s.snapshot.scopes.dropLast := by
    show s.scopes.tail.reverse = s.scopes.reverse.dropLast
    rw [List.dropLast_reverse]
  -- how many scopes there are tells which kind is closed
  have hlength : s.scopes.length = kept + opened := by
    have hcount := congrArg List.length hscopes
    simpa [State.snapshot, Nat.min_eq_left hle] using hcount
  cases opened with
  | zero =>
      refine ⟨houtput, kept - 1, 0, by omega, by omega, ?_⟩
      have hkept : min (kept - 1) kept = kept - 1 := by omega
      rw [hleave, hscopes, List.replicate_zero, List.append_nil, List.append_nil,
        List.dropLast_eq_take, List.length_take, Nat.min_eq_left hle, List.take_take, hkept]
  | succ opened =>
      refine ⟨houtput, kept, opened, hpos, hle, ?_⟩
      rw [hleave, hscopes, List.replicate_succ', ← List.append_assoc, List.dropLast_concat]

end Snapshot

/-! ## The tasks ahead -/

namespace Task

/-- Whether the tasks close the scopes that are open: those inside the outermost scope, of which
there are `inner`, and the outermost one as the last task of all. -/
def Inside : Nat → List Task → Prop
  | _, [] => False
  | inner, .run _ :: todo => Inside inner todo
  | inner, .enter :: todo => Inside (inner + 1) todo
  | inner + 1, .leave :: todo => Inside inner todo
  | 0, .leave :: todo => todo = []

variable {inner : Nat} {todo : List Task}

theorem inside_body {body : List Stmt} (h : Inside inner todo) :
    Inside inner (body.map .run ++ todo) := by
  induction body with
  | nil => exact h
  | cons s rest ih => exact ih

theorem inside_scoped {body : List Stmt} (h : Inside inner todo) :
    Inside inner (Task.scoped body ++ todo) := by
  -- the scope that is opened is closed behind the body
  show Inside (inner + 1) (body.map .run ++ [.leave] ++ todo)
  rw [List.append_assoc]
  exact inside_body h

/-- What a statement leaves to do closes the scopes that it opens. -/
theorem inside_of_leaves {statement : Stmt} {s t : State} {tasks : List Task}
    (h : statement.Leaves s t tasks) (hinside : Inside inner todo) :
    Inside inner (tasks ++ todo) := by
  cases h with
  | block => exact inside_scoped hinside
  | @branch span keyword condition yes no _ b _ =>
      cases b with
      | true => exact hinside
      | false =>
          cases no with
          | none => exact hinside
          | some no => exact hinside
  | @loop span keyword condition body _ b _ =>
      cases b with
      | true => exact hinside
      | false => exact hinside
  | _ => exact hinside

@[simp] theorem output_unwind (s : State) (todo : List Task) :
    (unwind s todo).output = s.output := by
  induction todo generalizing s with
  | nil => rfl
  | cons task todo ih =>
      cases task with
      | leave => exact ih s.leave
      | run statement => exact ih s
      | enter => exact ih s

end Task

/-! ## Pauses -/

/-- Whether a pause is in the middle of a statement that was planned in the scopes that are open,
and the tasks ahead close these scopes. -/
structure Pause.Underway (p : Pause) : Prop where
  planned : ∃ (s : Stmt) (front : List Action),
    s.plan p.state.scopes = ⟨front ++ p.current :: p.rest.actions, p.rest.result⟩
  inside : ∃ inner, p.state.scopes.length = inner + 1 ∧ Task.Inside inner p.todo

/-- Whether a progress follows a state: only scopes have been closed and opened since. -/
def Progress.Follows (before : Snapshot) : Progress → Prop
  | .paused p => before.Reopens p.state.snapshot ∧ p.Underway
  | .ended t _ => t.output = before.output

theorem Progress.Follows.output_eq {before : Snapshot} {progress : Progress}
    (h : progress.Follows before) : (Machine.reached progress).state.output = before.output := by
  cases progress with
  | paused p => exact h.1.1
  | ended t stop => exact h

theorem Pause.Underway.scopes_ne_nil {p : Pause} (h : p.Underway) : p.state.scopes ≠ [] := by
  obtain ⟨inner, hdepth, _⟩ := h.inside
  rw [← List.length_pos_iff, hdepth]
  exact Nat.succ_pos inner

/-- Working through tasks closes and opens scopes and does nothing else. -/
theorem Task.follows_settle {before : Snapshot} (s : State) (tasks : List Task) (inner : Nat)
    (hdepth : s.scopes.length = inner + 1) (hinside : Inside inner tasks)
    (hbefore : before.Reopens s.snapshot) : (settle s tasks).Follows before := by
  match tasks, inner with
  | [], _ => exact hinside.elim
  | .enter :: todo, inner =>
      rw [settle_enter]
      exact follows_settle s.enter todo (inner + 1) (congrArg (· + 1) hdepth) hinside hbefore.enter
  | .leave :: todo, 0 =>
      -- the outermost scope is closed, and that is the end
      obtain rfl : todo = [] := hinside
      rw [settle_leave, settle_nil]
      exact hbefore.1
  | .leave :: todo, inner + 1 =>
      rw [settle_leave]
      have hleft : s.leave.scopes.length = inner + 1 := by
        show s.scopes.tail.length = inner + 1
        rw [List.length_tail]
        omega
      exact follows_settle s.leave todo inner hleft hinside (hbefore.leave (by omega))
  | .run statement :: todo, inner =>
      rw [settle_run]
      replace hinside : Inside inner todo := hinside
      cases hplan : statement.plan s.scopes with
      | mk actions result =>
          cases actions with
          | cons current queue => exact ⟨hbefore, ⟨statement, [], hplan⟩, ⟨inner, hdepth, hinside⟩⟩
          | nil =>
              cases result with
              | error stop =>
                  show (unwind s todo).output = before.output
                  rw [output_unwind]
                  exact hbefore.1
              | ok tasks =>
                  -- nothing was announced; what is left to do weighs less than the statement
                  have hlight : total tasks < statement.weight :=
                    Stmt.total_lt_weight (by rw [hplan]) (by rw [hplan])
                  have hleaves := Stmt.leaves_of_plan hplan
                  exact follows_settle s (tasks ++ todo) inner hdepth
                    (inside_of_leaves hleaves hinside) hbefore
termination_by total tasks
decreasing_by
  all_goals simp only [total, weight, total_append]; omega

/-- **A step commits the announced action, and then closes and opens scopes.** -/
theorem Pause.Underway.resume {p : Pause} (h : p.Underway) :
    p.resume.Follows (p.current.commit p.state).snapshot := by
  have hopen := h.scopes_ne_nil
  obtain ⟨state, current, ⟨actions, result⟩, todo⟩ := p
  obtain ⟨⟨s, front, hplan⟩, inner, hdepth, hinside⟩ := h
  replace hplan : s.plan state.scopes = ⟨front ++ current :: actions, result⟩ := hplan
  show (Task.proceed (current.commit state) ⟨actions, result⟩ todo).Follows _
  cases actions with
  | cons next queue =>
      -- the statement goes on, so the action was not its last one and has changed nothing
      rw [Action.commit_of_silent (Stmt.silent_of_plan hplan)]
      refine ⟨Snapshot.reopens_refl hopen, ⟨s, front ++ [current], ?_⟩, ⟨inner, hdepth, hinside⟩⟩
      rw [List.append_assoc]
      exact hplan
  | nil =>
      cases result with
      | error stop => exact Task.output_unwind (current.commit state) todo
      | ok tasks =>
          have hlength := current.length_commit state
          -- the last action is done, and from here only scopes are closed and opened
          have hreopens : (current.commit state).snapshot.Reopens
              (current.commit state).snapshot := by
            refine Snapshot.reopens_refl ?_
            rw [← List.length_pos_iff, hlength]
            exact List.length_pos_iff.mpr hopen
          exact Task.follows_settle _ (tasks ++ todo) inner (hlength.trans hdepth)
            (Task.inside_of_leaves (Stmt.leaves_of_plan hplan) hinside) hreopens

/-- An action that the program goes on behind has found its variable. -/
theorem Pause.Underway.unresolved_eq_none {p q : Pause} (h : p.Underway)
    (hnext : p.resume = .paused q) : p.current.unresolved? = none := by
  obtain ⟨state, current, ⟨actions, result⟩, todo⟩ := p
  obtain ⟨⟨s, front, hplan⟩, _⟩ := h
  replace hplan : s.plan state.scopes = ⟨front ++ current :: actions, result⟩ := hplan
  have hblames := s.blames_plan state.scopes
  rw [hplan] at hblames
  have hcurrent : current ∈ front ++ current :: actions :=
    List.mem_append_right _ List.mem_cons_self
  cases result with
  | ok tasks => exact hblames.unresolved_eq_none rfl current hcurrent
  | error stop =>
      cases actions with
      -- the action at which the statement stops is the last one, and nothing follows it
      | nil => cases hnext
      | cons next queue =>
          refine hblames.1 current ?_
          rw [List.dropLast_append_of_ne_nil (by simp)]
          exact List.mem_append_right _ List.mem_cons_self

theorem Pause.Underway.effect {p q : Pause} (h : p.Underway) (hnext : p.resume = .paused q) :
    p.current.Effect p.state.snapshot (p.current.commit p.state).snapshot := by
  obtain ⟨s, front, hplan⟩ := h.planned
  have hall := s.all_plan p.state.scopes
  rw [hplan] at hall
  have hresolved := (hall p.current (List.mem_append_right _ List.mem_cons_self)).2
  exact Action.effect_commit hresolved (h.unresolved_eq_none hnext) h.scopes_ne_nil

/-! ## Runs -/

namespace Machine

variable {program : List Stmt}

/-- The first record comes behind the opening of the outermost scope. -/
theorem follows_first (program : List Stmt) :
    (Machine.ready program).resume.Follows (State.enter {}).snapshot := by
  show (Task.settle {} (.enter :: (program.map .run ++ [.leave]))).Follows _
  rw [Task.settle_enter]
  exact Task.follows_settle _ _ 0 rfl (Task.inside_body rfl) (Snapshot.reopens_refl (by nofun))

/-- **Every pause of a run is underway.** -/
theorem underway_trail (n : Nat) {p : Pause}
    (h : trail program (n + 1) = .reached (.paused p)) : p.Underway := by
  induction n generalizing p with
  | zero =>
      have hfirst := follows_first program
      rw [trail_succ, trail_zero] at h
      injection h with h
      rw [h] at hfirst
      exact hfirst.2
  | succ n ih =>
      obtain ⟨q, hq⟩ : ∃ q : Pause, trail program (n + 1) = .reached (.paused q) := by
        refine exists_pause_of_live ?_
        refine live_of_recordAt (r := p.record) ?_
        rw [recordAt, h]
        rfl
      have hnext := (ih hq).resume
      rw [trail_succ, hq] at h
      injection h with h
      replace h : q.resume = .paused p := h
      rw [h] at hnext
      exact hnext.2

/-- What the program has written when it comes to its `n`-th record, or to its end there, was
announced by the records before. -/
theorem exists_records_of_live {n : Nat} (h : (trail program n).Live) :
    ∃ rs : List Record, rs.length = n ∧ (∀ i < n, rs[i]? = recordAt program i) ∧
      (trail program (n + 1)).state.output = String.join (rs.map (·.action.printed)) := by
  induction n with
  | zero => exact ⟨[], rfl, nofun, (follows_first program).output_eq⟩
  | succ n ih =>
      obtain ⟨p, hp⟩ := exists_pause_of_live h
      have hrecord : recordAt program n = some p.record := by
        rw [recordAt, hp]
        rfl
      obtain ⟨rs, hlength, hrs, hwritten⟩ := ih (live_of_recordAt hrecord)
      refine ⟨rs ++ [p.record], by simp [hlength], fun i hi => ?_, ?_⟩
      · rcases Nat.lt_succ_iff_lt_or_eq.mp hi with hi | rfl
        · rw [List.getElem?_append_left (by omega), hrs i hi]
        · rw [← hlength, List.getElem?_concat_length, hlength, hrecord]
      · -- the step to this place has written what the record before it announces
        have hnext := (underway_trail n hp).resume.output_eq
        rw [hp] at hwritten
        replace hwritten : p.state.output = String.join (rs.map (·.action.printed)) := hwritten
        rw [trail_succ, hp]
        refine hnext.trans ?_
        show (p.current.commit p.state).output = _
        rw [Action.output_commit, hwritten, List.map_append, String.join_append]
        simp [Pause.record]

/-- **Announce, then commit.** A program starts with nothing but empty scopes. From one record to
the next it commits what the first one announces, and then closes and opens scopes only. And all
that it has written when it ends was announced by its records. -/
theorem records_commit_announced (program : List Stmt) :
    (∀ r, recordAt program 0 = some r →
      r.state.snapshot.output = "" ∧ ∀ scope ∈ r.state.snapshot.scopes, scope = []) ∧
    (∀ n r r', recordAt program n = some r → recordAt program (n + 1) = some r' →
      ∃ committed, r.action.Effect r.state.snapshot committed ∧
        committed.Reopens r'.state.snapshot) ∧
    (∀ n t stop, trail program n = .reached (.ended t stop) →
      ∃ rs : List Record, (∀ i, rs[i]? = recordAt program i) ∧
        t.output = String.join (rs.map (·.action.printed))) := by
  refine ⟨fun r hr => ?_, fun n r r' hr hr' => ?_, fun n t stop hend => ?_⟩
  · obtain ⟨p, hp, rfl⟩ := exists_pause_of_recordAt hr
    -- the first record: nothing but the opening of scopes is behind
    have hfirst := follows_first program
    rw [trail_succ, trail_zero] at hp
    injection hp with hp
    rw [hp] at hfirst
    obtain ⟨⟨houtput, kept, opened, _, _, hscopes⟩, _⟩ := hfirst
    refine ⟨houtput, fun scope hscope => ?_⟩
    replace hscope : scope ∈ p.state.snapshot.scopes := hscope
    rw [hscopes] at hscope
    rcases List.mem_append.mp hscope with hscope | hscope
    · exact List.mem_singleton.mp (List.mem_of_mem_take hscope)
    · exact List.eq_of_mem_replicate hscope
  · obtain ⟨p, hp, rfl⟩ := exists_pause_of_recordAt hr
    obtain ⟨q, hq, rfl⟩ := exists_pause_of_recordAt hr'
    -- two records in a row: one step lies between them
    have hunderway := underway_trail n hp
    rw [trail_succ, hp] at hq
    injection hq with hq
    replace hq : p.resume = .paused q := hq
    have hfollows := hunderway.resume
    rw [hq] at hfollows
    exact ⟨_, hunderway.effect hq, hfollows.1⟩
  · obtain ⟨d, hlive, hd⟩ := exists_first_end hend
    obtain ⟨rs, hlength, hrs, houtput⟩ := exists_records_of_live hlive
    rw [hd] at houtput
    refine ⟨rs, fun i => ?_, houtput⟩
    by_cases hi : i < d
    · exact hrs i hi
    · have hnone : recordAt program d = none := by
        rw [recordAt, hd]
        rfl
      rw [recordAt_eq_none_of_le hnone (by omega), List.getElem?_eq_none (by omega)]

/-- The program `var x = 1; { var x; x = 2; } print x;`. -/
def shadowed : List Stmt :=
  [.declare (.ofLength 0 10) "x" (some (.literal (.ofLength 8 1) (.int 1))),
   .block (.ofLength 11 17)
     [.declare (.ofLength 13 6) "x" none,
      .assign (.ofLength 20 6) "x" (.literal (.ofLength 24 1) (.int 2))],
   .print (.ofLength 29 8) (.var (.ofLength 35 1) "x")]

/-- The assignment to the inner variable, which nobody can see any more at the next record. -/
def innerAssign : Record :=
  ⟨.assign (.ofLength 20 6) "x" ⟨.ofLength 24 1, .int 2⟩ (some (.ofLength 13 6)),
    ⟨[[("x", ⟨.ofLength 13 6, none⟩)], [("x", ⟨.ofLength 0 10, some (.int 1)⟩)]], ""⟩⟩

/-- The outer variable is read when the block is over. -/
def outerRead : Record :=
  ⟨.read (.ofLength 35 1) "x" (some (.ofLength 0 10)),
    ⟨[[("x", ⟨.ofLength 0 10, some (.int 1)⟩)]], ""⟩⟩

theorem records_commit_announced_shadowed :
    recordAt shadowed 2 = some innerAssign ∧ recordAt shadowed 3 = some outerRead ∧
    (∃ committed, innerAssign.action.Effect innerAssign.state.snapshot committed ∧
      committed.Reopens outerRead.state.snapshot) ∧
    trail shadowed 6 = .reached (.ended ⟨[], "1\n"⟩ none) ∧
    ∃ rs : List Record, (∀ i, rs[i]? = recordAt shadowed i) ∧
      "1\n" = String.join (rs.map (·.action.printed)) := by
  have hassign : recordAt shadowed 2 = some innerAssign := by decide +kernel
  have hread : recordAt shadowed 3 = some outerRead := by decide +kernel
  have hend : trail shadowed 6 = .reached (.ended ⟨[], "1\n"⟩ none) := by cbv
  obtain ⟨_, hstep, houtput⟩ := records_commit_announced shadowed
  exact ⟨hassign, hread, hstep 2 _ _ hassign hread, hend, houtput 6 _ _ hend⟩

end Machine

end Stepwise
