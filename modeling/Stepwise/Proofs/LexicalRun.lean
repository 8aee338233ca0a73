import Stepwise.Proofs.Outline
import Stepwise.Proofs.Trail

/-!
# Scopes along a run

A running program is at a point of its text, and its scopes follow the declarations before that
point. The invariant has two halves:

* `Task.Ahead` reads the tasks ahead as positions in the program: a statement that is to be run
  stands behind certain statements, and what comes after it stands behind that statement as well;
* `Pause.Fits` says that a pause is in the middle of one statement of the program, whose actions
  have been planned in the very scopes that the pause has.

Only a declaration adds to a list, so this needs programs in which the body of a branch or a loop
is no declaration (`Stmt.Tidy`). `Pause.Fits.resume` is the step, and `fits_trail` the run.
-/

namespace Stepwise

/-! ## Positions of statements -/

mutual

/-- Whether no body of a branch or a loop is a declaration. -/
def Stmt.Tidy : Stmt → Prop
  | .block _ body => Stmt.TidyAll body
  | .branch _ _ _ yes none => yes.Tidy ∧ yes.declaration? = none
  | .branch _ _ _ yes (some no) =>
    (yes.Tidy ∧ yes.declaration? = none) ∧ no.Tidy ∧ no.declaration? = none
  | .loop _ _ _ body => body.Tidy ∧ body.declaration? = none
  | _ => True

/-- Whether this is so for all statements of a list. -/
def Stmt.TidyAll : List Stmt → Prop
  | [] => True
  | s :: rest => s.Tidy ∧ Stmt.TidyAll rest

end

/-- Whether a statement stands at a position of the program. -/
structure Stmt.StandsIn (program here : List Stmt) (around : List (List Stmt)) (s : Stmt) :
    Prop where
  tidy : s.Tidy
  points : s.points here around ⊆ pointsOf program

/-- Whether the statements of a list stand one after the other from a position on. -/
structure Stmt.StandIn (program here : List Stmt) (around : List (List Stmt)) (body : List Stmt) :
    Prop where
  tidy : Stmt.TidyAll body
  points : Stmt.pointsAll here around body ⊆ pointsOf program

/-- The declarations before a position. -/
def declared (here : List Stmt) (around : List (List Stmt)) : List Declarations :=
  (here :: around).map Stmt.declarations

namespace Task

/-- Whether the tasks ahead go on at positions of the program, behind these declarations. -/
def Ahead (program : List Stmt) : List Task → List Declarations → Prop
  | [], _ => True
  | .enter :: todo, nested => Ahead program todo ([] :: nested)
  | .leave :: todo, nested => Ahead program todo nested.tail
  | .run s :: todo, nested =>
    ∃ here around, nested = declared here around ∧ s.StandsIn program here around ∧
      Ahead program todo (declared (here ++ [s]) around)

variable {program here : List Stmt} {around : List (List Stmt)} {todo : List Task}

theorem declared_concat {s : Stmt} (h : s.declaration? = none) :
    declared (here ++ [s]) around = declared here around := by
  rw [declared, List.map_cons, Stmt.declarations_concat_of_none h]
  rfl

theorem ahead_run {s : Stmt} (hs : s.StandsIn program here around) (hnone : s.declaration? = none)
    (h : Ahead program todo (declared here around)) :
    Ahead program (.run s :: todo) (declared here around) :=
  ⟨here, around, rfl, hs, by rw [declared_concat hnone]; exact h⟩

theorem ahead_body {body : List Stmt} (hbody : Stmt.StandIn program here around body)
    (h : Ahead program todo (declared (here ++ body) around)) :
    Ahead program (body.map .run ++ todo) (declared here around) := by
  induction body generalizing here with
  | nil => rwa [List.append_nil] at h
  | cons s rest ih =>
      obtain ⟨⟨hs, hrest⟩, hpoints⟩ := hbody
      rw [Stmt.pointsAll, List.append_subset] at hpoints
      refine ⟨here, around, rfl, ⟨hs, hpoints.1⟩, ?_⟩
      refine ih ⟨hrest, hpoints.2⟩ ?_
      rwa [List.append_assoc]

/-- A block adds a scope for its statements and takes it away again. -/
theorem ahead_scoped {body : List Stmt} (hbody : Stmt.StandIn program [] (here :: around) body)
    (h : Ahead program todo (declared here around)) :
    Ahead program (Task.scoped body ++ todo) (declared here around) := by
  show Ahead program (body.map .run ++ [.leave] ++ todo) ([] :: declared here around)
  rw [List.append_assoc]
  exact ahead_body hbody h

/-- **What a statement leaves to do is ahead of the scopes that it leaves behind.** -/
theorem ahead_of_leaves {statement : Stmt} {s t : State} {tasks : List Task}
    (hleaves : statement.Leaves s t tasks) (hs : statement.StandsIn program here around)
    (hfollow : s.scopes.Follow (declared here around))
    (hahead : Ahead program todo (declared (here ++ [statement]) around)) :
    ∃ nested, t.scopes.Follow nested ∧ Ahead program (tasks ++ todo) nested := by
  cases hleaves with
  | block =>
      rw [declared_concat rfl] at hahead
      exact ⟨_, hfollow, ahead_scoped ⟨hs.tidy, hs.points⟩ hahead⟩
  | expr _ =>
      rw [declared_concat rfl] at hahead
      exact ⟨_, hfollow, hahead⟩
  | print _ =>
      rw [declared_concat rfl] at hahead
      exact ⟨_, hfollow, hahead⟩
  | @declare span name =>
      refine ⟨_, hfollow.define name span none, ?_⟩
      rwa [declared, List.map_cons, Stmt.declarations_concat] at hahead
  | @declareWith span name e _ v _ =>
      refine ⟨_, hfollow.define name span (some v), ?_⟩
      rwa [declared, List.map_cons, Stmt.declarations_concat] at hahead
  | assign _ hassign =>
      rw [declared_concat rfl] at hahead
      exact ⟨_, hfollow.assign hassign, hahead⟩
  | @branch span keyword condition yes no _ b _ =>
      rw [declared_concat rfl] at hahead
      refine ⟨_, hfollow, ?_⟩
      obtain ⟨htidy, hpoints⟩ := hs
      cases no with
      | none =>
          rw [Stmt.points, List.append_subset] at hpoints
          cases b with
          | true => exact ahead_run ⟨htidy.1, hpoints.2⟩ htidy.2 hahead
          | false => exact hahead
      | some no =>
          rw [Stmt.points, List.append_subset, List.append_subset] at hpoints
          cases b with
          | true => exact ahead_run ⟨htidy.1.1, hpoints.1.2⟩ htidy.1.2 hahead
          | false => exact ahead_run ⟨htidy.2.1, hpoints.2⟩ htidy.2.2 hahead
  | @loop span keyword condition body _ b _ =>
      have hloop := hs
      obtain ⟨htidy, hpoints⟩ := hs
      rw [Stmt.points, List.append_subset] at hpoints
      rw [declared_concat rfl] at hahead
      refine ⟨_, hfollow, ?_⟩
      cases b with
      | true =>
          -- The body is followed by the loop itself, at the same position.
          exact ahead_run ⟨htidy.1, hpoints.2⟩ htidy.2 (ahead_run hloop rfl hahead)
      | false => exact hahead

end Task

/-! ## Pauses -/

/-- Whether a pause is in the middle of a statement of the program: its scopes follow the
declarations before the statement, and the actions at hand have been planned in these scopes. -/
def Pause.Fits (program : List Stmt) (p : Pause) : Prop :=
  ∃ s here around front, Stmt.StandsIn program here around s ∧
    p.state.scopes.Follow (declared here around) ∧
    s.plan p.state.scopes = ⟨front ++ p.current :: p.rest.actions, p.rest.result⟩ ∧
    Task.Ahead program p.todo (declared (here ++ [s]) around)

/-- Whether a progress fits the program, behind an action that may have found no declaration: that
ends the program, and nothing else ends it with that error. -/
def Progress.Fits (program : List Stmt) (unresolved : Option (Span × String)) : Progress → Prop
  | .paused p => p.Fits program ∧ unresolved = none
  | .ended _ stop => stop.bind Stop.blamed? = unresolved

/-- Working through tasks comes to a pause that fits, or to an end that blames no variable. -/
theorem Task.fits_settle {program : List Stmt} (s : State) (tasks : List Task)
    (nested : List Declarations) (hfollow : s.scopes.Follow nested)
    (hahead : Ahead program tasks nested) : (settle s tasks).Fits program none := by
  match tasks with
  | [] =>
      rw [settle_nil]
      rfl
  | .enter :: todo =>
      rw [settle_enter]
      exact fits_settle s.enter todo _ hfollow.enter hahead
  | .leave :: todo =>
      rw [settle_leave]
      exact fits_settle s.leave todo _ hfollow.leave hahead
  | .run statement :: todo =>
      obtain ⟨here, around, rfl, hstands, hahead⟩ := hahead
      have hblames := statement.blames_plan s.scopes
      rw [settle_run]
      cases hplan : statement.plan s.scopes with
      | mk actions result =>
          rw [hplan] at hblames
          cases actions with
          | cons current queue =>
              exact ⟨⟨statement, here, around, [], hstands, hfollow, hplan, hahead⟩, rfl⟩
          | nil =>
              -- Nothing is announced, so the scopes are still those of the statement.
              cases result with
              | error stop => exact hblames.2.symm
              | ok tasks =>
                  have hlight : total tasks < statement.weight :=
                    Stmt.total_lt_weight (by rw [hplan]) (by rw [hplan])
                  obtain ⟨nested, hfollow, hahead⟩ :=
                    ahead_of_leaves (Stmt.leaves_of_plan hplan) hstands hfollow hahead
                  exact fits_settle s (tasks ++ todo) nested hfollow hahead
termination_by total tasks
decreasing_by
  all_goals simp only [total, weight, total_append]; omega

/-- **A step keeps the scopes in line with the text.** -/
theorem Pause.Fits.resume {program : List Stmt} {p : Pause} (h : p.Fits program) :
    p.resume.Fits program p.current.unresolved? := by
  obtain ⟨state, current, ⟨actions, result⟩, todo⟩ := p
  obtain ⟨s, here, around, front, hstands, hfollow, hplan, hahead⟩ := h
  replace hplan : s.plan state.scopes = ⟨front ++ current :: actions, result⟩ := hplan
  have hquiet := s.quiet_plan state.scopes
  have hblames := s.blames_plan state.scopes
  rw [hplan] at hquiet hblames
  show (Task.proceed (current.commit state) ⟨actions, result⟩ todo).Fits program _
  cases actions with
  | cons next queue =>
      -- The statement goes on, so the action was not its last one.
      have hmem : current ∈ (front ++ current :: next :: queue).dropLast := by
        rw [List.dropLast_append_of_ne_nil (by simp)]
        exact List.mem_append_right _ List.mem_cons_self
      rw [Action.commit_of_silent (hquiet current hmem)]
      refine ⟨⟨s, here, around, front ++ [current], hstands, hfollow, ?_, hahead⟩,
        hblames.1 current hmem⟩
      rw [hplan, List.append_assoc]
      rfl
  | nil =>
      -- The statement is over: its last action may have changed the scopes, or stops the program.
      obtain ⟨hfront, hlast⟩ := hblames
      rw [List.getLast?_concat] at hlast
      replace hlast : current.unresolved? = blamed? result := hlast
      have hsilent : ∀ a ∈ front, a.Silent := by
        intro a ha
        refine hquiet a ?_
        rw [List.dropLast_concat]
        exact ha
      have hcommit : state.commitAll (front ++ [current]) = current.commit state := by
        rw [State.commitAll_append, State.commitAll_of_silent hsilent]
        rfl
      cases result with
      | error stop =>
          rw [hlast]
          rfl
      | ok tasks =>
          rw [hlast, ← hcommit]
          obtain ⟨nested, hfollow, hahead⟩ :=
            Task.ahead_of_leaves (Stmt.leaves_of_plan hplan) hstands hfollow hahead
          exact Task.fits_settle _ _ nested hfollow hahead

/-! ## Runs -/

namespace Machine

variable {program : List Stmt}

theorem fits_first (htidy : Stmt.TidyAll program) :
    (Machine.ready program).resume.Fits program none := by
  have hbody : Stmt.StandIn program [] [] program := ⟨htidy, List.Subset.refl _⟩
  exact Task.fits_settle {} (Task.scoped program) [] .nil (Task.ahead_body hbody trivial)

/-- **Every pause of a run fits the program.** -/
theorem fits_trail (htidy : Stmt.TidyAll program) (n : Nat) {p : Pause}
    (h : trail program (n + 1) = .reached (.paused p)) : p.Fits program := by
  induction n generalizing p with
  | zero =>
      have hfirst := fits_first htidy
      rw [trail_succ, trail_zero] at h
      injection h with h
      rw [h] at hfirst
      exact hfirst.1
  | succ n ih =>
      rw [trail_succ] at h
      injection h with h
      cases hm : trail program (n + 1) with
      | ready q => rw [trail_succ] at hm; cases hm
      | reached progress =>
          rw [hm] at h
          cases progress with
          | ended t stop => cases h
          | paused q =>
              have hq := (ih hm).resume
              replace h : q.resume = .paused p := h
              rw [h] at hq
              exact hq.1

/-- A program ends with the error that a variable is not declared just if it has announced an
action that has found no declaration. -/
theorem ends_blamed_iff (htidy : Stmt.TidyAll program) (use : Span × String) :
    (∃ n t stop, trail program n = .reached (.ended t (some stop)) ∧ stop.blamed? = some use) ↔
      ∃ n r, recordAt program n = some r ∧ r.action.unresolved? = some use := by
  constructor
  · rintro ⟨n, t, stop, h, hstop⟩
    obtain ⟨d, hlive, hend⟩ := exists_first_end h
    cases d with
    | zero =>
        -- before the first record there is no variable to be blamed
        have hfirst := fits_first htidy
        rw [trail_succ, trail_zero] at hend
        injection hend with hend
        rw [hend] at hfirst
        replace hfirst : stop.blamed? = none := hfirst
        rw [hstop] at hfirst
        cases hfirst
    | succ k =>
        obtain ⟨p, hp⟩ := exists_pause_of_live hlive
        have hnext := (fits_trail htidy k hp).resume
        rw [trail_succ, hp] at hend
        injection hend with hend
        replace hend : p.resume = .ended t (some stop) := hend
        rw [hend] at hnext
        refine ⟨k, p.record, ?_, hnext.symm.trans hstop⟩
        rw [recordAt, hp]
        rfl
  · rintro ⟨n, r, h, hr⟩
    obtain ⟨p, hp, rfl⟩ := exists_pause_of_recordAt h
    have hnext := (fits_trail htidy n hp).resume
    replace hr : p.current.unresolved? = some use := hr
    rw [hr] at hnext
    cases hresume : p.resume with
    | paused q =>
        rw [hresume] at hnext
        cases hnext.2
    | ended t stop =>
        rw [hresume] at hnext
        obtain ⟨stop', rfl, hblamed⟩ := Option.bind_eq_some_iff.mp hnext
        refine ⟨n + 2, t, stop', ?_, hblamed⟩
        rw [trail_succ, hp]
        exact congrArg Machine.reached hresume

end Machine

/-- A pause is at a point of the program, and its action refers to the declaration that
is seen from there. -/
theorem Pause.Fits.point {program : List Stmt} {p : Pause} (h : p.Fits program) :
    ∃ point ∈ pointsOf program, point.node.Announces p.current ∧
      p.current.Resolved p.state.scopes ∧ p.state.scopes.Follow point.declarations := by
  obtain ⟨s, here, around, front, hstands, hfollow, hplan, _⟩ := h
  have hall := s.all_plan p.state.scopes
  rw [hplan] at hall
  obtain ⟨⟨node, hnode, hannounces⟩, hresolved⟩ :=
    hall p.current (List.mem_append_right _ List.mem_cons_self)
  exact ⟨⟨node, here, around⟩, hstands.points (Stmt.mem_points_of_mem_nodes hnode here around),
    hannounces, hresolved, hfollow⟩

end Stepwise
