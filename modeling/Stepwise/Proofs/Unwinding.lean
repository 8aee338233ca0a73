import Mathlib.Data.List.Forall2
import Stepwise.Proofs.Commitment
import Stepwise.Proofs.Refinement

/-!
# Scopes are unwound on every exit

A statement may run to its end, be stopped by an error of the program, or by a failure, at any
depth of blocks, branches and loops. On each of these exits as many scopes are open as before, and
of those around the innermost one nothing has changed but values: of variables that the statement
assigns, and never back to none. A block leaves the innermost scope in the same way.

* `Scopes.Keeps` is what may happen to scopes, and `Stmt.frames_of_runs` says by induction over the
  rules that nothing else does;
* `Pause.Flat` is an invariant of runs: the tasks ahead open no scope, since a task that opens one
  is done at once. Hence an end that comes without a further action only closes scopes
  (`Task.unwinds_settle`), and what was committed before is still there.
-/

namespace Stepwise

/-! ## What may happen to scopes -/

/-- Whether a variable is the same up to its value, which may have changed only if it `may`,
and not to none. -/
structure Binding.Kept (may : Prop) (before after : Binding) : Prop where
  declared : after.declared = before.declared
  changed : after.value ≠ before.value → may
  initialized : before.value.isSome → after.value.isSome

/-- Whether a scope has the same variables in the same order, with values that may have changed
only for these names. -/
def Scope.Keeps (names : List String) : Scope → Scope → Prop :=
  List.Forall₂ fun before after =>
    after.1 = before.1 ∧ before.2.Kept (before.1 ∈ names) after.2

/-- Whether there are as many scopes, each with the same variables. -/
def Scopes.Keeps (names : List String) : Scopes → Scopes → Prop := List.Forall₂ (Scope.Keeps names)

namespace Binding.Kept

variable {may may' : Prop} {a b c : Binding}

theorem refl (may : Prop) (b : Binding) : b.Kept may b := ⟨rfl, fun h => absurd rfl h, id⟩

theorem trans (h : a.Kept may b) (h' : b.Kept may c) : a.Kept may c where
  declared := h'.declared.trans h.declared
  changed hne := by
    by_cases heq : b.value = a.value
    · exact h'.changed (heq ▸ hne)
    · exact h.changed heq
  initialized := h'.initialized ∘ h.initialized

theorem mono (h : a.Kept may b) (hmay : may → may') : a.Kept may' b :=
  ⟨h.declared, hmay ∘ h.changed, h.initialized⟩

end Binding.Kept

namespace Scope.Keeps

variable {names names' : List String} {a b c : Scope}

theorem refl (names : List String) (scope : Scope) : scope.Keeps names scope :=
  List.forall₂_same.mpr fun entry _ => ⟨rfl, .refl _ entry.2⟩

theorem trans (h : a.Keeps names b) (h' : b.Keeps names c) : a.Keeps names c := by
  induction h generalizing c with
  | nil => exact h'
  | cons hfirst _ ih =>
      cases h' with
      | cons hsecond hrest =>
          obtain ⟨hname, hkept⟩ := hfirst
          refine .cons ⟨hsecond.1.trans hname, hkept.trans ?_⟩ (ih hrest)
          rw [← hname]
          exact hsecond.2

theorem mono (h : a.Keeps names b) (hsub : names ⊆ names') : a.Keeps names' b :=
  h.imp fun _ _ h => ⟨h.1, h.2.mono fun hmem => hsub hmem⟩

/-- A value is assigned in place. -/
theorem set {scope : Scope} {name : String} {b : Binding} (hname : name ∈ names)
    (h : scope.get? name = some b) (v : Value) :
    scope.Keeps names (scope.set name { b with value := some v }) := by
  induction scope with
  | nil => cases h
  | cons entry rest ih =>
      obtain ⟨key, old⟩ := entry
      rw [Scope.get?_cons] at h
      rw [Scope.set]
      -- the entry that is replaced is the one that was found
      by_cases hkey : name = key
      · subst hkey
        rw [if_pos rfl] at h
        injection h with h
        subst h
        rw [if_pos rfl]
        exact .cons ⟨rfl, rfl, fun _ => hname, fun _ => rfl⟩ (refl names rest)
      · rw [if_neg hkey] at h
        rw [if_neg (Ne.symm hkey)]
        exact .cons ⟨rfl, .refl _ old⟩ (ih h)

end Scope.Keeps

namespace Scopes.Keeps

variable {names names' : List String} {a b c : Scopes}

theorem refl (names : List String) (scopes : Scopes) : scopes.Keeps names scopes :=
  List.forall₂_same.mpr fun scope _ => .refl names scope

theorem trans (h : a.Keeps names b) (h' : b.Keeps names c) : a.Keeps names c := by
  induction h generalizing c with
  | nil => exact h'
  | cons hfirst _ ih =>
      cases h' with
      | cons hsecond hrest => exact .cons (hfirst.trans hsecond) (ih hrest)

theorem mono (h : a.Keeps names b) (hsub : names ⊆ names') : a.Keeps names' b :=
  h.imp fun _ _ h => h.mono hsub

theorem tail (h : a.Keeps names b) : Scopes.Keeps names a.tail b.tail := by
  cases h with
  | nil => exact .nil
  | cons _ hrest => exact hrest

/-- An assignment reaches one scope, and that one only in place. -/
theorem assign? {name : String} {v : Value} (hname : name ∈ names)
    (h : a.assign? name v = some b) :
    a.Keeps names b := by
  induction a generalizing b with
  | nil => cases h
  | cons scope outer ih =>
      rw [Scopes.assign?] at h
      split at h
      · -- the nearest scope with the name is changed, and the others are not touched
        rename_i found hfound
        cases h
        exact .cons (.set hname hfound v) (refl names outer)
      · obtain ⟨rest, hrest, rfl⟩ := Option.map_eq_some_iff.mp h
        exact .cons (.refl names scope) (ih hrest)

end Scopes.Keeps

/-! ## What a statement does to the scopes -/

mutual

/-- The names that a statement assigns anywhere in it. -/
def Stmt.assigned : Stmt → List String
  | .block _ body => Stmt.assignedAll body
  | .assign _ name _ => [name]
  | .branch _ _ _ yes none => yes.assigned
  | .branch _ _ _ yes (some no) => yes.assigned ++ no.assigned
  | .loop _ _ _ body => body.assigned
  | .expr _ _ | .print _ _ | .declare _ _ _ | .hole _ => []

/-- The names that a list of statements assigns. -/
def Stmt.assignedAll : List Stmt → List String
  | [] => []
  | s :: rest => s.assigned ++ Stmt.assignedAll rest

end

/-- Whether as many scopes are open, and those around the innermost one are kept. -/
structure State.Frames (names : List String) (s t : State) : Prop where
  depth : t.scopes.length = s.scopes.length
  outer : Scopes.Keeps names s.scopes.tail t.scopes.tail

namespace State.Frames

variable {names names' : List String} {s t u : State}

theorem refl (names : List String) (s : State) : s.Frames names s := ⟨rfl, .refl names _⟩

theorem trans (h : s.Frames names t) (h' : t.Frames names u) : s.Frames names u :=
  ⟨h'.depth.trans h.depth, h.outer.trans h'.outer⟩

theorem mono (h : s.Frames names t) (hsub : names ⊆ names') : s.Frames names' t :=
  ⟨h.depth, h.outer.mono hsub⟩

theorem of_keeps (h : Scopes.Keeps names s.scopes t.scopes) : s.Frames names t :=
  ⟨h.length_eq.symm, h.tail⟩

/-- A variable is defined in the innermost scope. -/
theorem define (names : List String) (s : State) (name : String) (b : Binding) :
    s.Frames names { s with scopes := s.scopes.define name b } := by
  refine ⟨Scopes.length_define name b s.scopes, ?_⟩
  obtain ⟨scopes, output⟩ := s
  cases scopes with
  | nil => exact .nil
  -- only the innermost scope changes, and the frame is around it
  | cons scope outer => exact .refl names outer

/-- The scopes around that of a block are kept when its own is closed. -/
theorem keeps_leave (h : s.enter.Frames names t) : Scopes.Keeps names s.scopes t.leave.scopes :=
  h.outer

end State.Frames

mutual

/-- **Statements keep the scopes around the innermost one**, however they end. -/
theorem Stmt.frames_of_runs {statement : Stmt} {s t : State} {stop : Option Stop} :
    statement.Runs s t stop → s.Frames statement.assigned t
  | .block hbody => .of_keeps (Stmt.frames_of_runsAll hbody).keeps_leave
  | .expr _ | .print _ | .undeclared _ _ | .pass _ | .branchType _ _ | .leave _ | .loopType _ _
  | .stopAtOnce _ _ | .hole => ⟨rfl, .refl _ _⟩
  | .declare | .declareWith _ => .define _ s _ _
  | .assign _ hassign => .of_keeps (.assign? (List.mem_singleton.mpr rfl) hassign)
  | @Stmt.Runs.yes _ _ _ yes no _ _ _ _ hyes => by
      have hframes := Stmt.frames_of_runs hyes
      cases no with
      | none => exact hframes
      | some no => exact hframes.mono (List.subset_append_left _ _)
  | .no _ hno => (Stmt.frames_of_runs hno).mono (List.subset_append_right _ _)
  | .again _ hbody hagain => by
      have hrest := Stmt.frames_of_runs hagain
      rw [Stmt.assigned] at hrest ⊢
      exact (Stmt.frames_of_runs hbody).trans hrest
  | .stopInside _ hbody => by
      rw [Stmt.assigned]
      exact Stmt.frames_of_runs hbody

theorem Stmt.frames_of_runsAll {body : List Stmt} {s t : State} {stop : Option Stop} :
    Stmt.RunsAll body s t stop → s.Frames (Stmt.assignedAll body) t
  | .nil => .refl _ s
  | .cons hfirst hrest =>
      ((Stmt.frames_of_runs hfirst).mono (List.subset_append_left _ _)).trans
        ((Stmt.frames_of_runsAll hrest).mono (List.subset_append_right _ _))
  | .stop hfirst => (Stmt.frames_of_runs hfirst).mono (List.subset_append_left _ _)

end

/-- A block keeps all scopes. -/
theorem Stmt.keeps_of_runs_block {span : Span} {body : List Stmt} {s t : State}
    {stop : Option Stop} (h : (Stmt.block span body).Runs s t stop) :
    Scopes.Keeps (Stmt.block span body).assigned s.scopes t.scopes := by
  cases h with
  | block hbody => exact (Stmt.frames_of_runsAll hbody).keeps_leave
  | stopAtOnce hs _ => cases hs

/-- A machine that does one statement comes to the ends that the rules give it. -/
theorem Task.runs_of_after {statement : Stmt} {s t : State} {stop : Option Stop} {n : Nat}
    (h : (settle s [.run statement]).after n = .ended t stop) : statement.Runs s t stop := by
  rcases finishes_iff_means.mp (after_settle_iff.mp ⟨n, h⟩) with
    ⟨u, hruns, rfl, rfl⟩ | ⟨u, e, hruns, rfl, rfl⟩
  · exact hruns
  · exact hruns

/-! ## Ends without a further action -/

namespace Task

/-- Whether no task opens a scope. -/
def Flat (tasks : List Task) : Prop := Task.enter ∉ tasks

variable {todo : List Task}

theorem Flat.tail {task : Task} (h : Flat (task :: todo)) : Flat todo :=
  fun hmem => h (List.mem_cons_of_mem task hmem)

theorem Flat.run (h : Flat todo) (s : Stmt) : Flat (.run s :: todo) := by
  intro hmem
  rcases List.mem_cons.mp hmem with heq | hmem
  · cases heq
  · exact h hmem

theorem Flat.body (h : Flat todo) (body : List Stmt) : Flat (body.map .run ++ todo) := by
  induction body with
  | nil => exact h
  | cons s rest ih => exact ih.run s

theorem scopes_unwind (s : State) (todo : List Task) : (unwind s todo).scopes <:+ s.scopes := by
  induction todo generalizing s with
  | nil => exact List.suffix_refl _
  | cons task todo ih =>
      cases task with
      | run statement => exact ih s
      | enter => exact ih s
      | leave => exact (ih s.leave).trans (List.tail_suffix _)

end Task

/-- A statement that is no block leaves statements to do, and nothing else. -/
theorem Stmt.Leaves.tasks_eq {statement : Stmt} {s t : State} {tasks : List Task}
    (h : statement.Leaves s t tasks) :
    (∃ span body, statement = .block span body ∧ tasks = Task.scoped body) ∨
      ∃ body : List Stmt, tasks = body.map .run := by
  cases h with
  | @block span body => exact .inl ⟨span, body, rfl, rfl⟩
  | @branch span keyword condition yes no _ b _ =>
      cases b with
      | true => exact .inr ⟨[yes], rfl⟩
      | false => exact .inr ⟨no.toList, rfl⟩
  | @loop span keyword condition body _ b _ =>
      cases b with
      -- the body and once more the loop
      | true => exact .inr ⟨[body, .loop span keyword condition body], rfl⟩
      | false => exact .inr ⟨[], rfl⟩
  | _ => exact .inr ⟨[], rfl⟩

/-- Whether a pause is in the middle of a statement, and the tasks behind it open no scope. -/
structure Pause.Flat (p : Pause) : Prop where
  planned : ∃ (s : Stmt) (front : List Action),
    s.plan p.state.scopes = ⟨front ++ p.current :: p.rest.actions, p.rest.result⟩
  todo : Task.Flat p.todo

/-- Whether a progress is such a pause, or an end in this state. -/
def Progress.Unwinds (closed : State) : Progress → Prop
  | .paused p => p.Flat
  | .ended t _ => t = closed

/-- **Tasks that come to an end without an action only close scopes.** -/
theorem Task.unwinds_settle (s : State) (tasks : List Task) (hflat : Flat tasks) :
    (settle s tasks).Unwinds (unwind s tasks) := by
  match tasks with
  | [] =>
      rw [settle_nil]
      rfl
  | .enter :: todo => exact absurd List.mem_cons_self hflat
  | .leave :: todo =>
      rw [settle_leave]
      exact unwinds_settle s.leave todo hflat.tail
  | .run statement :: todo =>
      rw [settle_run]
      cases hplan : statement.plan s.scopes with
      | mk actions result =>
          cases actions with
          | cons current queue => exact ⟨⟨statement, [], hplan⟩, hflat.tail⟩
          | nil =>
              cases result with
              | error stop => rfl
              | ok tasks =>
                  have hlight : total tasks < statement.weight :=
                    Stmt.total_lt_weight (by rw [hplan]) (by rw [hplan])
                  show (settle s (tasks ++ todo)).Unwinds (unwind s todo)
                  rcases (Stmt.leaves_of_plan hplan).tasks_eq with
                    ⟨span, body, hblock, htasks⟩ | ⟨body, rfl⟩
                  · -- the scope of a block is opened at once, and closed behind its statements
                    have hlighter : total (body.map .run) + 1 < statement.weight := by
                      rw [htasks] at hlight
                      simp only [Task.scoped, total, weight, total_append] at hlight
                      omega
                    rw [htasks, scoped_append, settle_enter]
                    have hinside : Flat (.leave :: todo) :=
                      fun hmem => hflat.tail (List.mem_of_ne_of_mem (by simp) hmem)
                    have hbody := unwinds_settle s.enter (body.map .run ++ .leave :: todo)
                      (hinside.body body)
                    rw [unwind_runs] at hbody
                    exact hbody
                  · have hbody := unwinds_settle s (body.map .run ++ todo) (hflat.tail.body body)
                    rw [unwind_runs] at hbody
                    exact hbody
termination_by total tasks
decreasing_by
  all_goals simp only [total, weight, total_append]; omega

/-- **An end behind an action keeps what the action has done**: only scopes are closed. -/
theorem Pause.Flat.resume {p : Pause} (h : p.Flat) :
    ∃ todo, p.resume.Unwinds (Task.unwind (p.current.commit p.state) todo) := by
  obtain ⟨state, current, ⟨actions, result⟩, todo⟩ := p
  obtain ⟨⟨s, front, hplan⟩, hflat⟩ := h
  replace hplan : s.plan state.scopes = ⟨front ++ current :: actions, result⟩ := hplan
  refine ⟨todo, ?_⟩
  show (Task.proceed (current.commit state) ⟨actions, result⟩ todo).Unwinds _
  cases actions with
  | cons next queue =>
      -- the statement goes on, so the action was not its last one and has changed nothing
      rw [Action.commit_of_silent (Stmt.silent_of_plan hplan)]
      refine ⟨⟨s, front ++ [current], ?_⟩, hflat⟩
      rw [List.append_assoc]
      exact hplan
  | nil =>
      cases result with
      | error stop => rfl
      | ok tasks =>
          show (Task.settle (current.commit state) (tasks ++ todo)).Unwinds _
          rcases (Stmt.leaves_of_plan hplan).tasks_eq with ⟨span, body, rfl, rfl⟩ | ⟨body, rfl⟩
          · -- a block announces nothing
            have hnone := congrArg Evaluation.actions hplan
            exact absurd hnone (by simp [Stmt.plan])
          · have hbody := Task.unwinds_settle (current.commit state) (body.map .run ++ todo)
              (Task.Flat.body hflat body)
            rw [Task.unwind_runs] at hbody
            exact hbody

/-- The pauses of a run are flat if the first one is. -/
theorem Progress.flat_after {progress : Progress} {closed : State} (h : progress.Unwinds closed)
    {n : Nat} {p : Pause} (hp : progress.after n = .paused p) : p.Flat := by
  induction n generalizing progress closed with
  | zero =>
      rw [after_zero] at hp
      rw [hp] at h
      exact h
  | succ n ih =>
      cases progress with
      | ended t stop =>
          rw [after_ended] at hp
          cases hp
      | paused q =>
          -- one step at a time, and an end has no step behind it
          obtain ⟨todo, hnext⟩ := Pause.Flat.resume h
          exact ih hnext hp

/-! ## Whole programs -/

namespace Machine

variable {program : List Stmt}

/-- No scope is open when a program has ended. -/
theorem scopes_eq_nil_of_ended {n : Nat} {t : State} {stop : Option Stop}
    (h : trail program n = .reached (.ended t stop)) : t.scopes = [] := by
  obtain ⟨u, hall, rfl⟩ := trail_ended_iff.mp ⟨n, h⟩
  exact List.length_eq_zero_iff.mp (Stmt.frames_of_runsAll hall).keeps_leave.length_eq.symm

/-- Behind its first records a program has not ended. -/
theorem live_of_records {rs : List Record}
    (h : rs.map some = (List.range rs.length).map (recordAt program)) :
    (trail program rs.length).Live := by
  cases hlength : rs.length with
  | zero => trivial
  | succ k =>
      have hlast := congrArg (·[k]?) h
      obtain ⟨r, hr⟩ : ∃ r, rs[k]? = some r := ⟨_, List.getElem?_eq_getElem (by omega)⟩
      simp only [List.getElem?_map, hr, List.getElem?_range (show k < rs.length by omega),
        Option.map_some, Option.some.injEq] at hlast
      exact live_of_record? hlast.symm

/-- What a program has written behind its first records is what they announced. -/
theorem output_eq_join {rs : List Record}
    (h : rs.map some = (List.range rs.length).map (recordAt program)) :
    (trail program (rs.length + 1)).state.output = String.join (rs.map (·.action.printed)) := by
  obtain ⟨rs', hlength, hrs', houtput⟩ := exists_records_of_live (live_of_records h)
  -- the records that account for the output are the ones that were delivered
  have hsame : rs' = rs := by
    refine List.ext_getElem? fun i => ?_
    by_cases hi : i < rs.length
    · have hget := congrArg (·[i]?) h
      simp only [List.getElem?_map, List.getElem?_range hi, List.getElem?_eq_getElem hi,
        Option.map_some, Option.some.injEq] at hget
      rw [hrs' i hi, ← hget, List.getElem?_eq_getElem hi]
    · rw [List.getElem?_eq_none (by omega), List.getElem?_eq_none (by omega)]
  rw [houtput, hsame]

end Machine

namespace Stepper

open Machine

/-- A stepper that has come to an end stands right behind the records that were delivered. -/
theorem Tracks.exists_ended {program : List Stmt} {st : Stepper} (h : Tracks program st)
    (hend : st.result?.isSome ∨ st.Failed) :
    st.machine = trail program (st.steps + 1) ∧
      ∃ t stop, st.machine = .reached (.ended t stop) := by
  cases h with
  | @level d hlive =>
      rcases hend with hend | ⟨t, f, hend⟩
      · rw [result?_standing] at hend
        cases hend
      · replace hend : trail program d = _ := hend
        rw [hend] at hlive
        exact hlive.elim
  | @ahead d r hr =>
      rcases hend with hend | ⟨t, f, hend⟩
      · rw [result?_standing] at hend
        cases hend
      · replace hend : trail program (d + 1) = _ := hend
        rw [recordAt, hend] at hr
        cases hr
  | finished hended => exact ⟨rfl, _, _, hended⟩
  | failed hended => exact ⟨rfl, _, _, hended⟩

/-- **Scopes are unwound on every exit, and nothing else is lost.** A statement that has run to
its end or was stopped leaves as many scopes as before; those around the innermost one have the
same variables, with values that have changed only where the statement assigns, and for a block
this holds of the innermost scope as well. An exit closes scopes and keeps the rest of what was
committed before. So no scope is open when a program has finished or failed, and its output is all
that its records announced. -/
theorem exits_unwind :
    (∀ (statement : Stmt) (s t : State) (inner : Scope) (outer : Scopes) (n : Nat)
      (stop : Option Stop), s.scopes = inner :: outer →
      (Task.settle s [.run statement]).after n = .ended t stop →
      t.scopes.length = s.scopes.length ∧
        ∃ inner' outer', t.scopes = inner' :: outer' ∧ outer.Keeps statement.assigned outer' ∧
          ((∃ span body, statement = .block span body) → inner.Keeps statement.assigned inner')) ∧
    (∀ (statement : Stmt) (s t : State) (stop : Option Stop),
      Task.settle s [.run statement] = .ended t stop → t = s) ∧
    (∀ (statement : Stmt) (s t : State) (n : Nat) (p : Pause) (stop : Option Stop),
      (Task.settle s [.run statement]).after n = .paused p → p.resume = .ended t stop →
      t.output = (p.current.commit p.state).output ∧
        t.scopes <:+ (p.current.commit p.state).scopes) ∧
    ∀ (program : List Stmt) (requests : List Request) (delivered : List Record) (st : Stepper),
      (start program).serveAll requests = some (delivered, st) →
      st.result?.isSome ∨ st.Failed →
      st.machine.state.scopes = [] ∧
        st.machine.state.output = String.join (delivered.map (·.action.printed)) := by
  have hflat (statement : Stmt) : Task.Flat [.run statement] :=
    Task.Flat.run List.not_mem_nil statement
  refine ⟨?_, ?_, ?_, ?_⟩
  · intro statement s t inner outer n stop hopen hend
    have hruns := Task.runs_of_after hend
    -- the rules give the frame, so it does not matter when the run paused
    obtain ⟨hdepth, houter⟩ := Stmt.frames_of_runs hruns
    refine ⟨hdepth, ?_⟩
    rw [hopen] at hdepth houter
    obtain ⟨inner', outer', hscopes⟩ := List.exists_cons_of_length_eq_add_one hdepth
    rw [hscopes] at houter
    refine ⟨inner', outer', hscopes, houter, ?_⟩
    rintro ⟨span, body, rfl⟩
    have hkeeps := Stmt.keeps_of_runs_block hruns
    rw [hopen, hscopes] at hkeeps
    cases hkeeps with
    | cons hinner _ => exact hinner
  · intro statement s t stop hend
    have hunwinds := Task.unwinds_settle s _ (hflat statement)
    rw [hend] at hunwinds
    exact hunwinds
  · intro statement s t n p stop hp hend
    obtain ⟨todo, hunwinds⟩ :=
      (Progress.flat_after (Task.unwinds_settle s _ (hflat statement)) hp).resume
    rw [hend] at hunwinds
    obtain rfl : t = Task.unwind (p.current.commit p.state) todo := hunwinds
    exact ⟨Task.output_unwind _ _, Task.scopes_unwind _ _⟩
  · intro program requests delivered st hserve hend
    have hcontinues := serveAll_continues hserve (tracks_start program)
    have hsteps : st.steps = delivered.length := by
      have hcount := hcontinues.steps
      simpa [start] using hcount
    have hrecords : delivered.map some = (List.range delivered.length).map (recordAt program) := by
      rw [List.range_eq_range']
      exact map_some_of_continues hcontinues.records
    obtain ⟨hmachine, t, stop, hended⟩ := hcontinues.tracks.exists_ended hend
    refine ⟨?_, ?_⟩
    · rw [hended]
      exact scopes_eq_nil_of_ended (hmachine ▸ hended)
    · rw [hmachine, hsteps]
      exact output_eq_join hrecords

/-- The block `{ x = 1; { print y; } }`. -/
def stoppedInside : Stmt :=
  .block (.ofLength 0 24)
    [.assign (.ofLength 2 6) "x" (.literal (.ofLength 6 1) (.int 1)),
     .block (.ofLength 9 13) [.print (.ofLength 11 8) (.var (.ofLength 17 1) "y")]]

/-- The state in which `x` is declared and has a value or none. -/
def withX (value : Option Value) : State := ⟨[[("x", ⟨.ofLength 0 6, value⟩)]], "before\n"⟩

/-- Printing, and then a block with a hole. -/
def printsAndFails : List Stmt :=
  [.print (.ofLength 0 8) (.literal (.ofLength 6 1) (.int 1)),
   .block (.ofLength 9 2) [.hole (.ofLength 10 0)]]

/-- Both blocks are left when `y` is not found, and `x` has the value that it was given before. A
program that fails in a block has closed it and has written what it printed. -/
theorem exits_unwind_stoppedInside :
    (Task.settle (withX none) [.run stoppedInside]).after 2 =
        .ended (withX (some (.int 1))) (some (.error ⟨.undeclared "y", .ofLength 17 1⟩)) ∧
      (withX (some (.int 1))).scopes.length = 1 ∧
      (∃ p, (Task.settle (withX none) [.run stoppedInside]).after 1 = .paused p ∧
        (withX (some (.int 1))).scopes <:+ (p.current.commit p.state).scopes) ∧
      ∃ delivered st, (start printsAndFails).serveAll [.step, .step] = some (delivered, st) ∧
        st.Failed ∧ st.machine.state.scopes = [] ∧
        st.machine.state.output = String.join (delivered.map (·.action.printed)) := by
  obtain ⟨hexit, _, hkept, hprogram⟩ := exits_unwind
  have hend : (Task.settle (withX none) [.run stoppedInside]).after 2 =
      .ended (withX (some (.int 1))) (some (.error ⟨.undeclared "y", .ofLength 17 1⟩)) := by cbv
  obtain ⟨p, hp⟩ : ∃ p, (Task.settle (withX none) [.run stoppedInside]).after 1 = .paused p :=
    ⟨_, by cbv⟩
  have hresume : p.resume =
      .ended (withX (some (.int 1))) (some (.error ⟨.undeclared "y", .ofLength 17 1⟩)) := by
    rw [Progress.after_add 1 1, hp] at hend
    exact hend
  obtain ⟨⟨delivered, st⟩, hserve, hfailed⟩ : ∃ outcome,
      (start printsAndFails).serveAll [.step, .step] = some outcome ∧ outcome.2.Failed :=
    ⟨_, by cbv, _, _, rfl⟩
  exact ⟨hend, (hexit _ _ _ _ _ _ _ rfl hend).1, ⟨p, hp, (hkept _ _ _ _ _ _ hp hresume).2⟩,
    delivered, st, hserve, hfailed, hprogram _ _ _ _ hserve (.inr hfailed)⟩

end Stepper

end Stepwise
