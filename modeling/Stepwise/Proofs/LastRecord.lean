import Stepwise.Proofs.Sequencing

/-!
# The record before an error

A program announces what it does before it does it. So an error comes right behind the record of
the operation that fails, and that record shows all there is to see of it: the operation, its
place, and the variables as they are. The one exception is an operand of a short-circuit operator
that is no truth value, since these operators announce nothing of their own.

`Action.Fails` says which error an announced action leads to in the scopes that are open, and
`Evaluation.Foretells` that an evaluation which ends in an error has announced the failing action
last. That holds of every expression and of every plan (`Stmt.foretells_plan`). Between two
actions no error arises (`Task.ofShortCircuit_of_settle`), so the step into an error is the step
behind the action that fails (`Pause.Underway.fails`).
-/

namespace Stepwise

open Evaluation

/-! ## Actions that fail -/

/-- The error that an announced action leads to in these scopes. -/
inductive Action.Fails (scopes : Scopes) : Action → RunError → Prop where
  | readUndeclared {span : Span} {name : String} {declared : Option Span} :
      scopes.lookup name = none →
      Fails scopes (.read span name declared) ⟨.undeclared name, span⟩
  | readUninitialized {span origin : Span} {name : String} {declared : Option Span} :
      scopes.lookup name = some ⟨origin, none⟩ →
      Fails scopes (.read span name declared) ⟨.uninitialized name, span⟩
  | assignUndeclared {span : Span} {name : String} {v : Located Value} {declared : Option Span} :
      scopes.lookup name = none →
      Fails scopes (.assign span name v declared) ⟨.undeclared name, span⟩
  | binary {op : Located BinaryOp} {left right : Located Value} {fault : Fault} :
      op.value.apply left.value right.value = .error fault →
      Fails scopes (.binary op left right) ⟨fault, op.span⟩
  | unary {op : Located UnaryOp} {operand : Located Value} {fault : Fault} :
      op.value.apply operand.value = .error fault →
      Fails scopes (.unary op operand) ⟨fault, op.span⟩
  | check {keyword : Span} {condition : Located Value} :
      condition.value.type ≠ .bool →
      Fails scopes (.check keyword condition) ⟨.condition condition.value.type, condition.span⟩

/-- Whether an error is that of an operand of a short-circuit operator. -/
def RunError.OfShortCircuit (e : RunError) : Prop :=
  ∃ op type, e.fault = .shortCircuitOperand op type

/-- Whether an error can be located by what a record shows. An error of an operation or of a
variable is at the marked place, and the variable is seen to be missing or to have no value. A
condition is the one operand of its check. -/
def Record.Locates (r : Record) (e : RunError) : Prop :=
  match e.fault with
  | .undeclared name => e.span = r.action.highlight ∧ r.state.snapshot.lookup name = none
  | .uninitialized name =>
    e.span = r.action.highlight ∧ ∃ declared, r.state.snapshot.lookup name = some ⟨declared, none⟩
  | .binaryOperands _ _ _ | .unaryOperand _ _ | .divisionByZero _ => e.span = r.action.highlight
  | .condition _ =>
    r.action.marks.head?.map (·.1) = some e.span ∧
      r.action.substitutions.map (·.1) = [e.span]
  | .shortCircuitOperand _ _ => False

/-- The picture of a state has the variables of the state. -/
theorem State.lookup_snapshot (s : State) (name : String) :
    s.snapshot.lookup name = s.scopes.lookup name := by
  have hfind (scope : Scope) : (scope.find? (·.1 = name)).map (·.2) = scope.get? name := by
    induction scope with
    | nil => rfl
    | cons entry rest ih =>
        obtain ⟨key, b⟩ := entry
        rw [Scope.get?_cons, List.find?_cons]
        by_cases hkey : key = name
        · simp [hkey]
        · have hkey' : ¬name = key := fun h => hkey h.symm
          simpa [hkey, hkey'] using ih
  simp only [Snapshot.lookup, State.snapshot, List.reverse_reverse, hfind, Scopes.lookup]

/-- A binary operator finds fault with the types of its operands, or with a divisor. -/
theorem BinaryOp.fault_of_apply {op : BinaryOp} {a b : Value} {fault : Fault}
    (h : op.apply a b = .error fault) :
    fault = .binaryOperands op a.type b.type ∨ fault = .divisionByZero op := by
  unfold BinaryOp.apply at h
  grind [Value.type]

theorem UnaryOp.fault_of_apply {op : UnaryOp} {a : Value} {fault : Fault}
    (h : op.apply a = .error fault) : fault = .unaryOperand op a.type := by
  unfold UnaryOp.apply at h
  grind

/-- **The record of an action that fails locates the error.** -/
theorem Action.Fails.locates {r : Record} {e : RunError} (h : r.action.Fails r.state.scopes e) :
    r.Locates e := by
  obtain ⟨action, state⟩ := r
  cases h with
  | readUndeclared hname => exact ⟨rfl, (state.lookup_snapshot _).trans hname⟩
  | readUninitialized hname => exact ⟨rfl, _, (state.lookup_snapshot _).trans hname⟩
  | assignUndeclared hname => exact ⟨rfl, (state.lookup_snapshot _).trans hname⟩
  | binary happly =>
      rcases BinaryOp.fault_of_apply happly with rfl | rfl
      · exact rfl
      · exact rfl
  | unary happly =>
      obtain rfl := UnaryOp.fault_of_apply happly
      exact rfl
  | check htype => exact ⟨rfl, rfl⟩

/-! ## Evaluations that announce their errors -/

namespace Evaluation

/-- Whether an error of an evaluation, unless it is that of a short-circuit operator, is the error
of the action that is announced last. -/
def Foretells {α : Type} (scopes : Scopes) (x : Evaluation α) : Prop :=
  ∀ e, x.result = .error (.error e) →
    e.OfShortCircuit ∨ ∃ a, x.actions.getLast? = some a ∧ a.Fails scopes e

variable {α β : Type} {scopes : Scopes}

theorem foretells_of_ok {x : Evaluation α} {v : α} (h : x.result = .ok v) :
    x.Foretells scopes := by
  intro e he
  rw [h] at he
  cases he

theorem foretells_abort (failure : Failure) : (abort failure : Evaluation α).Foretells scopes := by
  intro e he
  cases he

theorem foretells_bind {x : Evaluation α} {f : α → Evaluation β} (hx : x.Foretells scopes)
    (hf : ∀ a, (f a).Foretells scopes) : (x >>= f).Foretells scopes := by
  intro e he
  rw [bind_def] at he ⊢
  cases h : x.result with
  | error stop =>
      rw [andThen_of_error h] at he ⊢
      cases he
      exact hx e h
  | ok v =>
      rw [andThen_of_ok h] at he ⊢
      -- the actions of `f v` stand behind those of `x`, so the last one is the last of all
      rcases hf v e he with hshort | ⟨a, hlast, hfails⟩
      · exact .inl hshort
      · refine .inr ⟨a, ?_, hfails⟩
        rw [List.getLast?_append, hlast]
        rfl

/-- An action right before the end foretells the error, if it is its own. -/
theorem foretells_announce {a : Action} {f : Unit → Evaluation β} (hf : (f ()).actions = [])
    (h : ∀ e, (f ()).result = .error (.error e) → a.Fails scopes e) :
    (announce a >>= f).Foretells scopes := by
  intro e he
  rw [bind_def, andThen_of_ok rfl] at he ⊢
  refine .inr ⟨a, ?_, h e he⟩
  simp [announce, hf]

theorem foretells_blame {a : Action} {span : Span} {r : Except Fault β}
    (h : ∀ fault, r = .error fault → a.Fails scopes ⟨fault, span⟩) :
    (announce a >>= fun _ => blame span r).Foretells scopes := by
  cases r with
  | ok b => exact foretells_of_ok rfl
  | error fault =>
      refine foretells_announce rfl fun e he => ?_
      cases he
      exact h fault rfl

end Evaluation

theorem ShortCircuitOp.foretells_operand {scopes : Scopes} (op : ShortCircuitOp) (span : Span)
    (v : Value) : (op.operand span v).Foretells scopes := by
  intro e he
  cases v with
  | bool b => cases he
  | _ =>
      cases he
      exact .inl ⟨op, _, rfl⟩

theorem Scopes.foretells_read (scopes : Scopes) (span : Span) (name : String) :
    (scopes.read span name).Foretells scopes := by
  refine foretells_announce ?_ fun e he => ?_
  · split <;> rfl
  · split at he
    · rename_i hname
      cases he
      exact .readUndeclared hname
    · rename_i hname
      cases he
      exact .readUninitialized hname
    · cases he

theorem Expr.foretells_eval (scopes : Scopes) (e : Expr) : (e.eval scopes).Foretells scopes := by
  induction e using Expr.eval.induct with
  | case1 span name => exact scopes.foretells_read span name
  | case2 span v => exact foretells_of_ok rfl
  | case3 span inner ih => exact ih
  | case4 span callee arguments => exact foretells_abort _
  | case5 span left op right ihl ihr =>
      -- a short-circuit operator announces nothing itself: its faults are the excepted ones
      refine foretells_bind ihl fun a => foretells_bind (op.value.foretells_operand _ a)
        fun b => ?_
      split
      · exact foretells_of_ok rfl
      · refine foretells_bind ihr fun c => foretells_bind (op.value.foretells_operand _ c)
          fun d => ?_
        exact foretells_of_ok rfl
  | case6 span left op right ihl ihr =>
      refine foretells_bind ihl fun a => foretells_bind ihr fun b => ?_
      exact foretells_blame fun fault h => .binary h
  | case7 span op operand ih =>
      refine foretells_bind ih fun a => ?_
      exact foretells_blame fun fault h => .unary h
  | case8 span => exact foretells_abort _

theorem Expr.foretells_test (condition : Expr) (keyword : Span) (scopes : Scopes)
    (yes no : List Task) : (condition.test keyword scopes yes no).Foretells scopes := by
  refine foretells_bind (condition.foretells_eval scopes) fun v => ?_
  refine foretells_announce (by split <;> rfl) fun e he => ?_
  cases v with
  | bool b => cases b <;> cases he
  | int n => cases he; exact .check nofun
  | float x => cases he; exact .check nofun
  | string t => cases he; exact .check nofun

/-- **A plan that ends in an error has announced the failing action last.** -/
theorem Stmt.foretells_plan (scopes : Scopes) (s : Stmt) : (s.plan scopes).Foretells scopes := by
  cases s with
  | block span body => exact foretells_of_ok rfl
  | expr span e => exact foretells_bind (e.foretells_eval scopes) fun _ => foretells_of_ok rfl
  | print span e =>
      exact foretells_bind (e.foretells_eval scopes) fun v => foretells_of_ok rfl
  | declare span name initial =>
      cases initial with
      | none => exact foretells_of_ok rfl
      | some e =>
          exact foretells_bind (e.foretells_eval scopes) fun v => foretells_of_ok rfl
  | assign span name e =>
      refine foretells_bind (e.foretells_eval scopes) fun v => ?_
      cases hname : scopes.lookup name with
      | some b => exact foretells_of_ok rfl
      | none =>
          -- a name that is nowhere declared fails the assignment, and only after its value is
          -- known
          refine foretells_announce rfl fun e he => ?_
          cases he
          exact .assignUndeclared hname
  | branch span keyword condition yes no => exact condition.foretells_test keyword scopes _ _
  | loop span keyword condition body => exact condition.foretells_test keyword scopes _ _
  | hole span => exact foretells_abort _

/-! ## Runs -/

/-- No error arises between two actions, but for an operand of a short-circuit operator. -/
theorem Task.ofShortCircuit_of_settle {s t : State} {tasks : List Task} {e : RunError}
    (h : settle s tasks = .ended t (some (.error e))) : e.OfShortCircuit := by
  induction s, tasks using settle.induct with
  | case1 s =>
      rw [settle_nil] at h
      cases h
  | case2 s todo ih =>
      rw [settle_enter] at h
      exact ih h
  | case3 s todo ih =>
      rw [settle_leave] at h
      exact ih h
  | case4 s statement todo current queue hactions =>
      rw [settle_of_actions hactions] at h
      cases h
  | case5 s statement todo tasks hactions htasks _ ih =>
      rw [settle_of_tasks hactions htasks] at h
      exact ih h
  | case6 s statement todo stop hactions hstop =>
      rw [settle_of_stop hactions hstop] at h
      cases h
      -- the plan stops before its first action, so it has no last one
      rcases statement.foretells_plan s.scopes e hstop with hshort | ⟨a, hlast, _⟩
      · exact hshort
      · rw [hactions] at hlast
        cases hlast

/-- **The step into an error is the step behind the action that fails.** -/
theorem Pause.Underway.fails {p : Pause} (h : p.Underway) {t : State} {e : RunError}
    (hend : p.resume = .ended t (some (.error e))) (he : ¬e.OfShortCircuit) :
    p.current.Fails p.state.scopes e := by
  obtain ⟨state, current, ⟨actions, result⟩, todo⟩ := p
  obtain ⟨⟨s, front, hplan⟩, _⟩ := h
  replace hplan : s.plan state.scopes = ⟨front ++ current :: actions, result⟩ := hplan
  replace hend : Task.proceed (current.commit state) ⟨actions, result⟩ todo = _ := hend
  cases actions with
  -- while actions are left, the next step announces one of them
  | cons next queue => cases hend
  | nil =>
      cases result with
      | ok tasks => exact absurd (Task.ofShortCircuit_of_settle hend) he
      | error stop =>
          cases hend
          -- the current action is the last one of its plan
          have hforetells := s.foretells_plan state.scopes
          rw [hplan] at hforetells
          rcases hforetells e rfl with hshort | ⟨a, hlast, hfails⟩
          · exact absurd hshort he
          · rw [List.getLast?_concat] at hlast
            cases hlast
            exact hfails

open Machine

/-- An error is reached one step behind the last record, whose action fails with it. -/
theorem Machine.exists_last_record {program : List Stmt} {n : Nat} {t : State} {e : RunError}
    (hend : trail program n = .reached (.ended t (some (.error e)))) (he : ¬e.OfShortCircuit) :
    ∃ d r, recordAt program d = some r ∧ recordAt program (d + 1) = none ∧
      r.action.Fails r.state.scopes e := by
  obtain ⟨d, hlive, hd⟩ := exists_first_end hend
  cases d with
  | zero =>
      -- nothing has been announced yet
      rw [trail_succ, trail_zero] at hd
      injection hd with hd
      exact absurd (Task.ofShortCircuit_of_settle hd) he
  | succ d =>
      obtain ⟨p, hp⟩ := exists_pause_of_live hlive
      refine ⟨d, p.record, ?_, ?_, ?_⟩
      · rw [recordAt, hp]
        rfl
      · rw [recordAt, hd]
        rfl
      · rw [trail_succ, hp] at hd
        injection hd with hd
        exact (underway_trail d hp).fails hd he

namespace Stepper

/-- A stepper that has finished has delivered all records, the last one included. -/
theorem getLast?_of_result? {program : List Stmt} {requests : List Request}
    {delivered : List Record} {st : Stepper} {result : RunResult}
    (hs : (start program).serveAll requests = some (delivered, st))
    (hresult : st.result? = some result) {d : Nat} {r : Record} (hr : recordAt program d = some r)
    (hnone : recordAt program (d + 1) = none) : delivered.getLast? = some r := by
  have hcontinues := serveAll_continues hs (tracks_start program)
  have hrecords := (faithful_of_continues hcontinues).records
  obtain ⟨⟨s, hend, _⟩, _⟩ := hcontinues.tracks.ended_of_result? hresult
  have hstop : recordAt program st.steps = none := by
    rw [recordAt, hend]
    rfl
  -- a stepper at the end has passed every record, and has not counted further
  have hle : d + 1 ≤ st.steps := by
    by_contra hlt
    rw [recordAt_eq_none_of_le hstop (by omega)] at hr
    cases hr
  have hlength : delivered.length = st.steps := by simpa using congrArg List.length hrecords
  -- what was delivered is the trail, place by place
  have hat (i : Nat) (hi : i < st.steps) : delivered[i]? = recordAt program i := by
    have hget := congrArg (·[i]?) hrecords
    simp only [List.getElem?_map, List.getElem?_range hi, Option.map_some] at hget
    obtain ⟨x, hx, hxi⟩ := Option.map_eq_some_iff.mp hget
    rw [hx, ← hxi]
  have hlast : st.steps = d + 1 := by
    by_contra hne
    have hmissing := hat (d + 1) (by omega)
    rw [hnone, List.getElem?_eq_none_iff] at hmissing
    omega
  rw [List.getLast?_eq_getElem?, hlength, hlast, Nat.add_sub_cancel, hat d (by omega), hr]

/-- **An error follows the record that announces the failing operation.** If a program ends in
an error that is not one of a short-circuit operator, then it has a last record. The action of
that record fails with the error in the state that the record shows, and the record locates
the error. However a stepper was driven to that end, the record that it has delivered last is
one of this kind. -/
theorem error_behind_failing_record {e : RunError} (he : ¬e.OfShortCircuit) (program : List Stmt) :
    (∀ n t, trail program n = .reached (.ended t (some (.error e))) →
      ∃ d r, recordAt program d = some r ∧ (∀ i, d < i → recordAt program i = none) ∧
        r.action.Fails r.state.scopes e ∧ r.Locates e) ∧
    ∀ requests delivered st output,
      (start program).serveAll requests = some (delivered, st) →
      st.result? = some ⟨some e, output⟩ →
      ∃ r, delivered.getLast? = some r ∧ r.action.Fails r.state.scopes e ∧ r.Locates e := by
  refine ⟨fun n t hend => ?_, fun requests delivered st output hs hresult => ?_⟩
  · obtain ⟨d, r, hr, hnone, hfails⟩ := exists_last_record hend he
    exact ⟨d, r, hr, fun i hi => recordAt_eq_none_of_le hnone hi, hfails, hfails.locates⟩
  · have htracks := (serveAll_continues hs (tracks_start program)).tracks
    obtain ⟨⟨s, hend, _⟩, _⟩ := htracks.ended_of_result? hresult
    obtain ⟨d, r, hr, hnone, hfails⟩ := exists_last_record hend he
    exact ⟨r, getLast?_of_result? hs hresult hr hnone, hfails, hfails.locates⟩

/-- The program `{ var x; while  x  {}  }`, with two blanks on both sides of the condition. -/
def unset : List Stmt :=
  [.block (.ofLength 0 24)
     [.declare (.ofLength 2 6) "x" none,
      .loop (.ofLength 9 12) (.ofLength 9 5) (.var (.ofLength 16 1) "x")
        (.block (.ofLength 19 2) [])]]

/-- The program `if  1  {}`, spaced in the same way. -/
def untrue : List Stmt :=
  [.branch (.ofLength 0 9) (.ofLength 0 2) (.literal (.ofLength 4 1) (.int 1))
    (.block (.ofLength 7 2) []) none]

/-- A listing of one record and two steps lead to the variable without a value, which the last
record reads; and a condition that is a number is what the last record checks. -/
theorem error_behind_failing_record_unset :
    (∃ delivered st, (start unset).serveAll [.take none 1, .step, .step] = some (delivered, st) ∧
      st.result? = some ⟨some ⟨.uninitialized "x", .ofLength 16 1⟩, ""⟩ ∧
      ∃ r, delivered.getLast? = some r ∧ r.Locates ⟨.uninitialized "x", .ofLength 16 1⟩) ∧
    trail untrue 2 = .reached (.ended ⟨[], ""⟩ (some (.error ⟨.condition .int, .ofLength 4 1⟩))) ∧
    ∃ d r, recordAt untrue d = some r ∧ (∀ i, d < i → recordAt untrue i = none) ∧
      r.Locates ⟨.condition .int, .ofLength 4 1⟩ := by
  have hserved : ∃ delivered st,
      (start unset).serveAll [.take none 1, .step, .step] = some (delivered, st) ∧
      st.result? = some ⟨some ⟨.uninitialized "x", .ofLength 16 1⟩, ""⟩ := ⟨_, _, by cbv, by cbv⟩
  have hend : trail untrue 2 =
      .reached (.ended ⟨[], ""⟩ (some (.error ⟨.condition .int, .ofLength 4 1⟩))) := by cbv
  obtain ⟨delivered, st, hs, hresult⟩ := hserved
  obtain ⟨r, hlast, _, hlocates⟩ :=
    (error_behind_failing_record (by rintro ⟨op, type, h⟩; cases h) unset).2 _ _ _ _ hs hresult
  obtain ⟨d, r', hr', hnone, _, hlocates'⟩ :=
    (error_behind_failing_record (by rintro ⟨op, type, h⟩; cases h) untrue).1 _ _ hend
  exact ⟨⟨delivered, st, hs, hresult, r, hlast, hlocates⟩, hend, d, r', hr', hnone, hlocates'⟩

end Stepper

end Stepwise
