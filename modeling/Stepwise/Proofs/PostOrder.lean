import Stepwise.Proofs.Meaning
import Stepwise.Proofs.Productivity

/-!
# Evaluation visits nodes in post-order

Evaluating an expression reads the scopes and changes nothing, and what it announces are the
variables and operations of a walk through the tree: operands before their operation, the left one
before the right one (`Expr.traversal`). A call is a leaf of the walk, and the right operand of a
short-circuit operation is not part of it if the left one decides.

* **The run.** Whatever waits for the value, the transitions of an expression lead from its start
  to its result, past its actions, in one and the same state (`Expr.computes`). The step lemma is
  that of an operation which waits for its operand (`Computes.operand`).
* **The walk.** A value is the end of the whole walk. An error cuts the walk behind
  the node that is at fault (`Evaluation.Visits`), and this goes through from
  operands to operations (`Visits.bind`).
* **What is left out.** Anything may stand in place of what the walk leaves out
  (`Expr.eval_replaceSkipped`).
-/

namespace Stepwise

open Evaluation

/-! ## The run of an expression -/

/-- Transitions are those of the machine: it waits with their records, one after the other. -/
theorem Config.Leads.record?_after {c after : Config} {rs : List Record} (h : c.Leads rs after) :
    ∀ {i : Nat} {r : Record}, rs[i]? = some r → (c.outcome.after i).record? = some r := by
  induction h with
  | refl =>
      intro i r hr
      cases hr
  | silent hsilent _ ih =>
      rw [← Config.outcome_of_silent hsilent]
      exact ih
  | announces hannounces _ ih =>
      intro i r hr
      obtain ⟨p, hp, hrecord, hresume⟩ := Config.outcome_of_announces hannounces
      rw [hp]
      -- the first record is the announced one, and the others come from behind it
      cases i with
      | zero =>
          injection hr with hr
          rw [Progress.after_zero, Progress.record?_paused, hrecord, hr]
      | succ i =>
          rw [Progress.after_succ, Progress.next_paused, hresume]
          exact ih hr

/-- Whether a point inside a statement leads to the result of an evaluation, past its actions and
with the state as it is. -/
def Control.Computes (s : State) (x : Evaluation Value) (waiting : List Waiting) (use : Use)
    (control : Control) : Prop :=
  ∀ todo, Config.Leads ⟨s, control, todo⟩ (x.actions.map (⟨·, s⟩))
    ⟨s, .give x.result waiting use, todo⟩

namespace Control

variable {s : State} {x : Evaluation Value} {waiting : List Waiting} {use : Use}

theorem computes_ofResult (s : State) (r : Except Stop Value) (waiting : List Waiting)
    (use : Use) :
    (Control.give r waiting use).Computes s (ofResult r) waiting use :=
  fun _ => .refl

theorem computes_tell (s : State) (a : Action) (silent : a.Silent) (r : Except Stop Value)
    (waiting : List Waiting) (use : Use) :
    (Control.tell a silent r waiting use).Computes s ((ofResult r).behind a) waiting use := by
  intro todo
  refine .announces (m := ⟨s, .give r waiting use, todo⟩) ?_ .refl
  show Tick.announces a ⟨a.commit s, _, todo⟩ = _
  rw [Action.commit_of_silent silent]

theorem Computes.start {e : Expr} (h : (ofExpr s.scopes waiting use e).Computes s x waiting use) :
    (Control.eval e waiting use).Computes s x waiting use :=
  fun todo => .silent rfl (h todo)

/-- **An operation that waits for an operand** goes on with its value, and passes on what stopped
it. -/
theorem Computes.operand {control : Control} {w : Waiting} {f : Value → Evaluation Value}
    (h : control.Computes s x (w :: waiting) use)
    (hf : ∀ v, x.result = .ok v → (w.take v waiting use).Computes s (f v) waiting use) :
    control.Computes s (x >>= f) waiting use := by
  intro todo
  cases hx : x.result with
  | error stop =>
      have hleads := h todo
      rw [hx] at hleads
      -- what stopped the operand passes the waiting operation by, without a record
      have hpassed := hleads.trans (.silent rfl .refl)
      rw [List.append_nil] at hpassed
      rw [bind_def, andThen_of_error hx]
      exact hpassed
  | ok v =>
      have hleads := h todo
      rw [hx] at hleads
      have htaken := hleads.trans (.silent rfl (hf v hx todo))
      rw [← List.map_append] at htaken
      rw [bind_def, andThen_of_ok hx]
      exact htaken

end Control

/-- **Evaluation only reads.** From the start of an expression the transitions lead to its result,
past its actions, and the state is the same all the way. -/
theorem Expr.computes (s : State) (e : Expr) (waiting : List Waiting) (use : Use) :
    (Control.eval e waiting use).Computes s (e.eval s.scopes) waiting use := by
  induction e using Expr.eval.induct generalizing waiting with
  | case1 span name =>
      refine .start ?_
      rw [Expr.eval, Scopes.read_eq_behind]
      exact Control.computes_tell s _ _ _ waiting use
  | case2 span v => exact .start (Control.computes_ofResult s (.ok v) waiting use)
  | case3 span inner ih => exact .start (ih waiting)
  | case4 span callee arguments => exact .start (Control.computes_ofResult s _ waiting use)
  | case5 span left op right ihl ihr =>
      refine .start ((ihl _).operand fun v _ => ?_)
      rw [ShortCircuitOp.operand_eq_ofResult]
      simp only [Waiting.take]
      cases op.value.operand left.span v with
      | mk actions result =>
          cases result with
          | error stop => exact Control.computes_ofResult s (.error stop) waiting use
          | ok a =>
              show (if a = op.value.decider then _ else _ : Control).Computes s
                (if a = op.value.decider then _ else _) waiting use
              -- the right operand is evaluated only if it is still needed
              by_cases hop : a = op.value.decider
              · rw [if_pos hop, if_pos hop]
                exact Control.computes_ofResult s (.ok (.bool a)) waiting use
              · rw [if_neg hop, if_neg hop]
                refine (ihr _).operand fun w _ => ?_
                rw [ShortCircuitOp.operand_eq_ofResult]
                simp only [Waiting.take]
                cases op.value.operand right.span w with
                | mk actions result =>
                    cases result with
                    | error stop => exact Control.computes_ofResult s (.error stop) waiting use
                    | ok b => exact Control.computes_ofResult s (.ok (.bool b)) waiting use
  | case6 span left op right ihl ihr =>
      refine .start ((ihl _).operand fun a _ => (ihr _).operand fun b _ => ?_)
      rw [announce_bind, blame_eq_ofResult]
      exact Control.computes_tell s _ _ _ waiting use
  | case7 span op operand ih =>
      refine .start ((ih _).operand fun a _ => ?_)
      rw [announce_bind, blame_eq_ofResult]
      exact Control.computes_tell s _ _ _ waiting use
  | case8 span => exact .start (Control.computes_ofResult s _ waiting use)

/-! ## The walk -/

namespace Expr

/-- Whether the value of a left operand decides a short-circuit operation. -/
def decides (scopes : Scopes) (op : ShortCircuitOp) (left : Expr) : Bool :=
  match (left.eval scopes).result with
  | .ok (.bool b) => b = op.decider
  | _ => false

/-- The nodes of an expression from left to right, each of them behind its operands, without those
in calls and in right operands that a left one makes superfluous. -/
def traversal (scopes : Scopes) (e : Expr) : List Expr :=
  match e with
  | .var _ _ | .literal _ _ | .call _ _ _ | .hole _ => [e]
  | .paren _ inner => inner.traversal scopes ++ [e]
  | .shortCircuit _ left op right =>
    left.traversal scopes ++
      ((if left.decides scopes op.value then [] else right.traversal scopes) ++ [e])
  | .binary _ left _ right => left.traversal scopes ++ (right.traversal scopes ++ [e])
  | .unary _ _ operand => operand.traversal scopes ++ [e]

/-- Whether a node announces something. -/
def announced : Expr → Bool
  | .var _ _ | .binary _ _ _ _ | .unary _ _ _ => true
  | _ => false

/-- What a node announces, once its operands have values. -/
def action? (scopes : Scopes) : Expr → Option Action
  | .var span name => some (.read span name ((scopes.lookup name).map (·.declared)))
  | .binary _ left op right =>
    match (left.eval scopes).result, (right.eval scopes).result with
    | .ok a, .ok b => some (.binary op ⟨left.span, a⟩ ⟨right.span, b⟩)
    | _, _ => none
  | .unary _ op operand =>
    match (operand.eval scopes).result with
    | .ok a => some (.unary op ⟨operand.span, a⟩)
    | .error _ => none
  | _ => none

/-- Whether a node is what stops the evaluation of an expression. It has no value
although its operands have, or it is an operand of a short-circuit operation and has a
value of another type. -/
inductive AtFault (scopes : Scopes) (outer : Expr) : Expr → Stop → Prop where
  | var {span : Span} {name : String} {stop : Stop} :
      Yields scopes (.var span name) (.error stop) → AtFault scopes outer (.var span name) stop
  | call {span : Span} {callee : Expr} {arguments : List Expr} :
      AtFault scopes outer (.call span callee arguments)
        (.failure (.unsupported span "function calls"))
  | hole {span : Span} : AtFault scopes outer (.hole span) (.failure .missingExpression)
  | binary {span : Span} {left right : Expr} {op : Located BinaryOp} {a b : Value}
      {fault : Fault} :
      Yields scopes left (.ok a) → Yields scopes right (.ok b) →
      op.value.apply a b = .error fault →
      AtFault scopes outer (.binary span left op right) (.error ⟨fault, op.span⟩)
  | unary {span : Span} {op : Located UnaryOp} {operand : Expr} {a : Value} {fault : Fault} :
      Yields scopes operand (.ok a) → op.value.apply a = .error fault →
      AtFault scopes outer (.unary span op operand) (.error ⟨fault, op.span⟩)
  | left {span : Span} {left right : Expr} {op : Located ShortCircuitOp} {v : Value} :
      .shortCircuit span left op right ∈ outer.traversal scopes →
      Yields scopes left (.ok v) → v.type ≠ .bool →
      AtFault scopes outer left (.error ⟨.shortCircuitOperand op.value v.type, left.span⟩)
  | right {span : Span} {left right : Expr} {op : Located ShortCircuitOp} {a : Bool} {v : Value} :
      .shortCircuit span left op right ∈ outer.traversal scopes →
      Yields scopes left (.ok (.bool a)) → ¬op.value.Decides a →
      Yields scopes right (.ok v) → v.type ≠ .bool →
      AtFault scopes outer right (.error ⟨.shortCircuitOperand op.value v.type, right.span⟩)

/-- Whether an expression has a value. -/
def HasValue (scopes : Scopes) (e : Expr) : Prop := ∃ v, e.Yields scopes (.ok v)

/-- How far an evaluation comes in a walk if it ends like this: behind the last node with a value,
or behind the first node that is at fault. -/
def Reaches {α : Type} (scopes : Scopes) (outer : Expr) (visited rest : List Expr) :
    Except Stop α → Prop
  | .ok _ => rest = [] ∧ ∀ node ∈ visited, node.HasValue scopes
  | .error stop => ∃ before node, visited = before ++ [node] ∧ outer.AtFault scopes node stop ∧
      ∀ node ∈ before, node.HasValue scopes

end Expr

/-- Whether an evaluation visits the nodes of a walk, up to where it ends, and announces the
actions of those nodes that have one. -/
def Evaluation.Visits {α : Type} (scopes : Scopes) (outer : Expr) (nodes : List Expr)
    (x : Evaluation α) : Prop :=
  ∃ visited rest, nodes = visited ++ rest ∧
    (visited.filter (·.announced)).map (·.action? scopes) = x.actions.map some ∧
    Expr.Reaches scopes outer visited rest x.result

namespace Evaluation

variable {α β : Type} {scopes : Scopes} {outer : Expr} {nodes nodes' : List Expr}

theorem bind_pure (x : Evaluation α) : (x >>= fun a => ofResult (.ok a)) = x := by
  obtain ⟨actions, result⟩ := x
  cases result with
  | error stop => rfl
  | ok a => simp [bind_def, andThen, ofResult]

/-- **One walk behind the other.** -/
theorem Visits.bind {x : Evaluation α} {f : α → Evaluation β} (hx : x.Visits scopes outer nodes)
    (hf : ∀ a, x.result = .ok a → (f a).Visits scopes outer nodes') :
    (x >>= f).Visits scopes outer (nodes ++ nodes') := by
  obtain ⟨visited, rest, rfl, hactions, hreaches⟩ := hx
  cases hresult : x.result with
  | error stop =>
      -- the second walk is cut off as a whole
      rw [hresult] at hreaches
      refine ⟨visited, rest ++ nodes', List.append_assoc _ _ _, ?_, ?_⟩
      · rw [bind_def, andThen_of_error hresult]
        exact hactions
      · rw [bind_def, andThen_of_error hresult]
        exact hreaches
  | ok a =>
      rw [hresult] at hreaches
      obtain ⟨rfl, hvalues⟩ := hreaches
      obtain ⟨visited', rest', rfl, hactions', hreaches'⟩ := hf a hresult
      refine ⟨visited ++ visited', rest', by simp, ?_, ?_⟩
      · rw [bind_def, andThen_of_ok hresult, List.filter_append, List.map_append, List.map_append,
          hactions, hactions']
      · rw [bind_def, andThen_of_ok hresult]
        show Expr.Reaches scopes outer _ rest' (f a).result
        cases hend : (f a).result with
        | error stop =>
            rw [hend] at hreaches'
            obtain ⟨before, node, rfl, hfault, hbefore⟩ := hreaches'
            refine ⟨visited ++ before, node, by simp, hfault, ?_⟩
            exact List.forall_mem_append.mpr ⟨hvalues, hbefore⟩
        | ok b =>
            rw [hend] at hreaches'
            exact ⟨hreaches'.1, List.forall_mem_append.mpr ⟨hvalues, hreaches'.2⟩⟩

/-- A node that announces nothing. -/
theorem visits_silent {e : Expr} {result : Except Stop α} (hannounced : e.announced = false)
    (hreaches : Expr.Reaches scopes outer [e] [] result) :
    (ofResult result).Visits scopes outer [e] := by
  refine ⟨[e], [], rfl, ?_, hreaches⟩
  simp [hannounced, ofResult]

/-- A node that announces an action. -/
theorem visits_announced {e : Expr} {a : Action} {result : Except Stop α}
    (hannounced : e.announced = true) (ha : e.action? scopes = some a)
    (hreaches : Expr.Reaches scopes outer [e] [] result) :
    ((ofResult result).behind a).Visits scopes outer [e] := by
  refine ⟨[e], [], rfl, ?_, hreaches⟩
  simp [hannounced, ha, behind, ofResult]

end Evaluation

namespace Expr

variable {scopes : Scopes} {outer : Expr}

/-- A walk ends with the expression as a whole. -/
theorem exists_traversal_eq (scopes : Scopes) (e : Expr) :
    ∃ front, e.traversal scopes = front ++ [e] := by
  cases e with
  | var | literal | call | hole => exact ⟨[], by simp only [traversal, List.nil_append]⟩
  | paren | unary => exact ⟨_, by rw [traversal]⟩
  | shortCircuit | binary => exact ⟨_, by rw [traversal, ← List.append_assoc]⟩

theorem mem_traversal (scopes : Scopes) (e : Expr) : e ∈ e.traversal scopes := by
  obtain ⟨front, hfront⟩ := e.exists_traversal_eq scopes
  rw [hfront]
  exact List.mem_append_right _ (List.mem_singleton.mpr rfl)

/-- A node with a value is passed. -/
theorem reaches_value {e : Expr} {v : Value} (h : e.Yields scopes (.ok v)) :
    Reaches scopes outer [e] [] (.ok v) :=
  ⟨rfl, List.forall_mem_singleton.mpr ⟨v, h⟩⟩

/-- What a single node reaches. -/
theorem reaches_single {e : Expr} {result : Except Stop Value} (h : e.Yields scopes result)
    (hfault : ∀ stop, result = .error stop → outer.AtFault scopes e stop) :
    Reaches scopes outer [e] [] result := by
  cases result with
  | error stop => exact ⟨[], e, rfl, hfault stop rfl, nofun⟩
  | ok v => exact reaches_value h

/-- The check of an operand of a short-circuit operation comes with its last node. -/
theorem visits_operand {e : Expr} {op : ShortCircuitOp}
    (h : (e.eval scopes).Visits scopes outer (e.traversal scopes))
    (hfault : ∀ v, e.Yields scopes (.ok v) → v.type ≠ .bool →
      outer.AtFault scopes e (.error ⟨.shortCircuitOperand op v.type, e.span⟩)) :
    (e.eval scopes >>= op.operand e.span).Visits scopes outer (e.traversal scopes) := by
  obtain ⟨visited, rest, hnodes, hactions, hreaches⟩ := h
  cases hresult : (e.eval scopes).result with
  | error stop =>
      rw [hresult] at hreaches
      rw [bind_def, andThen_of_error hresult]
      exact ⟨visited, rest, hnodes, hactions, hreaches⟩
  | ok v =>
      rw [hresult] at hreaches
      obtain ⟨rfl, hvalues⟩ := hreaches
      have hvisits : (e.eval scopes >>= op.operand e.span).actions = (e.eval scopes).actions := by
        rw [bind_def, andThen_of_ok hresult, ShortCircuitOp.operand_eq_ofResult]
        exact List.append_nil _
      refine ⟨visited, [], hnodes, by rw [hvisits]; exact hactions, ?_⟩
      rw [result_bind_of_ok hresult]
      -- the check announces nothing; a value of another type makes the operand the node at fault
      by_cases hv : v.type = .bool
      · obtain ⟨b, rfl⟩ := exists_bool_of_type hv
        exact ⟨rfl, hvalues⟩
      · rw [ShortCircuitOp.operand_of_type_ne hv]
        obtain ⟨front, hfront⟩ := e.exists_traversal_eq scopes
        rw [List.append_nil, hfront] at hnodes
        subst hnodes
        refine ⟨front, e, rfl, hfault v (yields_iff.mpr hresult) hv, ?_⟩
        exact (List.forall_mem_append.mp hvalues).1

/-- The truth value that is taken from an operand is its value. -/
theorem yields_of_operand {e : Expr} {op : ShortCircuitOp} {a : Bool}
    (h : (e.eval scopes >>= op.operand e.span).result = .ok a) :
    e.Yields scopes (.ok (.bool a)) := by
  refine yields_iff.mpr ?_
  cases hresult : (e.eval scopes).result with
  | error stop =>
      rw [result_bind_of_error hresult] at h
      cases h
  | ok v =>
      rw [result_bind_of_ok hresult] at h
      cases v with
      | bool b =>
          cases h
          rfl
      | _ => cases h

theorem decides_of_yields {op : ShortCircuitOp} {left : Expr} {a : Bool}
    (h : left.Yields scopes (.ok (.bool a))) :
    left.decides scopes op = decide (a = op.decider) := by
  unfold decides
  rw [yields_iff.mp h]

/-- An operator whose operands have values announces its operation, and is at fault itself if it
cannot be applied to them. -/
theorem visits_applied {e : Expr} {a : Action} {span : Span} {applied : Except Fault Value}
    (hannounced : e.announced = true) (ha : e.action? scopes = some a)
    (hresult : (e.eval scopes).result = (blame span applied).result)
    (hfault : ∀ fault, applied = .error fault → outer.AtFault scopes e (.error ⟨fault, span⟩)) :
    (announce a >>= fun _ => blame span applied).Visits scopes outer [e] := by
  rw [announce_bind, blame_eq_ofResult]
  refine visits_announced hannounced ha (reaches_single (yields_iff.mpr hresult) ?_)
  intro stop hstop
  cases applied with
  | ok v => cases hstop
  | error fault =>
      cases hstop
      exact hfault fault rfl

/-- An operand and its check are one walk, that of the operand. The right operand is part of the
walk only if the left one leaves the operation open. -/
theorem visits_shortCircuit {span : Span} {left right : Expr} {op : Located ShortCircuitOp}
    (hself : .shortCircuit span left op right ∈ outer.traversal scopes)
    (hleft : (left.eval scopes).Visits scopes outer (left.traversal scopes))
    (hright : left.decides scopes op.value = false →
      (right.eval scopes).Visits scopes outer (right.traversal scopes)) :
    ((Expr.shortCircuit span left op right).eval scopes).Visits scopes outer
      ((Expr.shortCircuit span left op right).traversal scopes) := by
  rw [traversal, Expr.eval, ← bind_assoc]
  refine (visits_operand hleft fun v hv htype => .left hself hv htype).bind fun a ha => ?_
  have hyields := yields_of_operand ha
  rw [decides_of_yields hyields] at hright ⊢
  by_cases hop : a = op.value.decider
  · -- the left operand decides, so the operation itself is all that is left of the walk
    rw [if_pos hop, decide_eq_true hop, if_pos rfl, List.nil_append]
    have hdecided : (Expr.shortCircuit span left op right).Yields scopes (.ok (.bool a)) :=
      .decided hyields (ShortCircuitOp.decides_iff.mpr hop)
    exact visits_silent rfl (reaches_value hdecided)
  · rw [if_neg hop, decide_eq_false hop, if_neg Bool.false_ne_true, ← bind_assoc]
    have hopen : ¬op.value.Decides a := fun h => hop (ShortCircuitOp.decides_iff.mp h)
    refine (visits_operand (hright (decide_eq_false hop)) fun v hv htype =>
      .right hself hyields hopen hv htype).bind fun b hb => ?_
    have hundecided : (Expr.shortCircuit span left op right).Yields scopes (.ok (.bool b)) :=
      .undecided hyields hopen (yields_of_operand hb)
    exact visits_silent rfl (reaches_value hundecided)

/-- **Evaluation is a walk.** -/
theorem visits_traversal (scopes : Scopes) {outer : Expr} (e : Expr)
    (h : e.traversal scopes ⊆ outer.traversal scopes) :
    (e.eval scopes).Visits scopes outer (e.traversal scopes) := by
  induction e using Expr.eval.induct with
  | case1 span name =>
      have hyields : (Expr.var span name).Yields scopes (scopes.read span name).result :=
        yields_iff.mpr rfl
      have hreaches : Reaches scopes outer [.var span name] [] (scopes.read span name).result :=
        reaches_single hyields fun stop hstop => .var (hstop ▸ hyields)
      rw [Expr.eval, Scopes.read_eq_behind]
      exact visits_announced rfl rfl hreaches
  | case2 span v => exact visits_silent rfl (reaches_value .literal)
  | case3 span inner ih =>
      rw [traversal] at h ⊢
      -- the parentheses are a node of their own behind the inner walk
      rw [Expr.eval, ← bind_pure (inner.eval scopes)]
      refine (ih fun node hnode => h (List.mem_append_left _ hnode)).bind fun v hv => ?_
      exact visits_silent rfl (reaches_value (.paren (yields_iff.mpr hv)))
  | case4 span callee arguments =>
      refine visits_silent rfl (reaches_single .call fun stop hstop => ?_)
      cases hstop
      exact .call
  | case5 span left op right ihl ihr =>
      -- the operation is part of the walk around it, which the fault of an operand refers to
      have hself := h (mem_traversal scopes (.shortCircuit span left op right))
      rw [traversal] at h
      refine visits_shortCircuit hself (ihl fun node hnode => h (List.mem_append_left _ hnode)) ?_
      intro hopen
      rw [hopen, if_neg Bool.false_ne_true] at h
      exact ihr fun node hnode => h (List.mem_append_right _ (List.mem_append_left _ hnode))
  | case6 span left op right ihl ihr =>
      rw [traversal] at h ⊢
      refine (ihl fun node hnode => h (List.mem_append_left _ hnode)).bind fun a ha => ?_
      refine (ihr fun node hnode =>
        h (List.mem_append_right _ (List.mem_append_left _ hnode))).bind fun b hb => ?_
      refine visits_applied rfl (by rw [action?, ha, hb]) ?_ fun fault happly =>
        .binary (yields_iff.mpr ha) (yields_iff.mpr hb) happly
      rw [Expr.eval, result_bind_of_ok ha, result_bind_of_ok hb]
      rfl
  | case7 span op operand ih =>
      rw [traversal] at h ⊢
      refine (ih fun node hnode => h (List.mem_append_left _ hnode)).bind fun a ha => ?_
      refine visits_applied rfl (by rw [action?, ha]) ?_ fun fault happly =>
        .unary (yields_iff.mpr ha) happly
      rw [Expr.eval, result_bind_of_ok ha]
      rfl
  | case8 span =>
      refine visits_silent rfl (reaches_single .hole fun stop hstop => ?_)
      cases hstop
      exact .hole

/-! ## What is left out -/

/-- The expression with another one in place of everything that is not part of its walk: what is
called and with which arguments, and superfluous right operands. -/
def replaceSkipped (scopes : Scopes) (e filler : Expr) : Expr :=
  match e with
  | .var _ _ | .literal _ _ | .hole _ => e
  | .call span _ _ => .call span filler [filler]
  | .paren span inner => .paren span (inner.replaceSkipped scopes filler)
  | .shortCircuit span left op right =>
    .shortCircuit span (left.replaceSkipped scopes filler) op
      (if left.decides scopes op.value then filler else right.replaceSkipped scopes filler)
  | .binary span left op right =>
    .binary span (left.replaceSkipped scopes filler) op (right.replaceSkipped scopes filler)
  | .unary span op operand => .unary span op (operand.replaceSkipped scopes filler)

theorem span_replaceSkipped (scopes : Scopes) (e filler : Expr) :
    (e.replaceSkipped scopes filler).span = e.span := by
  cases e <;> rw [replaceSkipped] <;> rfl

/-- If the left operand decides, the right one does not matter. -/
theorem eval_of_decides {left : Expr} {op : Located ShortCircuitOp}
    (h : left.decides scopes op.value = true) (span : Span) (right right' : Expr) :
    (Expr.shortCircuit span left op right).eval scopes =
      (Expr.shortCircuit span left op right').eval scopes := by
  have hleft : (left.eval scopes).result = .ok (.bool op.value.decider) := by
    unfold decides at h
    split at h
    · rename_i b hb
      rw [hb, of_decide_eq_true h]
    · cases h
  simp only [Expr.eval, bind_def, andThen_of_ok hleft]
  -- the operation is decided before its right operand is looked at
  have hdecided (e : Expr) :
      ((op.value.operand left.span (.bool op.value.decider)).andThen fun a =>
        if a = op.value.decider then pure (.bool a)
        else (e.eval scopes).andThen fun v => (op.value.operand e.span v).andThen fun b =>
          pure (.bool b)) = (pure (.bool op.value.decider) : Evaluation Value) := by
    show (if op.value.decider = op.value.decider then _ else _) = _
    rw [if_pos rfl]
  rw [hdecided right, hdecided right']

/-- **Nothing that is left out is evaluated**: anything may stand in its place. -/
theorem eval_replaceSkipped (scopes : Scopes) (e filler : Expr) :
    (e.replaceSkipped scopes filler).eval scopes = e.eval scopes := by
  induction e using Expr.eval.induct with
  | case1 | case2 | case8 => rw [replaceSkipped]
  | case3 span inner ih => rw [replaceSkipped, Expr.eval, ih, Expr.eval]
  | case4 span callee arguments => rw [replaceSkipped, Expr.eval, Expr.eval]
  | case5 span left op right ihl ihr =>
      rw [replaceSkipped]
      -- the replaced left operand has the same value, so it decides in the same cases
      have hleft : (left.replaceSkipped scopes filler).decides scopes op.value =
          left.decides scopes op.value := by rw [decides, ihl, decides]
      cases hdecides : left.decides scopes op.value with
      | true =>
          rw [eval_of_decides (hleft.trans hdecides) span _ right, Expr.eval, Expr.eval, ihl,
            span_replaceSkipped]
      | false =>
          rw [if_neg Bool.false_ne_true, Expr.eval, Expr.eval, ihl, ihr, span_replaceSkipped,
            span_replaceSkipped]
  | case6 span left op right ihl ihr =>
      rw [replaceSkipped, Expr.eval, Expr.eval, ihl, ihr, span_replaceSkipped, span_replaceSkipped]
  | case7 span op operand ih =>
      rw [replaceSkipped, Expr.eval, Expr.eval, ih, span_replaceSkipped]

/-- **Evaluation only reads, and announces in post-order.** Wherever an expression is evaluated,
the transitions and the machine come past its actions in an unchanged state, and to its result.
The actions are those of the variables, binary and unary operations of the walk, one for each and
in order: of the whole walk if there is a value, and else of the walk up to the node that is at
fault. Nothing outside of the walk has a part in it. -/
theorem eval_postOrder (e : Expr) (s : State) :
    (∀ waiting use todo,
      Config.Leads ⟨s, .eval e waiting use, todo⟩ ((e.eval s.scopes).actions.map (⟨·, s⟩))
        ⟨s, .give (e.eval s.scopes).result waiting use, todo⟩ ∧
      ∀ i a, (e.eval s.scopes).actions[i]? = some a →
        ((Config.outcome ⟨s, .eval e waiting use, todo⟩).after i).record? = some ⟨a, s⟩) ∧
    (∃ visited rest, e.traversal s.scopes = visited ++ rest ∧
      (visited.filter (·.announced)).map (·.action? s.scopes) =
        (e.eval s.scopes).actions.map some ∧
      (∀ v, (e.eval s.scopes).result = .ok v → rest = []) ∧
      ∀ stop, (e.eval s.scopes).result = .error stop → ∃ before node,
        visited = before ++ [node] ∧ e.AtFault s.scopes node stop ∧
        ∀ node ∈ before, node.HasValue s.scopes) ∧
    ∀ filler, (e.replaceSkipped s.scopes filler).eval s.scopes = e.eval s.scopes := by
  refine ⟨fun waiting use todo => ?_, ?_, fun filler => eval_replaceSkipped s.scopes e filler⟩
  · have hleads := e.computes s waiting use todo
    refine ⟨hleads, fun i a ha => hleads.record?_after ?_⟩
    rw [List.getElem?_map, ha]
    rfl
  · obtain ⟨visited, rest, hnodes, hactions, hreaches⟩ :=
      visits_traversal s.scopes e (List.Subset.refl _)
    refine ⟨visited, rest, hnodes, hactions, fun v hv => ?_, fun stop hstop => ?_⟩
    · rw [hv] at hreaches
      exact hreaches.1
    · rw [hstop] at hreaches
      exact hreaches

end Expr

end Stepwise
